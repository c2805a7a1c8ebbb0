import ClassBench.Proofs.Constructor.Steps
import ClassBench.Proofs.World.FieldValues
import Mathlib.Data.List.Chain

/-! The discipline of an instantiation.  The constructors of a chain run nested: each takes some
steps, calls the constructor of its super type, takes the others and returns, and the innermost
calls that of a host type.  All of them store into the fields of the one instance, before their
calls and after, so that a field holds what was stored last under its name in the order of the
steps. -/

namespace ClassBench

namespace ConstructorStep

variable {s : ConstructorStep} {run : String → Fields → List ConstructorStep} {super : String}

/-- The step, and behind it what is run of the constructor that it calls. -/
def andCalled (run : String → Fields → List ConstructorStep) (s : ConstructorStep) :
    List ConstructorStep :=
  s :: match s.called? with
    | some super => run super s.frame.fields
    | none => []

theorem andCalled_silent (silent : s.called? = none) : s.andCalled run = [s] := by
  rw [andCalled, silent]

theorem andCalled_calls (calls : s.called? = some super) :
    s.andCalled run = s :: run super s.frame.fields := by
  rw [andCalled, calls]

theorem flatMap_andCalled {steps : List ConstructorStep}
    (silent : ∀ s ∈ steps, s.called? = none) : steps.flatMap (andCalled run) = steps :=
  (List.flatMap_congr fun s hs => andCalled_silent (silent s hs)).trans (List.flatMap_singleton' _)

end ConstructorStep

namespace World

variable {w : World} {id : ScopeId} {name : String} {t : LoadedType}
  {chain : List LoadedType} {fields fields' : Fields} {steps : List ConstructorStep}

/-- The steps of the constructor of a type that is named, if it is loaded in the scope, each with
those of the constructor that it calls. -/
def constructorSteps (w : World) (id : ScopeId) :
    (fuel : Nat) → (name : String) → Fields → List ConstructorStep
  | 0, _, _ => []
  | fuel + 1, name, fields =>
    match w.loaded? id name with
    | none => []
    | some t => (t.ownSteps (w.callSuper id fuel) fields).flatMap
        (ConstructorStep.andCalled (w.constructorSteps id fuel))

/-- The steps of all constructors that an instantiation runs. -/
def instantiationSteps (w : World) (id : ScopeId) (name : String) : List ConstructorStep :=
  w.constructorSteps id ((w.loadedOf id).length + 1) name []

/-- Nothing is loaded under the name, but it stands for a type that has a constructor without
parameters. -/
structure Hosted (w : World) (id : ScopeId) (name : String) : Prop where
  unloaded : w.loaded? id name = none
  host : ∃ h, w.resolve? id name = some h ∧ h.type.hasDefaultConstructor = true

/-- How the constructor that is called by a name runs: the types of the chain, the fields before and
after, and the steps.  That of a host type takes none. -/
inductive Runs (w : World) (id : ScopeId) :
    String → List LoadedType → Fields → Fields → List ConstructorStep → Prop
  | host {name : String} {fields : Fields} (hosted : w.Hosted id name) :
      Runs w id name [] fields fields []
  | loaded {name super : String} {t : LoadedType} {chain : List LoadedType} {fuel : Nat}
      {fields between fields' : Fields} {before after nested : List ConstructorStep}
      {call : ConstructorStep} (loaded : w.loaded? id name = some t)
      (ran : t.runConstructor (w.callSuper id fuel) fields = .ok fields')
      (own : t.ownSteps (w.callSuper id fuel) fields = before ++ call :: after)
      (named : t.classFile.superName? = some super) (storeless : call.write? = none)
      (left : fields' = between.storeAll (after.flatMap (·.stores)))
      (further : Runs w id super chain (fields.storeAll (before.flatMap (·.stores))) between
        nested) :
      Runs w id name (t :: chain) fields fields' (before ++ call :: (nested ++ after))

/-! ### What runs -/

theorem hosted_of_callSuper {fuel : Nat} (unloaded : w.loaded? id name = none)
    (ran : w.callSuper id fuel name fields = .ok fields') :
    w.Hosted id name ∧ fields' = fields := by
  rw [callSuper, unloaded] at ran
  cases found : w.resolve? id name with
  | none =>
    rw [found] at ran
    cases ran
  | some h =>
    simp only [found] at ran
    split at ran
    · next constructor =>
      cases ran
      exact ⟨⟨unloaded, h, found, constructor⟩, rfl⟩
    · cases ran

/-- A constructor that returns runs around the one that it calls. -/
theorem runs_loaded {fuel : Nat} (loaded : w.loaded? id name = some t)
    (ran : t.runConstructor (w.callSuper id fuel) fields = .ok fields')
    (further : ∀ super brought between, w.callSuper id fuel super brought = .ok between →
      ∃ chain, w.Runs id super chain brought between (w.constructorSteps id fuel super brought)) :
    ∃ chain, w.Runs id name chain fields fields'
      ((t.ownSteps (w.callSuper id fuel) fields).flatMap
        (ConstructorStep.andCalled (w.constructorSteps id fuel))) := by
  have types (s : ConstructorStep) (hs : s ∈ t.ownSteps (w.callSuper id fuel) fields) :
      s.type = t := LoadedType.type_of_mem_ownSteps hs
  have course := LoadedType.ownSteps_course ran
  generalize own : t.ownSteps (w.callSuper id fuel) fields = steps at course types
  cases course with
  | @intro before later call last super between first calls brings made second returns leaves =>
    obtain ⟨chain, runs⟩ := further super call.frame.fields between made
    -- The step that returns is silent and stores nothing, as the steps behind the call.
    have silent : ∀ s ∈ later ++ [last], s.called? = none :=
      List.forall_mem_append.mpr ⟨fun s hs => (second s hs).silent, by simp [returns.silent]⟩
    have stored : (later ++ [last]).flatMap (·.stores) = later.flatMap (·.stores) := by
      simp [ConstructorStep.stores, returns.storeless]
    have callType : call.type = t := types call (by simp)
    refine ⟨t :: chain, ?_⟩
    rw [List.flatMap_append, List.flatMap_cons, ConstructorStep.andCalled_calls calls.calls,
      ConstructorStep.flatMap_andCalled fun s hs => (first s hs).silent,
      ConstructorStep.flatMap_andCalled silent, List.cons_append]
    exact .loaded loaded ran own (callType ▸ calls.super) calls.storeless (stored ▸ leaves)
      (brings ▸ runs)

/-- A call that is answered runs a chain of constructors. -/
theorem runs_callSuper {fuel : Nat} (ran : w.callSuper id fuel name fields = .ok fields') :
    ∃ chain, w.Runs id name chain fields fields' (w.constructorSteps id fuel name fields) := by
  induction fuel generalizing name fields fields' with
  | zero =>
    cases loaded : w.loaded? id name with
    | some t =>
      rw [callSuper_loaded loaded] at ran
      cases ran
    | none =>
      obtain ⟨hosted, rfl⟩ := hosted_of_callSuper loaded ran
      exact ⟨[], .host hosted⟩
  | succ fuel ih =>
    rw [constructorSteps]
    cases loaded : w.loaded? id name with
    | none =>
      obtain ⟨hosted, rfl⟩ := hosted_of_callSuper loaded ran
      exact ⟨[], .host hosted⟩
    | some t =>
      rw [callSuper_loaded loaded, runChain_succ] at ran
      exact runs_loaded loaded ran fun super brought between made => ih made

namespace Runs

variable {r : List ConstructorStep} {g g' : Fields} {chain' : List LoadedType}

/-! ### The chain -/

theorem head_eq (runs : w.Runs id name chain fields fields' steps) :
    chain.head? = w.loaded? id name := by
  cases runs with
  | host hosted => exact hosted.unloaded.symm
  | loaded loaded => exact loaded.symm

theorem loaded_of_mem (runs : w.Runs id name chain fields fields' steps) :
    ∀ t ∈ chain, w.loaded? id t.name = some t := by
  induction runs with
  | host => simp
  | loaded loaded _ _ _ _ _ _ ih =>
    have named := (loaded?_eq_some loaded).2
    exact List.forall_mem_cons.mpr ⟨named.symm ▸ loaded, ih⟩

/-- Each type of the chain names the next one as its super type. -/
theorem linked (runs : w.Runs id name chain fields fields' steps) :
    chain.IsChain fun t u => t.classFile.superName? = some u.name := by
  induction runs with
  | host => exact .nil
  | loaded loaded _ _ named _ _ further ih =>
    refine List.isChain_cons.mpr ⟨fun u next => ?_, ih⟩
    rw [further.head_eq] at next
    rw [named, (loaded?_eq_some next).2]

/-- The last type of the chain names a host type as its super type. -/
theorem last_hosted (runs : w.Runs id name chain fields fields' steps) :
    ∀ t ∈ chain.getLast?, ∃ super, t.classFile.superName? = some super ∧ w.Hosted id super := by
  induction runs with
  | host => simp
  | @loaded _ super t chain _ _ _ _ _ _ _ _ _ _ _ named _ _ further ih =>
    cases chain with
    | nil =>
      cases further with
      | host hosted =>
        rintro _ ⟨⟩
        exact ⟨super, named, hosted⟩
    | cons u chain => rwa [List.getLast?_cons_cons]

/-- What is run by a name is determined by it. -/
theorem chain_unique (runs : w.Runs id name chain fields fields' steps)
    (other : w.Runs id name chain' g g' r) : chain = chain' := by
  induction runs generalizing chain' g g' r with
  | host hosted =>
    cases other with
    | host => rfl
    | loaded loaded => exact absurd loaded (by simp [hosted.unloaded])
  | loaded loaded _ _ named _ _ _ ih =>
    cases other with
    | host hosted => exact absurd loaded (by simp [hosted.unloaded])
    | loaded loaded' _ _ named' _ _ further =>
      obtain rfl := Option.some.inj (loaded.symm.trans loaded')
      obtain rfl := Option.some.inj (named.symm.trans named')
      rw [ih further]

/-- From each type of the chain on, its constructor runs. -/
theorem of_mem (runs : w.Runs id name chain fields fields' steps) (ht : t ∈ chain) :
    ∃ rest f f' r, rest.length < chain.length ∧ w.Runs id t.name (t :: rest) f f' r := by
  induction runs with
  | host => cases ht
  | loaded loaded ran own named storeless left further ih =>
    rcases List.mem_cons.mp ht with rfl | inside
    · have named' := (loaded?_eq_some loaded).2
      exact ⟨_, _, _, _, Nat.lt_succ_self _,
        .loaded (named'.symm ▸ loaded) ran own named storeless left further⟩
    · obtain ⟨rest, f, f', r, shorter, runs⟩ := ih inside
      exact ⟨rest, f, f', r, Nat.lt_succ_of_lt shorter, runs⟩

/-- No type comes twice: the chain would go round, and never end. -/
theorem nodup (runs : w.Runs id name chain fields fields' steps) :
    (chain.map LoadedType.name).Nodup := by
  induction runs with
  | host => exact .nil
  | loaded loaded ran own named storeless left further ih =>
    refine List.nodup_cons.mpr ⟨fun again => ?_, ih⟩
    obtain ⟨u, hu, same⟩ := List.mem_map.mp again
    obtain ⟨rest, f, f', r, shorter, runs⟩ := further.of_mem hu
    rw [same, (loaded?_eq_some loaded).2] at runs
    have whole := runs.chain_unique (.loaded loaded ran own named storeless left further)
    rw [(List.cons.inj whole).2] at shorter
    exact Nat.lt_irrefl _ shorter

/-! ### The steps -/

section Nesting

variable {before nested after : List ConstructorStep} {call : ConstructorStep}
  {p : ConstructorStep → Bool}

theorem mem_own_or_nested {s : ConstructorStep} (hs : s ∈ before ++ call :: (nested ++ after)) :
    s ∈ before ++ call :: after ∨ s ∈ nested := by
  simp only [List.mem_append, List.mem_cons] at hs ⊢
  tauto

theorem filter_own (others : nested.filter p = []) :
    (before ++ call :: (nested ++ after)).filter p = (before ++ call :: after).filter p := by
  simp only [List.filter_append, List.filter_cons, others, List.nil_append]

theorem filter_others (own : (before ++ call :: after).filter p = []) :
    (before ++ call :: (nested ++ after)).filter p = nested.filter p := by
  obtain ⟨first, second⟩ := List.append_eq_nil_iff.mp (List.filter_append .. ▸ own)
  have here : ¬p call = true := List.filter_eq_nil_iff.mp second call List.mem_cons_self
  rw [List.filter_cons_of_neg here] at second
  rw [List.filter_append, List.filter_cons_of_neg here, List.filter_append, first, second,
    List.nil_append, List.append_nil]

end Nesting

theorem type_mem (runs : w.Runs id name chain fields fields' steps) :
    ∀ s ∈ steps, s.type ∈ chain := by
  induction runs with
  | host => simp
  | loaded _ _ own _ _ _ _ ih =>
    intro s hs
    rcases mem_own_or_nested hs with here | inside
    · rw [← own] at here
      exact LoadedType.type_of_mem_ownSteps here ▸ List.mem_cons_self
    · exact List.mem_cons_of_mem _ (ih s inside)

theorem declared (runs : w.Runs id name chain fields fields' steps) :
    ∀ s ∈ steps, ∀ write ∈ s.write?, s.type.declares write.1 = true := by
  induction runs with
  | host => simp
  | loaded _ ran own _ _ _ _ ih =>
    intro s hs
    rcases mem_own_or_nested hs with here | inside
    · rw [← own] at here
      exact (LoadedType.ownSteps_course ran).declared s here
    · exact ih s inside

/-- The fields are those that the steps have stored, in their order. -/
theorem fields_eq (runs : w.Runs id name chain fields fields' steps) :
    fields' = fields.storeAll (steps.flatMap (·.stores)) := by
  induction runs with
  | host => rfl
  | @loaded _ _ _ _ _ _ _ _ before after nested call _ _ _ _ storeless left _ ih =>
    have nothing : call.stores = [] := by simp [ConstructorStep.stores, storeless]
    rw [left, ih, List.flatMap_append, List.flatMap_cons, nothing, List.nil_append,
      List.flatMap_append, Fields.storeAll_append, Fields.storeAll_append]

/-- The constructor of each type of the chain ran, and the steps of the type are its own. -/
theorem ran (runs : w.Runs id name chain fields fields' steps) :
    ∀ t ∈ chain, ∃ fuel brought left,
      t.runConstructor (w.callSuper id fuel) brought = .ok left ∧
      steps.filter (·.type.name == t.name) = t.ownSteps (w.callSuper id fuel) brought := by
  induction runs with
  | host => simp
  | @loaded _ _ t chain fuel brought _ left' before after nested call loaded ran own named storeless
      left further ih =>
    obtain ⟨new, -⟩ := List.nodup_cons.mp
      (Runs.loaded loaded ran own named storeless left further).nodup
    have other {u : LoadedType} (hu : u ∈ chain) : u.name ≠ t.name := fun same =>
      new (List.mem_map.mpr ⟨u, hu, same⟩)
    have types : ∀ s ∈ before ++ call :: after, s.type = t := fun s hs =>
      LoadedType.type_of_mem_ownSteps (own ▸ hs)
    refine List.forall_mem_cons.mpr ⟨⟨fuel, brought, left', ran, ?_⟩, fun u hu => ?_⟩
    · rw [own, filter_own]
      · exact List.filter_eq_self.mpr fun s hs => by simp [types s hs]
      · exact List.filter_eq_nil_iff.mpr fun s hs => by simp [other (further.type_mem s hs)]
    · rw [filter_others]
      · exact ih u hu
      · exact List.filter_eq_nil_iff.mpr fun s hs => by simp [types s hs, (other hu).symm]

end Runs

/-! ### Instantiation -/

/-- An instantiation that succeeds ran the constructor of the type loaded under the name. -/
theorem instantiate_ok {i : Instance} (made : w.instantiate id name = .ok i) :
    i.scope = id ∧ w.loaded? id name = some i.type ∧ w.construct id i.type = .ok i.fields := by
  rw [instantiate] at made
  cases loaded : w.loaded? id name with
  | none =>
    rw [loaded] at made
    cases made
  | some t =>
    simp only [loaded] at made
    split at made
    · cases made
    split at made
    · cases made
    cases ran : w.construct id t with
    | error e =>
      rw [ran] at made
      cases made
    | ok fields =>
      rw [ran] at made
      cases made
      exact ⟨rfl, rfl, ran⟩

theorem runs_instantiate {i : Instance} (made : w.instantiate id name = .ok i) :
    ∃ chain, w.Runs id name chain [] i.fields (w.instantiationSteps id name) := by
  obtain ⟨-, loaded, ran⟩ := instantiate_ok made
  rw [construct_eq, ← callSuper_loaded loaded] at ran
  exact runs_callSuper ran

/-- In every world, for every instance that is made: its constructors ran along a chain of distinct
types loaded in the scope, from the type of the instance on, each the super type of the one before
it, and the super type of the last is not loaded but has a constructor.  Of all the steps that were
taken, those of each type are one run of its constructor, up to its return and with one call, that
of the super type.  A field holds exactly what was stored last under its name, by the constructor of
a type of the chain that declares the field. -/
theorem instantiation_keeps_discipline (w : World) (id : ScopeId) (name : String) (i : Instance)
    (made : w.instantiate id name = .ok i) :
    i.scope = id ∧ ∃ chain : List LoadedType,
      chain.head? = some i.type ∧ i.type.name = name ∧
      (∀ t ∈ chain, w.loaded? id t.name = some t) ∧ (chain.map LoadedType.name).Nodup ∧
      chain.IsChain (fun t u => t.classFile.superName? = some u.name) ∧
      (∃ last super, chain.getLast? = some last ∧ last.classFile.superName? = some super ∧
        w.loaded? id super = none ∧
        ∃ h, w.resolve? id super = some h ∧ h.type.hasDefaultConstructor = true) ∧
      (∀ s ∈ w.instantiationSteps id name, s.type ∈ chain) ∧
      (∀ t ∈ chain, ∃ fuel brought left,
        t.runConstructor (w.callSuper id fuel) brought = .ok left ∧
        (w.instantiationSteps id name).filter (·.type.name == t.name) =
          t.ownSteps (w.callSuper id fuel) brought ∧
        t.RunsOnce (t.ownSteps (w.callSuper id fuel) brought)) ∧
      i.fields.Sorted ∧
      ∀ key value, i.fields.lookup key = some value ↔
        ∃ before s later field, w.instantiationSteps id name = before ++ s :: later ∧
          s.write? = some (field, value) ∧ field.name = key ∧ s.type.declares field = true ∧
          ∀ after ∈ later, ∀ write ∈ after.write?, write.1.name ≠ key := by
  obtain ⟨scope, loaded, -⟩ := instantiate_ok made
  obtain ⟨chain, runs⟩ := runs_instantiate made
  have head : chain.head? = some i.type := runs.head_eq.trans loaded
  obtain ⟨last, isLast⟩ : ∃ last, chain.getLast? = some last := by
    cases chain with
    | nil => cases head
    | cons t chain => exact ⟨_, List.getLast?_eq_some_getLast (List.cons_ne_nil _ _)⟩
  obtain ⟨super, named, hosted⟩ := runs.last_hosted last isLast
  refine ⟨scope, chain, head, (loaded?_eq_some loaded).2, runs.loaded_of_mem, runs.nodup,
    runs.linked, ⟨last, super, isLast, named, hosted.unloaded, hosted.host⟩, runs.type_mem,
    fun t ht => ?_, ?_, fun key value => ?_⟩
  · obtain ⟨fuel, brought, left, ran, own⟩ := runs.ran t ht
    exact ⟨fuel, brought, left, ran, own, LoadedType.runsOnce_ownSteps ran⟩
  · rw [runs.fields_eq]
    exact Fields.Sorted.storeAll List.Pairwise.nil _
  · rw [runs.fields_eq, Fields.lookup_storeAll, List.lookup_nil, Option.or_none,
      ConstructorStep.lookup_stores_eq_some]
    constructor
    · rintro ⟨before, s, later, field, split, write, named, final⟩
      have declared := runs.declared s (by simp [split]) (field, value) write
      exact ⟨before, s, later, field, split, write, named, declared, final⟩
    · rintro ⟨before, s, later, field, split, write, named, -, final⟩
      exact ⟨before, s, later, field, split, write, named, final⟩

/-- A class stores a text in a field, and its heir stores null in one of the same name. -/
theorem instantiation_keeps_discipline_override :
    let text := "Ljava/lang/String;"
    let base : ClassPlan :=
      { name := "app/Base", fields := [⟨Access.isPublic, "label", text⟩],
        stores := [⟨"label", text, .text "base"⟩] }
    let heir : ClassPlan :=
      { name := "app/Heir", fields := [⟨Access.isPublic, "label", text⟩],
        stores := [⟨"label", text, .null⟩] }
    let w := after
      ([.bootstrap, .isolated ⟨0⟩] ++ ClassPlan.definitions ⟨1⟩ objectName [heir, base])
    let steps := w.instantiationSteps ⟨1⟩ "app/Heir"
    steps.map (fun s => (s.type.name, s.instruction.opcode)) =
      [("app/Heir", .aload_0), ("app/Heir", .invokespecial), ("app/Base", .aload_0),
        ("app/Base", .invokespecial), ("app/Base", .aload_0), ("app/Base", .ldc),
        ("app/Base", .putfield), ("app/Base", .return_), ("app/Heir", .aload_0),
        ("app/Heir", .aconst_null), ("app/Heir", .putfield), ("app/Heir", .return_)] ∧
    ∃ i, w.instantiate ⟨1⟩ "app/Heir" = .ok i ∧
      (∃ chain : List LoadedType, chain.head? = some i.type ∧
        ∀ t ∈ chain, t.RunsOnce (steps.filter (·.type.name == t.name))) ∧
      ∃ before s later field, steps = before ++ s :: later ∧ s.write? = some (field, .null) ∧
        field.name = "label" ∧ s.type.declares field = true ∧
        ∀ after ∈ later, ∀ write ∈ after.write?, write.1.name ≠ "label" := by
  intro text base heir w steps
  refine ⟨by decide +kernel, ?_⟩
  have null : (w.instantiate ⟨1⟩ "app/Heir").toOption.map (·.fields.lookup "label") =
      some (some .null) := by decide +kernel
  cases made : w.instantiate ⟨1⟩ "app/Heir" with
  | error e =>
    rw [made] at null
    cases null
  | ok i =>
    rw [made] at null
    obtain ⟨-, chain, head, -, -, -, -, -, -, once, -, holds⟩ :=
      instantiation_keeps_discipline w ⟨1⟩ "app/Heir" i made
    refine ⟨i, rfl, ⟨chain, head, fun t ht => ?_⟩, (holds "label" .null).mp (Option.some.inj null)⟩
    obtain ⟨fuel, brought, left, -, own, runsOnce⟩ := once t ht
    exact own ▸ runsOnce

end World

end ClassBench
