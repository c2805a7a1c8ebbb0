import ClassBench.Proofs.Assembly.Fixture
import ClassBench.Proofs.World.Assignability
import ClassBench.Proofs.World.Defining

/-! Creating fixtures.  A load works in a new scope within that of the super type, so whatever comes
of it, the scopes that there were stay as they are.  A fixture below a type that a scope sees can
fail to be created for two reasons only: its name is taken, or its super class has no constructor
without parameters. -/

namespace ClassBench.World

open Synthesizer (plan superName fixture)

variable {w : World} {id other : ScopeId} {n name : String} {h super : TypeHandle} {bytes : Bytes}
  {t : LoadedType}

/-! ### Attempts to load -/

/-- Loads a class file, and tells in which world that ends also if it fails. -/
def attempt (w : World) (super : TypeHandle) (bytes : Bytes) : Except LoadError Instance × World :=
  let (id, w) := w.addIsolated super.scope
  match w.define id bytes with
  | .error e => (.error e, w)
  | .ok (t, w) =>
    match w.instantiate id t.name with
    | .error e => (.error e, w)
    | .ok i =>
      if w.isInstanceOf i super.type.name then (.ok i, w)
      else (.error (.notAssignable t.name super.type.name), w)

theorem load_eq_attempt (w : World) (super : TypeHandle) (bytes : Bytes) :
    w.load super bytes =
      (w.attempt super bytes).1.map fun i => (i, (w.attempt super bytes).2) := by
  rcases opened : w.addIsolated super.scope with ⟨inner, w1⟩
  simp only [load, attempt, opened]
  cases w1.define inner bytes with
  | error e => rfl
  | ok made =>
    obtain ⟨t, w2⟩ := made
    show (w2.instantiate inner t.name >>= fun i => _) = _
    simp only
    cases w2.instantiate inner t.name with
    | error e => rfl
    | ok i =>
      show (if (!w2.isInstanceOf i super.type.name) = true then _ else _) = _
      simp only
      cases w2.isInstanceOf i super.type.name <;> rfl

/-- An attempt changes no scope that there was. -/
theorem attempt_keeps (super : TypeHandle) (bytes : Bytes) (present : w.has other = true) :
    (w.attempt super bytes).2.scope? other = w.scope? other := by
  have kept : (w.addIsolated super.scope).2.scope? other = w.scope? other :=
    scope?_add_of_has _ present
  unfold attempt
  simp only
  cases defined : (w.addIsolated super.scope).2.define (w.addIsolated super.scope).1 bytes with
  | error e => exact kept
  | ok made =>
    obtain ⟨t, w'⟩ := made
    obtain ⟨-, -, -, -, rfl⟩ := define_eq_ok.mp defined
    -- The type enters the new scope, which is none of those that there were.
    have away : (w.addIsolated super.scope).1 ≠ other := fun same =>
      absurd (has_iff.mp (same ▸ present)) (Nat.lt_irrefl _)
    have grown : ((w.addIsolated super.scope).2.grow (w.addIsolated super.scope).1 t.type
        [t]).scope? other = w.scope? other := by
      rw [World.grow, scope?_modifyScope, if_neg away, kept]
    simp only
    split
    · exact grown
    · split <;> exact grown

/-! ### The new scope -/

theorem has_addIsolated : (w.addIsolated id).2.has w.next = true := has_add.mpr (.inr rfl)

theorem step_addIsolated (present : w.has id = true) : Step w (w.addIsolated id).2 :=
  .child { name := _, ancestors := _, isolated := true } id present rfl rfl rfl

theorem loadedOf_addIsolated : (w.addIsolated id).2.loadedOf w.next = [] := by
  rw [addIsolated, loadedOf_add_next]

/-- The new scope sees what the scope around it does. -/
theorem Nested.resolve?_addIsolated (nested : w.Nested) (present : w.has id = true) (n : String) :
    (w.addIsolated id).2.resolve? w.next n = w.resolve? id n := by
  have empty : (w.addIsolated id).2.local? w.next n = none := by
    rw [local?_eq_find?, addIsolated, typesOf_add_next]
    rfl
  have around : (w.addIsolated id).2.lineage w.next = w.lineage id ++ [w.next] := by
    rw [lineage_eq has_addIsolated, addIsolated, ancestors_add_next]
  rw [resolve?, around, List.findSome?_append, List.findSome?_singleton, empty, Option.map_none,
    Option.or_none, resolve?]
  refine List.findSome?_congr fun a member => ?_
  rw [local?_eq_find?, addIsolated, typesOf_add _ (nested.lineage_split present a member).1,
    ← local?_eq_find?]

theorem has_of_resolve? (found : w.resolve? id n = some h) : w.has id = true := by
  obtain ⟨a, member, -⟩ := resolve?_isSome.mp (Option.isSome_of_eq_some found)
  exact has_of_mem_lineage member

/-- A name stands for a definition also in the scope that has it. -/
theorem Nested.resolve?_own (nested : w.Nested) (found : w.resolve? id n = some h) :
    w.resolve? h.scope n = some h := by
  obtain ⟨member, here, outside⟩ := nested.resolve?_eq_some.mp found
  obtain ⟨present, -⟩ := nested.lineage_split (has_of_mem_lineage member) _ member
  exact nested.resolve?_eq_some.mpr ⟨mem_lineage_self present, here, outside⟩

/-! ### Fixtures -/

theorem Bootstrapped.around {operations : List Operation} (rooted : Bootstrapped operations id)
    (member : other ∈ (after operations).lineage id) : Bootstrapped operations other := by
  obtain ⟨earlier, later, split, outermost⟩ := rooted
  obtain ⟨present, inner, begins, -⟩ :=
    (nested_after operations).lineage_split (has_of_mem_lineage member) other member
  refine ⟨earlier, later, split, ?_⟩
  have some : (after operations).lineage other ≠ [] :=
    List.ne_nil_of_mem (mem_lineage_self present)
  rwa [begins, List.head?_append_of_ne_nil _ some] at outermost

/-- A fixture as it is loaded. -/
def fixtureType (h : TypeHandle) (name : String) : LoadedType := (plan h name).loaded (superName h)

theorem bytes_fixtureType : (fixtureType h name).bytes = (fixture h name).encode :=
  congrArg ClassFile.encode (Synthesizer.classFile_plan h name)

/-- The world in which a fixture was loaded in a scope of its own. -/
def withFixture (w : World) (h : TypeHandle) (name : String) : World :=
  (w.addIsolated h.scope).2.grow w.next (fixtureType h name).type [fixtureType h name]

section Fixture

variable {root : ScopeId} (nested : w.Nested)
  (object : w.resolve? h.scope objectName = some ⟨.object, root⟩)
  (found : w.resolve? h.scope h.type.name = some h)
  (short : (Constant.utf8 name).Fits) (shortSuper : (Constant.utf8 h.type.name).Fits)

include object found in
/-- What a fixture extends is a class that the scope of its super type sees. -/
theorem superName_found :
    ∃ above, w.resolve? h.scope (superName h) = some above ∧ above.type.isInterface = false ∧
      above.type.hasDefaultConstructor = (h.type.isInterface || h.type.hasDefaultConstructor) := by
  cases kind : h.type.isInterface with
  | true =>
    refine ⟨⟨.object, root⟩, ?_, rfl, rfl⟩
    rw [superName, kind]
    exact object
  | false =>
    refine ⟨h, ?_, kind, rfl⟩
    rw [superName, kind]
    exact found

include nested object found in
theorem sees_fixture :
    (w.addIsolated h.scope).2.Sees w.next (plan h name) (superName h) := by
  have inner := nested.resolve?_addIsolated (has_of_resolve? found)
  obtain ⟨above, sees, isClass, -⟩ := superName_found object found
  refine ⟨⟨above, (inner _).trans sees, isClass⟩, fun n listed => ?_⟩
  unfold plan at listed
  cases kind : h.type.isInterface with
  | true =>
    obtain rfl : n = h.type.name := by simpa [kind] using listed
    exact ⟨h, (inner _).trans found, kind⟩
  | false => simp [kind] at listed

include nested object found short shortSuper

theorem define_fixture (fresh : w.resolve? h.scope name = none) :
    (w.addIsolated h.scope).2.define w.next (fixture h name).encode =
      .ok (fixtureType h name, w.withFixture h name) := by
  rw [← bytes_fixtureType]
  exact (sees_fixture nested object found).define (Synthesizer.valid_plan h name)
    (Synthesizer.fits_plan short shortSuper) (loads_of_nil loadedOf_addIsolated) has_addIsolated
    ((nested.resolve?_addIsolated (has_of_resolve? found) name).trans fresh)

omit object in
theorem define_fixture_duplicate (visible : (w.resolve? h.scope name).isSome) :
    (w.addIsolated h.scope).2.define w.next (fixture h name).encode =
      .error (.duplicateDefinition name) := by
  have faithful := ClassPlan.faithful (Synthesizer.valid_plan h name)
    (Synthesizer.fits_plan short shortSuper)
  rw [← bytes_fixtureType]
  refine define_visible faithful.decoded faithful.verified faithful.named ?_
  rwa [nested.resolve?_addIsolated (has_of_resolve? found)]

/-- The constructor of a fixture asks its super class for a constructor, and stores nothing. -/
theorem instantiate_fixture (fresh : w.resolve? h.scope name = none) :
    (w.withFixture h name).instantiate w.next name =
      if h.type.isInterface || h.type.hasDefaultConstructor then
        .ok ⟨w.next, fixtureType h name, []⟩
      else .error (.constructor name (.noDefaultConstructor h.type.name)) := by
  have inner := nested.resolve?_addIsolated (has_of_resolve? found)
  have unseen := (inner name).trans fresh
  obtain ⟨above, sees, isClass, constructor⟩ := superName_found object found
  have fits := Synthesizer.fits_plan short shortSuper
  have loaded : (w.withFixture h name).loaded? w.next name = some (fixtureType h name) := by
    rw [withFixture, loaded?_grow has_addIsolated,
      (loads_of_nil loadedOf_addIsolated).loaded?_eq_none has_addIsolated unseen, Option.none_or]
    exact if_pos rfl
  have other : name ≠ superName h := by
    rintro rfl
    rw [fresh] at sees
    cases sees
  have unloaded : (w.withFixture h name).loaded? w.next (superName h) = none := by
    rw [withFixture, loaded?_grow has_addIsolated, loaded?_eq_find?, loadedOf_addIsolated]
    exact if_neg other
  have there : (w.withFixture h name).resolve? w.next (superName h) = some above :=
    (nested.step (step_addIsolated (has_of_resolve? found))).resolve?_grow has_addIsolated unseen
      ((inner _).trans sees)
  rw [instantiate_eq loaded (ClassPlan.instantiable fits (Synthesizer.concrete_plan h name)),
    construct_eq, fixtureType, runChain_loaded (Synthesizer.valid_plan h name) fits,
    callSuper_host unloaded there, constructor]
  cases kind : h.type.isInterface with
  | true => rfl
  | false =>
    rw [superName, kind]
    cases h.type.hasDefaultConstructor <;> rfl

/-- An instance of a fixture stands where its super type is expected. -/
theorem isInstanceOf_fixture (layered : w.Layered) (fresh : w.resolve? h.scope name = none)
    (fields : Fields) :
    (w.withFixture h name).isInstanceOf ⟨w.next, fixtureType h name, fields⟩ h.type.name =
      true := by
  have step := step_addIsolated (has_of_resolve? found)
  have unseen := (nested.resolve?_addIsolated (has_of_resolve? found) name).trans fresh
  have valid := Synthesizer.valid_plan h name
  have fits := Synthesizer.fits_plan short shortSuper
  have accepts := (sees_fixture nested object found).accepts valid fits unseen
  have layered' : (w.withFixture h name).Layered :=
    (layered.step nested step).grow (nested.step step) has_addIsolated accepts
  have here : (w.withFixture h name).resolve? w.next name =
      some ⟨(fixtureType h name).type, w.next⟩ :=
    (nested.step step).resolve?_grow_self has_addIsolated unseen
  have parent : h.type.name ∈ (fixtureType h name).type.parents := by
    refine (ClassPlan.mem_parents_loaded valid fits).mpr ?_
    cases kind : h.type.isInterface with
    | true => exact .inr (by simp [plan, kind])
    | false => exact .inl (by simp [superName, kind])
  exact layered'.isAssignable_of_path (Option.isSome_of_eq_some here) (.single ⟨_, here, parent⟩)

theorem load_fixture (layered : w.Layered) (fresh : w.resolve? h.scope name = none) :
    w.load h (fixture h name).encode =
      if h.type.isInterface || h.type.hasDefaultConstructor then
        .ok (⟨w.next, fixtureType h name, []⟩, w.withFixture h name)
      else .error (.constructor name (.noDefaultConstructor h.type.name)) := by
  unfold load
  show ((w.addIsolated h.scope).2.define w.next _ >>= fun _ => _) = _
  rw [define_fixture nested object found short shortSuper fresh]
  show ((w.withFixture h name).instantiate w.next name >>= fun _ => _) = _
  rw [instantiate_fixture nested object found short shortSuper fresh]
  split
  · show (if (!(w.withFixture h name).isInstanceOf _ h.type.name) = true then _ else _) = _
    rw [isInstanceOf_fixture nested object found short shortSuper layered fresh]
    rfl
  · rfl

omit object in
theorem load_fixture_duplicate (visible : (w.resolve? h.scope name).isSome) :
    w.load h (fixture h name).encode = .error (.duplicateDefinition name) := by
  unfold load
  show ((w.addIsolated h.scope).2.define w.next _ >>= fun _ => _) = _
  rw [define_fixture_duplicate nested found short shortSuper visible]
  rfl

end Fixture

/-- After every history in which the outermost scopes begin with the class above all others, for
every type that a name stands for and every name of a fixture below it, within the limits of the
format: the fixture is refused as a duplicate if its name is visible from the scope of the type;
otherwise its constructor fails if the type is a class without a constructor; and otherwise there is
an instance of it, without fields, that can stand where the type is expected.  A request to any
maker whose next name this is has that answer.  However it ends, all scopes that there were stay as
they are. -/
theorem creation_is_total (operations : List Operation) (id : ScopeId) (n : String)
    (h : TypeHandle) (name : String) (rooted : Bootstrapped operations id)
    (found : (after operations).resolve? id n = some h)
    (short : (ModifiedUtf8.encode name).length ≤ 65535)
    (shortSuper : (ModifiedUtf8.encode h.type.name).length ≤ 65535) :
    let w := after operations
    let bytes := (fixture h name).encode
    (∀ (s : Synthesizer) (site : CallSite), (Synthesizer.fixtureName site s).1 = name →
      (w.create h site (pure ()) s).1.2 = w.load h bytes) ∧
    w.load h bytes = (w.attempt h bytes).1.map (·, (w.attempt h bytes).2) ∧
    ((w.resolve? h.scope name).isSome → w.load h bytes = .error (.duplicateDefinition name)) ∧
    (w.resolve? h.scope name = none →
      h.type.isInterface = false ∧ h.type.hasDefaultConstructor = false →
      w.load h bytes = .error (.constructor name (.noDefaultConstructor h.type.name))) ∧
    (w.resolve? h.scope name = none →
      h.type.isInterface = true ∨ h.type.hasDefaultConstructor = true →
      ∃ i w', w.load h bytes = .ok (i, w') ∧ i.type.name = name ∧ i.fields = [] ∧
        w'.isInstanceOf i h.type.name = true) ∧
    ∀ other, w.has other = true → (w.attempt h bytes).2.scope? other = w.scope? other := by
  intro w bytes
  have nested : w.Nested := nested_after operations
  have layered : w.Layered := layered_after operations
  obtain ⟨member, -⟩ := nested.resolve?_eq_some.mp found
  obtain ⟨root, object⟩ := (rooted.around member).resolve?_object
  obtain ⟨-, -, -, rfl, -⟩ := layered.visible_split found
  have own := nested.resolve?_own found
  refine ⟨fun s site asked => ?_, load_eq_attempt w h bytes,
    load_fixture_duplicate nested own short shortSuper, fun fresh ⟨isClass, lacks⟩ => ?_,
    fun fresh possible => ?_, fun other => attempt_keeps h bytes⟩
  · subst asked
    rfl
  · rw [load_fixture nested object own short shortSuper layered fresh, isClass, lacks]
    rfl
  · refine ⟨_, _, ?_, rfl, rfl,
      isInstanceOf_fixture nested object own short shortSuper layered fresh []⟩
    rw [load_fixture nested object own short shortSuper layered fresh, if_pos]
    simpa using possible

theorem creation_is_total_below_class :
    let base := TypeDef.extending "app/Base" objectName
    let operations := [.bootstrap, .child ⟨0⟩ "inner", .register ⟨1⟩ base]
    let w := after operations
    let maker : Synthesizer := { owner := "app/Main" }
    Bootstrapped operations ⟨1⟩ ∧ w.resolve? ⟨1⟩ "app/Base" = some ⟨base, ⟨1⟩⟩ ∧
      ∃ i w', (w.create ⟨base, ⟨1⟩⟩ ⟨"run", 7⟩ (pure ()) maker).1.2 = .ok (i, w') ∧
        i.type.name = "app/Main$ExperimentRun7" ∧ i.fields = [] ∧
        w'.isInstanceOf i "app/Base" = true := by
  intro base operations w maker
  have rooted : Bootstrapped operations ⟨1⟩ :=
    ⟨[], [.child ⟨0⟩ "inner", .register ⟨1⟩ base], rfl, by decide +kernel⟩
  have found : w.resolve? ⟨1⟩ "app/Base" = some ⟨base, ⟨1⟩⟩ := by decide +kernel
  have named : (Synthesizer.fixtureName ⟨"run", 7⟩ maker).1 = "app/Main$ExperimentRun7" := by
    decide +kernel
  obtain ⟨asked, -, -, -, created, -⟩ := creation_is_total operations ⟨1⟩ "app/Base" ⟨base, ⟨1⟩⟩
    "app/Main$ExperimentRun7" rooted found (by decide +kernel) (by decide +kernel)
  obtain ⟨i, w', loaded, rest⟩ := created (by decide +kernel) (.inr rfl)
  exact ⟨rooted, found, i, w', (asked maker _ named).trans loaded, rest⟩

end ClassBench.World
