import ClassBench.Proofs.World.Defining

/-! Defining a class file is exact and atomic.  A definition is told here once more as it is made,
each change to the world in its place: it looks at the world five times before it changes anything,
and after the first change nothing can fail.  So a definition that is refused leaves the world as it
was, and one that is not has put one type into the scope and into its table of loaded types.  The
two tables stay in step over whole histories, also when types are registered in the scope by other
means. -/

namespace ClassBench.World

variable {w w' : World} {id other : ScopeId} {bytes : Bytes} {c : ClassFile} {n : String}
  {ε α β : Type}

/-! ### Definitions as they are made -/

/-- A step on a world that may fail, and then leaves what it has done by then. -/
abbrev Working (ε : Type) := ExceptT ε (StateM World)

/-- Looks at the world. -/
def reading (look : World → Except ε α) : Working ε α := fun w => (look w, w)

/-- Changes the world. -/
def writing (change : World → World) : Working ε Unit := fun w => (.ok (), change w)

/-- Takes a type into a scope. -/
def registering (id : ScopeId) (d : TypeDef) : Working ScopeError TypeHandle := do
  reading fun w => if (w.resolve? id d.name).isSome then throw (.duplicateType d.name) else pure ()
  reading fun w => w.checkSuper id d
  reading fun w => w.checkInterfaces id d
  writing fun w => w.modifyScope id fun s => { s with types := s.types ++ [d] }
  return ⟨d, id⟩

/-- Takes a class file into a scope: first its type, and then the loaded type. -/
def defining (id : ScopeId) (bytes : Bytes) : Working LoadError LoadedType := do
  let c ← reading fun _ => (ClassFile.decode bytes).mapError .decode
  reading fun _ => c.verify.mapError .verify
  match c.name? with
  | none => throw (.verify (.invalidConstantRef c.thisClass .classRef))
  | some name =>
    reading fun w =>
      if (w.loaded? id name).isSome then throw (.duplicateDefinition name) else pure ()
    let handle ← (registering id (TypeDef.ofClassFile name c)).adapt LoadError.ofScope
    let t : LoadedType := { type := handle.type, classFile := c, bytes }
    writing fun w => w.modifyScope id fun s => { s with loaded := s.loaded ++ [t] }
    return t

/-- What a step answers in a world, and the world that it leaves. -/
def outcome (w : World) (answer : Except ε (α × World)) : Except ε α × World :=
  match answer with
  | .ok (a, w') => (.ok a, w')
  | .error e => (.error e, w)

theorem outcome_eq_ok {answer : Except ε (α × World)} {a : α} :
    outcome w answer = (.ok a, w') ↔ answer = .ok (a, w') := by
  cases answer <;> simp [outcome, Prod.ext_iff]

theorem outcome_eq_error {answer : Except ε (α × World)} {e : ε} :
    outcome w answer = (.error e, w') ↔ answer = .error e ∧ w' = w := by
  cases answer <;> simp [outcome, eq_comm]

theorem run_reading_bind (look : World → Except ε α) (next : α → Working ε β) (w : World) :
    (reading look >>= next).run w =
      match look w with
      | .ok a => (next a).run w
      | .error e => (.error e, w) := by
  show ExceptT.bindCont next (look w) w = _
  cases look w <;> rfl

theorem run_adapt_bind {ε' : Type} (step : Working ε α) (f : ε → ε') (next : α → Working ε' β)
    (w : World) :
    (step.adapt f >>= next).run w =
      match step.run w with
      | (.ok a, w') => (next a).run w'
      | (.error e, w') => (.error (f e), w') := by
  show ExceptT.bindCont next ((step w).1.mapError f) (step w).2 = _
  show _ = match step w with | (.ok a, w') => _ | (.error e, w') => _
  rcases step w with ⟨_ | _, w'⟩ <;> rfl

theorem run_registering (d : TypeDef) :
    (registering id d).run w = outcome w (w.register id d) := by
  rw [registering, run_reading_bind, register]
  cases (w.resolve? id d.name).isSome with
  | true => rfl
  | false =>
    simp only [Bool.false_eq_true, if_false]
    show ExceptT.run (reading _ >>= _) w = outcome w (w.checkSuper id d >>= _)
    rw [run_reading_bind]
    cases w.checkSuper id d with
    | error e => rfl
    | ok _ =>
      show ExceptT.run (reading _ >>= _) w = outcome w (w.checkInterfaces id d >>= _)
      rw [run_reading_bind]
      cases w.checkInterfaces id d <;> rfl

/-- What is made step by step is what the definition says at once, so that a definition that fails
has changed nothing. -/
theorem run_defining (w : World) (id : ScopeId) (bytes : Bytes) :
    (defining id bytes).run w = outcome w (w.define id bytes) := by
  rw [defining, run_reading_bind, define]
  cases (ClassFile.decode bytes).mapError LoadError.decode with
  | error e => rfl
  | ok c =>
    show ExceptT.run (reading _ >>= _) w = outcome w (c.verify.mapError LoadError.verify >>= _)
    rw [run_reading_bind]
    cases c.verify.mapError LoadError.verify with
    | error e => rfl
    | ok _ =>
      cases c.name? with
      | none => rfl
      | some name =>
        show ExceptT.run (reading _ >>= _) w = _
        rw [run_reading_bind]
        show _ = outcome w (if (w.loaded? id name).isSome = true then _ else _)
        cases (w.loaded? id name).isSome with
        | true => rfl
        | false =>
          show ExceptT.run ((registering id _).adapt LoadError.ofScope >>= _) w =
            outcome w ((w.register id _).mapError LoadError.ofScope >>= _)
          rw [run_adapt_bind, run_registering]
          cases w.register id (TypeDef.ofClassFile name c) <;> rfl

/-! ### What can be defined -/

/-- The bytes are a sound class of this name, the scope does not see the name, and it sees what the
class builds on: the super class, unless the class is an interface or has none, and the
interfaces. -/
structure Definable (w : World) (id : ScopeId) (bytes : Bytes) (c : ClassFile) (n : String) :
    Prop where
  decoded : ClassFile.decode bytes = .ok c
  verified : c.verify = .ok ()
  named : c.name? = some n
  fresh : w.resolve? id n = none
  superClass : c.isInterface = false → ∀ m, c.superName? = some m →
    ∃ h, w.resolve? id m = some h ∧ h.type.isInterface = false
  interfaces : ∀ m ∈ c.interfaceNames, ∃ h, w.resolve? id m = some h ∧ h.type.isInterface = true

/-- A sound class without a super class is the one above all others. -/
theorem name_eq_object (verified : c.verify = .ok ()) (named : c.name? = some n)
    (noSuper : c.superName? = none) : n = objectName := by
  obtain ⟨-, name, this, super, -⟩ := ClassFile.verify_eq_ok.mp verified
  rcases (ClassFile.verifySuper_eq_ok this).mp super with ⟨above, names⟩ | ⟨-, object⟩
  · rw [ClassFile.superName?, Pool.className?_eq_some.mpr names] at noSuper
    cases noSuper
  · exact (Pool.className?_eq_some.mp named).eq object

theorem Definable.accepts (definable : w.Definable id bytes c n) :
    w.Accepts id (TypeDef.ofClassFile n c) where
  fresh := definable.fresh
  superClass m above := by
    cases kind : c.isInterface with
    | true => simp [TypeDef.ofClassFile, kind] at above
    | false => exact definable.superClass kind m (by simpa [TypeDef.ofClassFile, kind] using above)
  interfaces := definable.interfaces
  rooted noSuper isClass := by
    cases kind : c.isInterface with
    | true => simp [TypeDef.ofClassFile, kind] at isClass
    | false =>
      exact name_eq_object definable.verified definable.named
        (by simpa [TypeDef.ofClassFile, kind] using noSuper)

theorem definable_of_accepts {t : LoadedType} (faithful : t.Faithful)
    (accepts : w.Accepts id t.type) : w.Definable id t.bytes t.classFile t.name where
  decoded := faithful.decoded
  verified := faithful.verified
  named := faithful.named
  fresh := accepts.fresh
  superClass isClass m above := by
    refine accepts.superClass m ?_
    rw [faithful.type_eq]
    simp [TypeDef.ofClassFile, isClass, above]
  interfaces := by
    have listed : t.type.interfaces = t.classFile.interfaceNames :=
      congrArg TypeDef.interfaces faithful.type_eq
    exact listed ▸ accepts.interfaces

theorem Definable.define (definable : w.Definable id bytes c n) (loads : w.Loads id)
    (present : w.has id = true) : ∃ t : LoadedType, t.name = n ∧ t.classFile = c ∧
      w.define id bytes = .ok (t, w.grow id t.type [t]) := by
  refine ⟨⟨TypeDef.ofClassFile n c, c, bytes⟩, rfl, rfl, define_eq_ok.mpr ⟨rfl, ?_, ?_,
    definable.accepts, rfl⟩⟩
  · exact ⟨definable.decoded, definable.verified, definable.named, rfl⟩
  · exact loads.loaded?_eq_none present definable.fresh

/-! ### What a definition leaves -/

/-- A scope has taken the type of a class file: the type is the last of those that it defines and
of those that it holds, and no other scope has changed. -/
structure Gained (w : World) (id : ScopeId) (t : LoadedType) (w' : World) : Prop where
  types : w'.typesOf id = w.typesOf id ++ [t.type]
  loaded : w'.loadedOf id = w.loadedOf id ++ [t]
  others : ∀ other, other ≠ id → w'.scope? other = w.scope? other

theorem gained_grow (present : w.has id = true) (t : LoadedType) :
    w.Gained id t (w.grow id t.type [t]) where
  types := by rw [typesOf_grow _ present, if_pos rfl]
  loaded := by rw [loadedOf_grow _ present, if_pos rfl]
  others other away := by rw [World.grow, scope?_modifyScope, if_neg (Ne.symm away)]

theorem Loads.definable_iff (loads : w.Loads id) (present : w.has id = true) :
    (∃ t w', w.define id bytes = .ok (t, w')) ↔ ∃ c n, w.Definable id bytes c n := by
  constructor
  · rintro ⟨t, w', made⟩
    obtain ⟨rfl, faithful, -, accepts, -⟩ := define_eq_ok.mp made
    exact ⟨t.classFile, t.name, definable_of_accepts faithful accepts⟩
  · rintro ⟨c, n, definable⟩
    obtain ⟨t, -, -, made⟩ := definable.define loads present
    exact ⟨t, _, made⟩

/-- What a scope holds by a name is a type of its own of that name, and is what its bytes say. -/
structure Retains (w : World) (id : ScopeId) (n : String) (t : LoadedType) : Prop where
  decoded : ClassFile.decode t.bytes = .ok t.classFile
  verified : t.classFile.verify = .ok ()
  named : t.classFile.name? = some n
  here : w.local? id n = some t.type

theorem Loads.retains {t : LoadedType} (loads : w.Loads id) (held : w.loaded? id n = some t) :
    w.Retains id n t := by
  obtain ⟨member, rfl⟩ := loaded?_eq_some held
  have holds := loads.holds t member
  exact ⟨holds.faithful.decoded, holds.faithful.verified, holds.faithful.named, holds.defined⟩

/-- A scope sees the names of its own types ever after. -/
theorem resolve?_performAll_isSome {d : TypeDef} (present : w.has id = true)
    (here : w.local? id n = some d) (later : List Operation) :
    ((w.performAll later).resolve? id n).isSome := by
  have grown := extends_performAll w later
  have there : (w.performAll later).has id = true := grown.has id present
  exact resolve?_isSome.mpr
    ⟨id, mem_lineage_self there, defines_of_eq_some (grown.local?_eq_some present here)⟩

/-- After every history, for every isolated scope and all bytes: a definition succeeds exactly if
the bytes are a sound class whose name the scope does not see and the scope sees what the class
builds on.  Then one type is added to the scope and to what it has loaded, with these bytes, and
otherwise the world is as it was, also where the definition is made change by change.  So what a
scope has loaded by a name decodes to a sound class of that name, which is a name of its own, and
from then on every definition of a sound class of that name is refused as a duplicate. -/
theorem definition_is_exact_and_atomic (operations : List Operation) (id : ScopeId) (bytes : Bytes)
    (context : (after operations).isContext id = true) :
    let w := after operations
    ((∃ t w', w.define id bytes = .ok (t, w')) ↔ ∃ c n, w.Definable id bytes c n) ∧
    (∀ t w', w.define id bytes = .ok (t, w') → t.bytes = bytes ∧ w.Gained id t w') ∧
    (∀ t w', (defining id bytes).run w = (.ok t, w') ↔ w.define id bytes = .ok (t, w')) ∧
    (∀ e w', (defining id bytes).run w = (.error e, w') ↔ w.define id bytes = .error e ∧ w' = w) ∧
    ∀ n t, w.loaded? id n = some t →
      w.Retains id n t ∧
      ∀ (later : List Operation) (again : Bytes) (c : ClassFile),
        ClassFile.decode again = .ok c → c.verify = .ok () → c.name? = some n →
        (w.performAll later).define id again = .error (.duplicateDefinition n) := by
  intro w
  have present : w.has id = true := has_of_isContext context
  have loads : w.Loads id := loads_after operations id
  refine ⟨loads.definable_iff present, fun t w' made => ?_, fun t w' => ?_, fun e w' => ?_,
    fun n t held => ?_⟩
  · obtain ⟨same, -, -, -, rfl⟩ := define_eq_ok.mp made
    exact ⟨same, gained_grow present t⟩
  · rw [run_defining]
    exact outcome_eq_ok
  · rw [run_defining]
    exact outcome_eq_error
  · have retains := loads.retains held
    refine ⟨retains, fun later again c decoded verified named => ?_⟩
    exact define_visible decoded verified named
      (resolve?_performAll_isSome present retains.here later)

/-- A class is defined below one that the isolated scope has loaded, and the loaded one is refused
when its bytes come again. -/
theorem definition_is_exact_and_atomic_again :
    let operations := [.bootstrap, .register ⟨0⟩ (.extending "S" objectName), .isolated ⟨0⟩,
      .define ⟨1⟩ (chainClass "T" "S" 0x0021)]
    let w := after operations
    let bytes := chainClass "U" "T" 0x0021
    w.isContext ⟨1⟩ = true ∧ (∃ c n, w.Definable ⟨1⟩ bytes c n) ∧
      (∃ u w', (defining ⟨1⟩ bytes).run w = (.ok u, w') ∧ u.bytes = bytes ∧ w.Gained ⟨1⟩ u w') ∧
      ∃ t, w.loaded? ⟨1⟩ "T" = some t ∧ w.Retains ⟨1⟩ "T" t ∧
        (defining ⟨1⟩ t.bytes).run w = (.error (.duplicateDefinition "T"), w) := by
  intro operations w bytes
  have context : w.isContext ⟨1⟩ = true := by decide +kernel
  obtain ⟨t, held⟩ : ∃ t, w.loaded? ⟨1⟩ "T" = some t :=
    Option.isSome_iff_exists.mp (by decide +kernel)
  have isOk : (w.define ⟨1⟩ bytes).isOk = true := by decide +kernel
  cases made : w.define ⟨1⟩ bytes with
  | error e =>
    rw [made] at isOk
    cases isOk
  | ok answer =>
    obtain ⟨exact', takes, succeeds, -, keeps⟩ :=
      definition_is_exact_and_atomic operations ⟨1⟩ bytes context
    obtain ⟨-, -, -, fails, -⟩ := definition_is_exact_and_atomic operations ⟨1⟩ t.bytes context
    obtain ⟨retains, again⟩ := keeps "T" t held
    have refused :=
      again [] t.bytes t.classFile retains.decoded retains.verified retains.named
    rw [performAll, List.foldl_nil] at refused
    exact ⟨context, exact'.mp ⟨_, _, made⟩, ⟨_, _, (succeeds _ _).mpr made, takes _ _ made⟩,
      t, held, retains, (fails _ _).mpr ⟨refused, rfl⟩⟩

end ClassBench.World
