import ClassBench.Proofs.Except
import ClassBench.World.History

/-! What an operation does to a world.  Every operation is one of three steps: nothing changes, a
scope is added below an existing one, or a scope grows by one type, together with the loaded type
when the type comes from a class file.  `Step` says all that a step can do, with the conditions
under which it is taken, so that what every history keeps follows from three cases. -/

namespace ClassBench

/-- A loaded type is what its bytes say: they decode to a sound class, and its definition is the
one of that class. -/
structure LoadedType.Faithful (t : LoadedType) : Prop where
  decoded : ClassFile.decode t.bytes = .ok t.classFile
  verified : t.classFile.verify = .ok ()
  named : t.classFile.name? = some t.name
  type_eq : t.type = TypeDef.ofClassFile t.name t.classFile

namespace World

variable {w w' : World} {id other : ScopeId} {d : TypeDef} {name : String}

/-- The types that a scope itself defines. -/
def typesOf (w : World) (id : ScopeId) : List TypeDef := ((w.scope? id).map Scope.types).getD []

/-- The types that a scope holds from class files. -/
def loadedOf (w : World) (id : ScopeId) : List LoadedType :=
  ((w.scope? id).map Scope.loaded).getD []

/-- The scopes around a scope, the outermost first. -/
def ancestors (w : World) (id : ScopeId) : List ScopeId :=
  ((w.scope? id).map Scope.ancestors).getD []

theorem has_iff : w.has id = true ↔ id.index < w.scopes.size := by
  simp [has, scope?]

theorem has_empty : empty.has id = false := rfl

theorem lineage_eq (present : w.has id = true) : w.lineage id = w.ancestors id ++ [id] := by
  obtain ⟨s, hs⟩ := Option.isSome_iff_exists.mp present
  simp [lineage, ancestors, hs]

theorem lineage_absent (absent : w.has id = false) : w.lineage id = [] := by
  simp [lineage, Option.isNone_iff_eq_none.mp (by simpa [has] using absent)]

theorem local?_eq_find? : w.local? id name = (w.typesOf id).find? (·.name == name) := by
  cases h : w.scope? id <;> simp [local?, typesOf, h]

theorem loaded?_eq_find? : w.loaded? id name = (w.loadedOf id).find? (·.name == name) := by
  cases h : w.scope? id <;> simp [loaded?, loadedOf, h]

theorem visible_eq_flatMap : w.visible id = (w.lineage id).flatMap w.typesOf := rfl

/-! ### Adding a scope -/

theorem scope?_add (s : Scope) :
    (w.add s).2.scope? other = if other.index = w.scopes.size then some s else w.scope? other := by
  simp [add, scope?, Array.getElem?_push]

theorem scope?_add_of_has (s : Scope) (present : w.has other = true) :
    (w.add s).2.scope? other = w.scope? other := by
  rw [scope?_add, if_neg (Nat.ne_of_lt (has_iff.mp present))]

/-! ### Growing a scope -/

/-- A scope defines one more type, and holds what was loaded with it. -/
def grow (w : World) (id : ScopeId) (d : TypeDef) (more : List LoadedType) : World :=
  w.modifyScope id fun s => { s with types := s.types ++ [d], loaded := s.loaded ++ more }

theorem scope?_modifyScope (change : Scope → Scope) :
    (w.modifyScope id change).scope? other =
      if id = other then (w.scope? other).map change else w.scope? other := by
  obtain ⟨i⟩ := id
  obtain ⟨j⟩ := other
  simp [modifyScope, scope?, Array.getElem?_modify]

theorem modifyScope_modifyScope (first second : Scope → Scope) :
    (w.modifyScope id first).modifyScope id second = w.modifyScope id (second ∘ first) := by
  have same : (w.scopes.modify id.index first).modify id.index second =
      w.scopes.modify id.index (second ∘ first) := by
    apply Array.ext_getElem?
    intro i
    by_cases h : id.index = i <;> simp [Array.getElem?_modify, h]
  simp [modifyScope, same]

variable (more : List LoadedType)

@[simp] theorem has_grow : (w.grow id d more).has other = w.has other := by
  rw [has, grow, scope?_modifyScope, has]
  split <;> simp

@[simp] theorem ancestors_grow : (w.grow id d more).ancestors other = w.ancestors other := by
  rw [ancestors, grow, scope?_modifyScope, ancestors]
  split
  · cases w.scope? other <;> rfl
  · rfl

@[simp] theorem lineage_grow : (w.grow id d more).lineage other = w.lineage other := by
  cases h : w.has other
  · rw [lineage_absent h, lineage_absent (by simpa using h)]
  · rw [lineage_eq h, lineage_eq (by simpa using h), ancestors_grow]

theorem typesOf_grow (present : w.has id = true) :
    (w.grow id d more).typesOf other = w.typesOf other ++ if id = other then [d] else [] := by
  obtain ⟨s, hs⟩ := Option.isSome_iff_exists.mp present
  rw [typesOf, grow, scope?_modifyScope, typesOf]
  split
  · next h =>
    subst h
    simp [hs]
  · simp

theorem loadedOf_grow (present : w.has id = true) :
    (w.grow id d more).loadedOf other = w.loadedOf other ++ if id = other then more else [] := by
  obtain ⟨s, hs⟩ := Option.isSome_iff_exists.mp present
  rw [loadedOf, grow, scope?_modifyScope, loadedOf]
  split
  · next h =>
    subst h
    simp [hs]
  · simp

/-! ### Registering and defining -/

/-- A scope takes a definition: the name is new to it, and what the definition builds on is visible
and of the right kind. -/
structure Accepts (w : World) (id : ScopeId) (d : TypeDef) : Prop where
  fresh : w.resolve? id d.name = none
  superClass : ∀ n, d.superName = some n →
    ∃ h, w.resolve? id n = some h ∧ h.type.isInterface = false
  interfaces : ∀ n ∈ d.interfaces, ∃ h, w.resolve? id n = some h ∧ h.type.isInterface = true
  rooted : d.superName = none → d.kind = .classKind → d.name = objectName

theorem require_eq_ok {referencedBy : String} {h : TypeHandle} :
    w.require id name referencedBy = .ok h ↔ w.resolve? id name = some h := by
  unfold require
  split <;> simp_all

theorem checkSuper_eq_ok : w.checkSuper id d = .ok () ↔
    (∀ n, d.superName = some n → ∃ h, w.resolve? id n = some h ∧ h.type.isInterface = false) ∧
      (d.superName = none → d.kind = .classKind → d.name = objectName) := by
  unfold checkSuper
  cases hs : d.superName with
  | none => simp [Except.guard_eq_ok]
  | some n => simp [Except.bind_eq_ok, require_eq_ok, Except.guard_eq_ok]

theorem checkInterfaces_eq_ok : w.checkInterfaces id d = .ok () ↔
    ∀ n ∈ d.interfaces, ∃ h, w.resolve? id n = some h ∧ h.type.isInterface = true := by
  unfold checkInterfaces
  rw [Except.forM_eq_ok]
  simp [Except.bind_eq_ok, require_eq_ok, Except.guard_eq_ok]

/-- Registering succeeds exactly if the scope accepts the definition, and then it grows by it. -/
theorem register_eq_ok {h : TypeHandle} :
    w.register id d = .ok (h, w') ↔ w.Accepts id d ∧ h = ⟨d, id⟩ ∧ w' = w.grow id d [] := by
  have same : w.grow id d [] = w.modifyScope id fun s => { s with types := s.types ++ [d] } := by
    simp [grow]
  unfold register
  rw [Except.guard_bind_eq_ok]
  simp only [Except.bind_eq_ok, Except.pure_eq_ok, Prod.mk.injEq]
  constructor
  · rintro ⟨fresh, _, super, _, interfaces, rfl, rfl⟩
    rw [checkSuper_eq_ok] at super
    rw [checkInterfaces_eq_ok] at interfaces
    exact ⟨⟨by simpa using fresh, super.1, interfaces, super.2⟩, rfl, same.symm⟩
  · rintro ⟨accepts, rfl, rfl⟩
    refine ⟨by simp [accepts.fresh], (), ?_, (), ?_, rfl, same.symm⟩
    · exact checkSuper_eq_ok.mpr ⟨accepts.superClass, accepts.rooted⟩
    · exact checkInterfaces_eq_ok.mpr accepts.interfaces

/-- Growing by a type and then by what was loaded with it. -/
theorem withLoaded_grow (t : LoadedType) :
    (w.grow id d []).modifyScope id (fun s => { s with loaded := s.loaded ++ [t] }) =
      w.grow id d [t] := by
  rw [grow, modifyScope_modifyScope, grow]
  simp [Function.comp_def]

/-- Defining succeeds exactly if the bytes decode to a sound class and the scope accepts its type,
and then the scope grows by it. -/
theorem define_eq_ok {bytes : Bytes} {t : LoadedType} :
    w.define id bytes = .ok (t, w') ↔
      t.bytes = bytes ∧ t.Faithful ∧ w.loaded? id t.name = none ∧ w.Accepts id t.type ∧
        w' = w.grow id t.type [t] := by
  unfold define
  simp only [Except.bind_eq_ok, Except.mapError_eq_ok]
  constructor
  · rintro ⟨c, decoded, _, verified, run⟩
    split at run
    · exact absurd run Except.throw_ne_ok
    · next name named =>
      rw [Except.guard_bind_eq_ok] at run
      obtain ⟨fresh, run⟩ := run
      simp only [Except.bind_eq_ok, Except.mapError_eq_ok, Except.pure_eq_ok] at run
      obtain ⟨⟨h, grown⟩, registered, same⟩ := run
      obtain ⟨accepts, rfl, rfl⟩ := register_eq_ok.mp registered
      obtain ⟨rfl, rfl⟩ := Prod.mk.inj same
      have absent : w.loaded? id name = none := Option.not_isSome_iff_eq_none.mp fresh
      refine ⟨rfl, ⟨decoded, verified, named, rfl⟩, absent, accepts, ?_⟩
      exact withLoaded_grow _
  · rintro ⟨rfl, faithful, fresh, accepts, rfl⟩
    refine ⟨t.classFile, faithful.decoded, (), faithful.verified, ?_⟩
    have registered : w.register id (TypeDef.ofClassFile t.name t.classFile) =
        .ok (⟨t.type, id⟩, w.grow id t.type []) := by
      rw [← faithful.type_eq]
      exact register_eq_ok.mpr ⟨accepts, rfl, rfl⟩
    simp only [faithful.named, registered, fresh]
    rw [← withLoaded_grow]
    rfl

/-! ### Steps and histories -/

/-- What an operation can do to a world, and under which conditions. -/
inductive Step (w : World) : World → Prop
  | none : Step w w
  /-- A scope without parent begins empty or with the class above all others. -/
  | root (s : Scope) (top : s.ancestors = []) (types : ∀ d ∈ s.types, s.types = [d] ∧ d = .object)
      (loaded : s.loaded = []) : Step w (w.add s).2
  /-- A scope within another begins empty. -/
  | child (s : Scope) (parent : ScopeId) (present : w.has parent = true)
      (below : s.ancestors = w.lineage parent) (types : s.types = []) (loaded : s.loaded = []) :
      Step w (w.add s).2
  | register (id : ScopeId) (d : TypeDef) (present : w.has id = true) (accepts : w.Accepts id d) :
      Step w (w.grow id d [])
  | define (id : ScopeId) (t : LoadedType) (present : w.has id = true)
      (accepts : w.Accepts id t.type) (faithful : t.Faithful) : Step w (w.grow id t.type [t])

theorem has_of_isContext (context : w.isContext id = true) : w.has id = true := by
  unfold isContext at context
  unfold has
  cases h : w.scope? id <;> simp_all

theorem step_perform (operation : Operation) : Step w (w.perform operation) := by
  cases operation with
  | root name => exact .root { name } rfl (by simp) rfl
  | bootstrap => exact .root { name := _, types := [.object] } rfl (by simp) rfl
  | child parent name =>
    simp only [perform]
    split
    · next present => exact .child { name, ancestors := _ } parent present rfl rfl rfl
    · exact .none
  | isolated parent =>
    simp only [perform]
    split
    · next present =>
      exact .child { name := _, ancestors := _, isolated := true } parent present rfl rfl rfl
    · exact .none
  | register id d =>
    simp only [perform]
    split
    · next present =>
      split
      · next registered =>
        obtain ⟨accepts, -, rfl⟩ := register_eq_ok.mp registered
        exact .register id d present accepts
      · exact .none
    · exact .none
  | define id bytes =>
    simp only [perform]
    split
    · next context =>
      split
      · next defined =>
        obtain ⟨-, faithful, -, accepts, rfl⟩ := define_eq_ok.mp defined
        exact .define id _ (has_of_isContext context) accepts faithful
      · exact .none
    · exact .none

/-- What holds at the start and is kept by every step holds after every history. -/
theorem after_induction {P : World → Prop} (start : P empty)
    (step : ∀ w w', Step w w' → P w → P w') (operations : List Operation) :
    P (after operations) := by
  have run : ∀ w, P w → P (w.performAll operations) := by
    induction operations with
    | nil => exact fun _ h => h
    | cons operation operations ih => exact fun w h => ih _ (step w _ (step_perform operation) h)
  exact run empty start

theorem after_append (earlier later : List Operation) :
    after (earlier ++ later) = (after earlier).performAll later :=
  List.foldl_append

end World

end ClassBench
