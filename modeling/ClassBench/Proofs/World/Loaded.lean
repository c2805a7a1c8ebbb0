import ClassBench.Proofs.List
import ClassBench.Proofs.World.Resolution

/-! The types that a scope holds from class files.  A type enters the table of loaded types together
with its definition, so the scope defines what it holds, and holds what the bytes say.  The super
class was visible before the type was defined, and a name that is visible is never defined again:
so the super class of a type is never loaded after it in the same scope.  Nothing of the kind holds
of an interface, whose definition has no super type although its class file names one. -/

namespace ClassBench

/-- A class builds on the super type that its class file names. -/
theorem LoadedType.Faithful.superName_eq {t : LoadedType} (faithful : t.Faithful)
    (isClass : t.type.isInterface = false) : t.type.superName = t.classFile.superName? := by
  rw [faithful.type_eq] at isClass ⊢
  cases kind : t.classFile.isInterface with
  | true => simp [TypeDef.ofClassFile, TypeDef.isInterface, kind] at isClass
  | false => simp [TypeDef.ofClassFile, kind]

namespace World

variable {w w' : World} {id : ScopeId} {n : String} {t u : LoadedType}

/-- The super class of a definition is a class of the scope or of an ancestor. -/
def SuperDefined (w : World) (id : ScopeId) (d : TypeDef) : Prop :=
  ∀ n, d.superName = some n →
    ∃ a ∈ w.lineage id, ∃ e, w.local? a n = some e ∧ e.isInterface = false

theorem SuperDefined.extends {d : TypeDef} (super : w.SuperDefined id d) (h : w.Extends w')
    (present : w.has id = true) : w'.SuperDefined id d := by
  intro n named
  obtain ⟨a, member, e, found, isClass⟩ := super n named
  have there : w.has a = true := has_of_defines (defines_of_eq_some found)
  exact ⟨a, by rw [h.lineage present]; exact member, e, h.local?_eq_some there found, isClass⟩

/-- What is true of every type that a scope holds. -/
structure Holds (w : World) (id : ScopeId) (t : LoadedType) : Prop where
  faithful : t.Faithful
  defined : w.local? id t.name = some t.type
  super : w.SuperDefined id t.type
  other : t.type.superName ≠ some t.name

theorem Holds.extends (holds : w.Holds id t) (h : w.Extends w') (present : w.has id = true) :
    w'.Holds id t where
  faithful := holds.faithful
  defined := h.local?_eq_some present holds.defined
  super := holds.super.extends h present
  other := holds.other

theorem Accepts.ne_superName {d : TypeDef} (accepts : w.Accepts id d) :
    d.superName ≠ some d.name := by
  intro same
  obtain ⟨h, found, -⟩ := accepts.superClass d.name same
  rw [accepts.fresh] at found
  cases found

theorem Accepts.superDefined {d : TypeDef} (accepts : w.Accepts id d) (nested : w.Nested) :
    w.SuperDefined id d := by
  intro n named
  obtain ⟨h, found, isClass⟩ := accepts.superClass n named
  obtain ⟨member, here, -⟩ := nested.resolve?_eq_some.mp found
  exact ⟨h.scope, member, h.type, here, isClass⟩

/-- The types that a scope holds, in the order in which they were loaded: none has the name of an
earlier one, or the name of the super class of an earlier one. -/
structure Loads (w : World) (id : ScopeId) : Prop where
  holds : ∀ t ∈ w.loadedOf id, w.Holds id t
  ordered : (w.loadedOf id).Pairwise fun t u => t.name ≠ u.name ∧ t.type.superName ≠ some u.name

theorem loads_of_nil (none : w.loadedOf id = []) : w.Loads id :=
  ⟨by simp [none], by simp [none]⟩

theorem loadedOf_absent (absent : w.has id = false) : w.loadedOf id = [] := by
  simp [loadedOf, Option.isNone_iff_eq_none.mp (by simpa [has] using absent)]

theorem Loads.extends (loads : w.Loads id) (h : w.Extends w') (present : w.has id = true)
    (same : w'.loadedOf id = w.loadedOf id) : w'.Loads id where
  holds t ht := (loads.holds t (same ▸ ht)).extends h present
  ordered := same ▸ loads.ordered

theorem Loads.grow (loads : w.Loads id) (nested : w.Nested) (present : w.has id = true)
    (accepts : w.Accepts id t.type) (faithful : t.Faithful) : (w.grow id t.type [t]).Loads id := by
  have extends' : w.Extends (w.grow id t.type [t]) :=
    Extends.of_step (.define id t present accepts faithful)
  have row : (w.grow id t.type [t]).loadedOf id = w.loadedOf id ++ [t] := by
    rw [loadedOf_grow _ present, if_pos rfl]
  have fresh := resolve?_eq_none.mp accepts.fresh
  have self := mem_lineage_self present
  constructor
  · rw [row]
    intro u hu
    rcases List.mem_append.mp hu with old | new
    · exact (loads.holds u old).extends extends' present
    · obtain rfl := List.mem_singleton.mp new
      refine ⟨faithful, ?_, (accepts.superDefined nested).extends extends' present,
        accepts.ne_superName⟩
      -- No earlier type of the scope has the name.
      have absent : (w.typesOf id).find? (·.name == u.name) = none := by
        rw [← local?_eq_find?]
        exact not_defines_iff.mp (fresh id self)
      rw [local?_eq_find?, typesOf_grow _ present, if_pos rfl, List.find?_append, absent]
      simp [LoadedType.name]
  · rw [row, List.pairwise_append]
    refine ⟨loads.ordered, List.pairwise_singleton _ _, fun u hu v hv => ?_⟩
    obtain rfl := List.mem_singleton.mp hv
    have holds := loads.holds u hu
    constructor
    · intro same
      have found : w.local? id v.name = some u.type := same ▸ holds.defined
      exact fresh id self (defines_of_eq_some found)
    · intro named
      obtain ⟨a, member, e, found, -⟩ := holds.super _ named
      exact fresh a member (defines_of_eq_some found)

theorem loads_step (loads : ∀ id, w.Loads id) (nested : w.Nested) (step : Step w w') :
    ∀ id, w'.Loads id := by
  intro id
  -- A scope that was there holds what it held, and one more type if the step defines it there.
  by_cases old : w.has id = true
  · have h := Extends.of_step step
    cases step with
    | none => exact loads id
    | root s | child s => exact (loads id).extends h old (loadedOf_add s old)
    | register here d present =>
      refine (loads id).extends h old ?_
      rw [loadedOf_grow _ present]
      simp
    | define here t present accepts faithful =>
      by_cases same : here = id
      · subst same
        exact (loads here).grow nested present accepts faithful
      · refine (loads id).extends h old ?_
        rw [loadedOf_grow _ present, if_neg same, List.append_nil]
  · apply loads_of_nil
    by_cases present : w'.has id = true
    · cases step with
      | none => exact absurd present old
      | register | define => exact absurd (by simpa using present) old
      | root s _ _ empty | child s _ _ _ _ empty =>
        obtain rfl := (has_add.mp present).resolve_left old
        rw [loadedOf_add_next, empty]
    · exact loadedOf_absent (Bool.eq_false_iff.mpr present)

theorem loads_after (operations : List Operation) (id : ScopeId) : (after operations).Loads id := by
  have every : ∀ id, (after operations).Loads id :=
    after_induction_nested (fun id => loads_of_nil (loadedOf_absent has_empty))
      (fun _ _ nested step loads => loads_step loads nested step) operations
  exact every id

theorem loaded?_eq_some (loaded : w.loaded? id n = some t) : t ∈ w.loadedOf id ∧ t.name = n := by
  rw [loaded?_eq_find?] at loaded
  exact ⟨List.mem_of_find?_eq_some loaded, by simpa using List.find?_some loaded⟩

/-- The place of a type among those that a scope holds. -/
def order (w : World) (id : ScopeId) (t : LoadedType) : Nat :=
  (w.loadedOf id).findIdx (·.name == t.name)

/-- The super class of a type is loaded before it, if it is loaded in the same scope. -/
theorem Loads.order_lt (loads : w.Loads id) (ht : t ∈ w.loadedOf id) (hu : u ∈ w.loadedOf id)
    (super : t.type.superName = some u.name) : w.order id u < w.order id t := by
  obtain ⟨before, after, split⟩ := List.append_of_mem ht
  have ordered := loads.ordered
  rw [split, List.pairwise_append, List.pairwise_cons] at ordered
  obtain ⟨-, ⟨later, -⟩, earlier⟩ := ordered
  rw [split, List.mem_append, List.mem_cons] at hu
  rcases hu with inside | rfl | inside
  · rw [order, order, split]
    refine List.findIdx_append_lt ⟨u, inside, by simp⟩ fun e he => ?_
    simpa using (earlier e he t List.mem_cons_self).1
  · exact absurd super (loads.holds u ht).other
  · exact absurd super (later u inside).2

end World

end ClassBench
