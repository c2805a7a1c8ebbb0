import ClassBench.Proofs.World.Step

/-! The scopes of a world are a forest.  A scope is made within one that exists already, so its
ancestors are those of an older scope followed by that scope, and they never change.  Hence the
lineage of an ancestor begins the lineage of its descendants, and what a scope sees begins with what
its ancestors see. -/

namespace ClassBench.World

variable {w w' : World} {id other : ScopeId} {name : String}

/-! ### What steps keep of a scope -/

/-- The number of the next scope. -/
def next (w : World) : ScopeId := ⟨w.scopes.size⟩

theorem scope?_add_next (s : Scope) : (w.add s).2.scope? w.next = some s := by
  simp [scope?_add, next]

theorem has_add {s : Scope} :
    (w.add s).2.has other = true ↔ w.has other = true ∨ other = w.next := by
  obtain ⟨i⟩ := other
  simp only [has_iff, add, Array.size_push, next, ScopeId.mk.injEq]
  omega

theorem ancestors_add (s : Scope) (present : w.has other = true) :
    (w.add s).2.ancestors other = w.ancestors other := by
  rw [ancestors, scope?_add_of_has s present, ancestors]

theorem lineage_add (s : Scope) (present : w.has other = true) :
    (w.add s).2.lineage other = w.lineage other := by
  rw [lineage_eq present, lineage_eq (has_add.mpr (.inl present)), ancestors_add s present]

theorem typesOf_add (s : Scope) (present : w.has other = true) :
    (w.add s).2.typesOf other = w.typesOf other := by
  rw [typesOf, scope?_add_of_has s present, typesOf]

theorem loadedOf_add (s : Scope) (present : w.has other = true) :
    (w.add s).2.loadedOf other = w.loadedOf other := by
  rw [loadedOf, scope?_add_of_has s present, loadedOf]

theorem ancestors_add_next (s : Scope) : (w.add s).2.ancestors w.next = s.ancestors := by
  simp [ancestors, scope?_add_next]

theorem typesOf_add_next (s : Scope) : (w.add s).2.typesOf w.next = s.types := by
  simp [typesOf, scope?_add_next]

theorem loadedOf_add_next (s : Scope) : (w.add s).2.loadedOf w.next = s.loaded := by
  simp [loadedOf, scope?_add_next]

theorem has_step (step : Step w w') (present : w.has other = true) : w'.has other = true := by
  cases step with
  | none => exact present
  | root | child => exact has_add.mpr (.inl present)
  | register | define => simpa using present

/-- The ancestors of a scope are fixed when it is made. -/
theorem ancestors_step (step : Step w w') (present : w.has other = true) :
    w'.ancestors other = w.ancestors other := by
  cases step with
  | none => rfl
  | root s | child s => exact ancestors_add s present
  | register | define => simp

/-- A scope only ever gains types, after those that it has. -/
theorem typesOf_step (step : Step w w') (present : w.has other = true) :
    w.typesOf other <+: w'.typesOf other := by
  cases step with
  | none => exact List.prefix_refl _
  | root s | child s =>
    have same := typesOf_add s present
    exact same ▸ List.prefix_refl _
  | register id d here | define id t here =>
    rw [typesOf_grow _ here]
    exact List.prefix_append _ _

/-- `w'` has all scopes of `w`, each with the same ancestors and at least the same types. -/
structure Extends (w w' : World) : Prop where
  has : ∀ id, w.has id = true → w'.has id = true
  ancestors : ∀ id, w.has id = true → w'.ancestors id = w.ancestors id
  types : ∀ id, w.has id = true → w.typesOf id <+: w'.typesOf id

theorem Extends.refl (w : World) : w.Extends w :=
  ⟨fun _ h => h, fun _ _ => rfl, fun _ _ => List.prefix_refl _⟩

theorem Extends.trans {w1 w2 w3 : World} (h1 : w1.Extends w2) (h2 : w2.Extends w3) :
    w1.Extends w3 where
  has id h := h2.has id (h1.has id h)
  ancestors id h := (h2.ancestors id (h1.has id h)).trans (h1.ancestors id h)
  types id h := (h1.types id h).trans (h2.types id (h1.has id h))

theorem Extends.of_step (step : Step w w') : w.Extends w' :=
  ⟨fun _ => has_step step, fun _ => ancestors_step step, fun _ => typesOf_step step⟩

theorem extends_performAll (w : World) (operations : List Operation) :
    w.Extends (w.performAll operations) := by
  induction operations generalizing w with
  | nil => exact Extends.refl w
  | cons operation operations ih => exact (Extends.of_step (step_perform operation)).trans (ih _)

theorem Extends.lineage (h : w.Extends w') (present : w.has id = true) :
    w'.lineage id = w.lineage id := by
  rw [lineage_eq present, lineage_eq (h.has id present), h.ancestors id present]

/-! ### The forest -/

/-- Every scope has no ancestors or those of an older scope and that scope. -/
def Nested (w : World) : Prop :=
  ∀ id, w.has id = true → w.ancestors id = [] ∨
    ∃ parent : ScopeId, parent.index < id.index ∧ w.has parent = true ∧
      w.ancestors id = w.lineage parent

theorem Nested.step (nested : w.Nested) (step : Step w w') : w'.Nested := by
  intro id present
  by_cases old : w.has id = true
  · rw [ancestors_step step old]
    rcases nested id old with top | ⟨parent, older, exists_parent, below⟩
    · exact .inl top
    · refine .inr ⟨parent, older, has_step step exists_parent, ?_⟩
      rw [(Extends.of_step step).lineage exists_parent, below]
  · cases step with
    | none => exact absurd present old
    | register | define => exact absurd (by simpa using present) old
    | root s top =>
      obtain rfl := (has_add.mp present).resolve_left old
      exact .inl ((ancestors_add_next s).trans top)
    | child s parent exists_parent below =>
      obtain rfl := (has_add.mp present).resolve_left old
      refine .inr ⟨parent, has_iff.mp exists_parent, has_add.mpr (.inl exists_parent), ?_⟩
      rw [ancestors_add_next, below, lineage_add s exists_parent]

theorem nested_after (operations : List Operation) : (after operations).Nested :=
  after_induction (fun _ present => absurd present (by simp [has_empty]))
    (fun _ _ step nested => nested.step step) operations

/-- What holds at the start and is kept by every step of a forest holds after every history. -/
theorem after_induction_nested {P : World → Prop} (start : P empty)
    (step : ∀ w w', w.Nested → Step w w' → P w → P w') (operations : List Operation) :
    P (after operations) := by
  have both : (after operations).Nested ∧ P (after operations) :=
    after_induction (P := fun w => w.Nested ∧ P w) ⟨nested_after [], start⟩
      (fun w w' taken ⟨nested, h⟩ => ⟨nested.step taken, step w w' nested taken h⟩) operations
  exact both.2

/-- The lineage of a scope is the scope alone or goes on from that of an older one. -/
theorem Nested.lineage_cases (nested : w.Nested) (present : w.has id = true) :
    w.lineage id = [id] ∨ ∃ parent : ScopeId, parent.index < id.index ∧ w.has parent = true ∧
      w.lineage id = w.lineage parent ++ [id] := by
  rw [lineage_eq present]
  rcases nested id present with top | ⟨parent, older, exists_parent, below⟩
  · exact .inl (by rw [top, List.nil_append])
  · exact .inr ⟨parent, older, exists_parent, by rw [below]⟩

/-- What holds of the scopes without parent and goes from a scope to those made within it holds of
every scope. -/
@[elab_as_elim]
theorem Nested.lineage_induction {P : ScopeId → Prop} (nested : w.Nested)
    (top : ∀ id, w.has id = true → w.lineage id = [id] → P id)
    (within : ∀ id parent : ScopeId, parent.index < id.index → w.has parent = true →
      w.lineage id = w.lineage parent ++ [id] → P parent → P id)
    (id : ScopeId) (present : w.has id = true) : P id := by
  generalize age : id.index = n
  induction n using Nat.strongRecOn generalizing id with
  | _ n ih =>
    rcases nested.lineage_cases present with alone | ⟨parent, older, exists_parent, split⟩
    · exact top id present alone
    · exact within id parent older exists_parent split
        (ih parent.index (age ▸ older) parent exists_parent rfl)

theorem mem_lineage_self (present : w.has id = true) : id ∈ w.lineage id := by
  rw [lineage_eq present]
  exact List.mem_append_right _ (List.mem_singleton_self id)

theorem has_of_mem_lineage (member : other ∈ w.lineage id) : w.has id = true := by
  cases present : w.has id with
  | true => rfl
  | false => simp [lineage_absent present] at member

theorem Nested.index_le (nested : w.Nested) (present : w.has id = true) :
    ∀ other ∈ w.lineage id, other.index ≤ id.index := by
  refine nested.lineage_induction (fun id _ alone => ?_)
    (fun id parent older _ split ih => ?_) id present
  · simp [alone]
  · intro other member
    rw [split, List.mem_append, List.mem_singleton] at member
    rcases member with inside | rfl
    · exact Nat.le_of_lt (Nat.lt_of_le_of_lt (ih other inside) older)
    · exact Nat.le_refl _

/-- The lineage of an ancestor begins the lineage of the scope, and goes on with younger scopes. -/
theorem Nested.lineage_split (nested : w.Nested) (present : w.has id = true) :
    ∀ other ∈ w.lineage id, w.has other = true ∧
      ∃ inner, w.lineage id = w.lineage other ++ inner ∧ ∀ a ∈ inner, other.index < a.index := by
  refine nested.lineage_induction (fun id here alone => ?_)
    (fun id parent older exists_parent split ih => ?_) id present
  · intro other member
    obtain rfl : other = id := by simpa [alone] using member
    exact ⟨here, [], by simp, by simp⟩
  · intro other member
    have younger (h : other ∈ w.lineage parent) : other.index < id.index :=
      Nat.lt_of_le_of_lt (nested.index_le exists_parent other h) older
    rw [split, List.mem_append, List.mem_singleton] at member
    rcases member with inside | rfl
    · obtain ⟨here, inner, begins, young⟩ := ih other inside
      refine ⟨here, inner ++ [id], by rw [split, begins, List.append_assoc], ?_⟩
      simpa [or_imp, forall_and] using ⟨young, younger inside⟩
    · have self : other ∈ w.lineage other := by simp [split]
      exact ⟨has_of_mem_lineage self, [], by simp, by simp⟩

theorem Nested.lineage_sorted (nested : w.Nested) (present : w.has id = true) :
    (w.lineage id).Pairwise (·.index < ·.index) := by
  refine nested.lineage_induction (fun id _ alone => ?_)
    (fun id parent older exists_parent split ih => ?_) id present
  · simp [alone]
  · rw [split, List.pairwise_append]
    refine ⟨ih, List.pairwise_singleton _ _, fun a ha b hb => ?_⟩
    obtain rfl := List.mem_singleton.mp hb
    exact Nat.lt_of_le_of_lt (nested.index_le exists_parent a ha) older

theorem Nested.index_lt (nested : w.Nested) (present : w.has id = true)
    (member : other ∈ w.ancestors id) : other.index < id.index := by
  have sorted := nested.lineage_sorted present
  rw [lineage_eq present, List.pairwise_append] at sorted
  exact sorted.2.2 other member id (List.mem_singleton_self id)

/-- Around a scope of the lineage stand first its ancestors, then itself, then younger scopes. -/
theorem Nested.lineage_around (nested : w.Nested) (member : other ∈ w.lineage id) :
    ∃ inner, w.lineage id = w.ancestors other ++ other :: inner ∧
      ∀ a ∈ inner, other.index < a.index := by
  obtain ⟨here, inner, begins, younger⟩ :=
    nested.lineage_split (has_of_mem_lineage member) other member
  refine ⟨inner, ?_, younger⟩
  rw [begins, lineage_eq here, List.append_assoc, List.singleton_append]

/-- Of two scopes of a lineage one is an ancestor of the other. -/
theorem Nested.lineage_total (nested : w.Nested) {a b : ScopeId} (ha : a ∈ w.lineage id)
    (hb : b ∈ w.lineage id) : a = b ∨ a ∈ w.ancestors b ∨ b ∈ w.ancestors a := by
  obtain ⟨innerA, aroundA, youngerA⟩ := nested.lineage_around ha
  obtain ⟨innerB, aroundB, youngerB⟩ := nested.lineage_around hb
  rw [aroundB, List.mem_append, List.mem_cons] at ha
  rw [aroundA, List.mem_append, List.mem_cons] at hb
  rcases ha with outside | same | inside
  · exact .inr (.inl outside)
  · exact .inl same
  · rcases hb with outside | same | within
    · exact .inr (.inr outside)
    · exact .inl same.symm
    · exact absurd (youngerA b within) (Nat.not_lt_of_lt (youngerB a inside))

end ClassBench.World
