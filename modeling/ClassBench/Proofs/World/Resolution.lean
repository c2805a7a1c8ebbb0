import ClassBench.Proofs.World.Forest
import Mathlib.Data.List.Induction

/-! What names stand for.  A name stands for the definition of the outermost scope of the lineage
that has one.  A scope takes no name that it or an ancestor defines, so of two definitions in one
lineage the inner one is the older: an ancestor, which knows nothing of the scopes within it, may
come to define the name later.  The definition that a name stands for changes in this way only, and
a name that stands for something always does. -/

namespace ClassBench.World

variable {w w' : World} {id other : ScopeId} {name : String}

/-- A scope itself defines a name. -/
def Defines (w : World) (id : ScopeId) (name : String) : Prop := (w.local? id name).isSome

instance : Decidable (w.Defines id name) := inferInstanceAs (Decidable (_ = true))

theorem defines_of_eq_some {d : TypeDef} (found : w.local? id name = some d) :
    w.Defines id name := by
  simp [Defines, found]

theorem not_defines_iff : ¬w.Defines id name ↔ w.local? id name = none := by
  simp [Defines]

/-- A name stands for the definition of a scope of the lineage none of whose ancestors has one. -/
theorem Nested.resolve?_eq_some (nested : w.Nested) {h : TypeHandle} :
    w.resolve? id name = some h ↔ h.scope ∈ w.lineage id ∧
      w.local? h.scope name = some h.type ∧ ∀ a ∈ w.ancestors h.scope, ¬w.Defines a name := by
  rw [resolve?, List.findSome?_eq_some_iff]
  constructor
  · rintro ⟨outer, s, inner, split, found, before⟩
    obtain ⟨d, hd, rfl⟩ := Option.map_eq_some_iff.mp found
    have member : s ∈ w.lineage id := by simp [split]
    have sorted := nested.lineage_sorted (has_of_mem_lineage member)
    refine ⟨member, hd, fun a ha => ?_⟩
    -- An ancestor of `s` is older than it, and the scopes after `s` are younger.
    have older := nested.index_lt (nested.lineage_split (has_of_mem_lineage member) s member).1 ha
    have within : a ∈ w.lineage id := by
      obtain ⟨_, around, -⟩ := nested.lineage_around member
      rw [around]
      exact List.mem_append_left _ ha
    rw [split, List.mem_append, List.mem_cons] at within
    rw [split, List.pairwise_append, List.pairwise_cons] at sorted
    rcases within with outside | rfl | inside
    · rw [not_defines_iff]
      simpa using before a outside
    · exact absurd older (Nat.lt_irrefl _)
    · exact absurd older (Nat.not_lt_of_lt (sorted.2.1.1 a inside))
  · rintro ⟨member, found, outside⟩
    obtain ⟨inner, around, -⟩ := nested.lineage_around member
    refine ⟨w.ancestors h.scope, h.scope, inner, around, by rw [found]; rfl, fun a ha => ?_⟩
    rw [not_defines_iff.mp (outside a ha)]
    rfl

theorem resolve?_isSome : (w.resolve? id name).isSome ↔ ∃ a ∈ w.lineage id, w.Defines a name := by
  simp [resolve?, Defines]

theorem resolve?_eq_none : w.resolve? id name = none ↔ ∀ a ∈ w.lineage id, ¬w.Defines a name := by
  rw [← Option.not_isSome_iff_eq_none, resolve?_isSome]
  simp

/-! ### What a step defines -/

theorem defines_add (s : Scope) (present : w.has other = true) :
    (w.add s).2.Defines other name ↔ w.Defines other name := by
  rw [Defines, Defines, local?_eq_find?, local?_eq_find?, typesOf_add s present]

theorem defines_grow {d : TypeDef} {more : List LoadedType} (present : w.has id = true) :
    (w.grow id d more).Defines other name ↔ w.Defines other name ∨ id = other ∧ d.name = name := by
  simp only [Defines, local?_eq_find?, typesOf_grow more present, List.find?_append]
  by_cases here : id = other <;> simp [here]

/-- Of two scopes of which one is an ancestor of the other, and which both define a name after a
step, the inner one defined it before. -/
theorem Nested.inner_defines_first (nested : w.Nested) (step : Step w w') {outer inner : ScopeId}
    (present : w'.has inner = true) (around : outer ∈ w'.ancestors inner)
    (hOuter : w'.Defines outer name) (hInner : w'.Defines inner name) : w.Defines inner name := by
  by_cases old : w.has inner = true
  · rw [ancestors_step step old] at around
    have within : outer ∈ w.lineage inner := by
      rw [lineage_eq old]
      exact List.mem_append_left _ around
    have older := nested.index_lt old around
    have grown {id : ScopeId} {d : TypeDef} {more : List LoadedType} (here : w.has id = true)
        (accepts : w.Accepts id d) (ho : (w.grow id d more).Defines outer name)
        (hi : (w.grow id d more).Defines inner name) : w.Defines inner name := by
      rw [defines_grow here] at ho hi
      rcases hi with before | ⟨rfl, rfl⟩
      · exact before
      · -- The inner scope takes the name now, so no ancestor has it, and none can get it now.
        have fresh := resolve?_eq_none.mp accepts.fresh outer within
        rcases ho with before | ⟨rfl, -⟩
        · exact absurd before fresh
        · exact absurd older (Nat.lt_irrefl _)
    cases step with
    | none => exact hInner
    | root s | child s => exact (defines_add s old).mp hInner
    | register id d here accepts | define id t here accepts => exact grown here accepts hOuter hInner
  · cases step with
    | none => exact absurd present old
    | register | define => exact absurd (by simpa using present) old
    | root s top =>
      obtain rfl := (has_add.mp present).resolve_left old
      simp [ancestors_add_next, top] at around
    | child s parent _ _ empty =>
      obtain rfl := (has_add.mp present).resolve_left old
      simp [Defines, local?_eq_find?, typesOf_add_next, empty] at hInner

/-! ### Histories -/

theorem Extends.local?_eq_some (h : w.Extends w') (present : w.has id = true) {d : TypeDef}
    (found : w.local? id name = some d) : w'.local? id name = some d := by
  rw [local?_eq_find?] at found ⊢
  exact (h.types id present).find?_eq_some found

theorem has_of_defines (h : w.Defines id name) : w.has id = true := by
  unfold Defines local? at h
  unfold has
  cases found : w.scope? id <;> simp_all

/-- Of two definitions in one lineage the inner one is the older. -/
theorem inner_definition_older (operations : List Operation) {outer inner : ScopeId}
    (around : outer ∈ (after operations).ancestors inner)
    (hOuter : (after operations).Defines outer name)
    (hInner : (after operations).Defines inner name) :
    ∃ earlier later, operations = earlier ++ later ∧
      (after earlier).Defines inner name ∧ ¬(after earlier).Defines outer name := by
  induction operations using List.reverseRecOn with
  | nil => simp [Defines, local?, scope?, after, performAll, empty] at hInner
  | append_singleton operations operation ih =>
    have last : after (operations ++ [operation]) = (after operations).perform operation :=
      after_append operations [operation]
    have step := step_perform (w := after operations) operation
    rw [last] at around hOuter hInner
    have before := (nested_after operations).inner_defines_first step (has_of_defines hInner)
      around hOuter hInner
    by_cases both : (after operations).Defines outer name
    · rw [ancestors_step step (has_of_defines before)] at around
      obtain ⟨earlier, later, rfl, hi, ho⟩ := ih around both before
      exact ⟨earlier, later ++ [operation], List.append_assoc _ _ _, hi, ho⟩
    · exact ⟨operations, [operation], rfl, before, both⟩

/-- A name that stands for something goes on to do so, for the same definition unless an ancestor of
the scope that has it came to define the name. -/
theorem Extends.resolve? (h : w.Extends w') (nested : w.Nested) (nested' : w'.Nested)
    {found : TypeHandle} (resolved : w.resolve? id name = some found) :
    ∃ later, w'.resolve? id name = some later ∧
      (later = found ∨ later.scope ∈ w.ancestors found.scope ∧ ¬w.Defines later.scope name) := by
  obtain ⟨member, here, outside⟩ := nested.resolve?_eq_some.mp resolved
  have present := has_of_mem_lineage member
  have there := (nested.lineage_split present _ member).1
  have kept := h.local?_eq_some there here
  have some_scope : (w'.resolve? id name).isSome := by
    rw [resolve?_isSome, h.lineage present]
    exact ⟨found.scope, member, defines_of_eq_some kept⟩
  obtain ⟨later, hLater⟩ := Option.isSome_iff_exists.mp some_scope
  obtain ⟨member', here', outside'⟩ := nested'.resolve?_eq_some.mp hLater
  refine ⟨later, hLater, ?_⟩
  rw [h.lineage present] at member'
  rcases nested.lineage_total member' member with same | outer | inner
  · left
    rw [same, kept] at here'
    cases later
    cases found
    simp_all
  · exact .inr ⟨outer, outside _ outer⟩
  · -- The definition that the name stood for would hide the one that it stands for now.
    have there' := (nested.lineage_split present _ member').1
    rw [← h.ancestors _ there'] at inner
    exact absurd (defines_of_eq_some kept) (outside' _ inner)

/-- The definition that a name stands for stays until an ancestor of its scope has one. -/
theorem Extends.resolve?_same (h : w.Extends w') (nested : w.Nested) (nested' : w'.Nested)
    {found : TypeHandle} (resolved : w.resolve? id name = some found) :
    w'.resolve? id name = some found ↔ ∀ a ∈ w.ancestors found.scope, ¬w'.Defines a name := by
  obtain ⟨member, here, -⟩ := nested.resolve?_eq_some.mp resolved
  have present := has_of_mem_lineage member
  have there := (nested.lineage_split present _ member).1
  rw [nested'.resolve?_eq_some, h.lineage present, h.ancestors _ there]
  exact ⟨fun ⟨_, _, outside⟩ => outside,
    fun outside => ⟨member, h.local?_eq_some there here, outside⟩⟩

/-- After every history, a scope and an ancestor of it both define a name only if the ancestor came
to define it later.  From then on a name that stood for something goes on to do so: for the same
definition in the same scope as long as no ancestor of that scope comes to define the name, and
otherwise for the definition of such an ancestor. -/
theorem resolution_changes_only_outwards (earlier later : List Operation) (id : ScopeId)
    (name : String) :
    (∀ outer inner, outer ∈ (after earlier).ancestors inner →
      (after earlier).Defines outer name → (after earlier).Defines inner name →
      ∃ before since, earlier = before ++ since ∧
        (after before).Defines inner name ∧ ¬(after before).Defines outer name) ∧
    ∀ found, (after earlier).resolve? id name = some found →
      ((after (earlier ++ later)).resolve? id name = some found ↔
        ∀ a ∈ (after earlier).ancestors found.scope,
          ¬(after (earlier ++ later)).Defines a name) ∧
      ∃ now, (after (earlier ++ later)).resolve? id name = some now ∧
        (now = found ∨ now.scope ∈ (after earlier).ancestors found.scope ∧
          ¬(after earlier).Defines now.scope name) := by
  have extends' : (after earlier).Extends (after (earlier ++ later)) := by
    rw [after_append]
    exact extends_performAll _ later
  have nested := nested_after earlier
  have nested' := nested_after (earlier ++ later)
  exact ⟨fun _ _ around hOuter hInner => inner_definition_older earlier around hOuter hInner,
    fun _ resolved => ⟨extends'.resolve?_same nested nested' resolved,
      extends'.resolve? nested nested' resolved⟩⟩

theorem resolution_changes_only_outwards_twice :
    let base := TypeDef.extending "app/Base" objectName
    let earlier := [.bootstrap, .child ⟨0⟩ "middle", .child ⟨1⟩ "inner", .register ⟨2⟩ base,
      .register ⟨1⟩ base]
    let later := [.register ⟨0⟩ base]
    let w := after earlier
    let w' := after (earlier ++ later)
    (⟨1⟩ ∈ w.ancestors ⟨2⟩ ∧ w.Defines ⟨1⟩ "app/Base" ∧ w.Defines ⟨2⟩ "app/Base" ∧
      ∃ before since, earlier = before ++ since ∧
        (after before).Defines ⟨2⟩ "app/Base" ∧ ¬(after before).Defines ⟨1⟩ "app/Base") ∧
    w.resolve? ⟨2⟩ "app/Base" = some ⟨base, ⟨1⟩⟩ ∧
      (w'.resolve? ⟨2⟩ "app/Base" = some ⟨base, ⟨1⟩⟩ ↔
        ∀ a ∈ w.ancestors ⟨1⟩, ¬w'.Defines a "app/Base") ∧
      ∃ now, w'.resolve? ⟨2⟩ "app/Base" = some now ∧
        (now = ⟨base, ⟨1⟩⟩ ∨ now.scope ∈ w.ancestors ⟨1⟩ ∧ ¬w.Defines now.scope "app/Base") := by
  intro base earlier later w w'
  have around : ⟨1⟩ ∈ w.ancestors ⟨2⟩ := by decide +kernel
  have hOuter : w.Defines ⟨1⟩ "app/Base" := by decide +kernel
  have hInner : w.Defines ⟨2⟩ "app/Base" := by decide +kernel
  have resolved : w.resolve? ⟨2⟩ "app/Base" = some ⟨base, ⟨1⟩⟩ := by decide +kernel
  obtain ⟨older, stable⟩ := resolution_changes_only_outwards earlier later ⟨2⟩ "app/Base"
  exact ⟨⟨around, hOuter, hInner, older _ _ around hOuter hInner⟩, resolved, stable _ resolved⟩

/-- A parent takes a name that a scope within it defines already, and hides that definition. -/
theorem late_ancestor_hides :
    let inner := TypeDef.extending "app/Base" objectName
    let outer : TypeDef := { name := "app/Base", kind := .interfaceKind }
    let earlier := [.bootstrap, .child ⟨0⟩ "inner", .register ⟨1⟩ inner]
    let later := [.register ⟨0⟩ outer]
    (after earlier).resolve? ⟨1⟩ "app/Base" = some ⟨inner, ⟨1⟩⟩ ∧
      (after (earlier ++ later)).resolve? ⟨1⟩ "app/Base" = some ⟨outer, ⟨0⟩⟩ ∧
      ⟨0⟩ ∈ (after (earlier ++ later)).ancestors ⟨1⟩ ∧
      (after (earlier ++ later)).local? ⟨0⟩ "app/Base" = some outer ∧
      (after (earlier ++ later)).local? ⟨1⟩ "app/Base" = some inner := by
  decide +kernel

end ClassBench.World
