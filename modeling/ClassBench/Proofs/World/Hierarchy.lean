import ClassBench.Proofs.List
import ClassBench.Proofs.World.Resolution
import Mathlib.Data.List.Basic
import Mathlib.Logic.Relation

/-! The hierarchy of types that a scope sees.  A scope takes a definition only if it sees what the
definition builds on, and types are never taken away.  So in the row of all types that a scope sees,
the outermost first, every type builds on earlier ones; and a name stands for the first type of the
row that has it.  The place of a name in the row therefore goes down with every step from a type to
what it builds on, also when an ancestor comes to define the name later. -/

namespace ClassBench

/-- Every type of the row builds on known names and on earlier types of the row only. -/
def Grounded (known : List String) : List TypeDef → Prop
  | [] => True
  | d :: rest => (∀ m ∈ d.parents, m ∈ known) ∧ Grounded (known ++ [d.name]) rest

namespace Grounded

variable {known known' : List String} {types xs ys : List TypeDef} {d : TypeDef}

theorem mono (h : Grounded known types) (more : known ⊆ known') : Grounded known' types := by
  induction types generalizing known known' with
  | nil => trivial
  | cons d rest ih =>
    refine ⟨fun m hm => more (h.1 m hm), ih h.2 ?_⟩
    exact List.append_subset.mpr ⟨fun m hm => List.mem_append_left _ (more hm),
      List.subset_append_right _ _⟩

theorem append : Grounded known (xs ++ ys) ↔
    Grounded known xs ∧ Grounded (known ++ xs.map TypeDef.name) ys := by
  induction xs generalizing known with
  | nil => simp [Grounded]
  | cons d xs ih => simp [Grounded, ih, and_assoc]

/-- What follows a type that is added goes on to be grounded. -/
theorem insert (h : Grounded known (xs ++ ys))
    (parents : ∀ m ∈ d.parents, m ∈ known ++ xs.map TypeDef.name) :
    Grounded known (xs ++ d :: ys) := by
  rw [append] at h ⊢
  exact ⟨h.1, parents, h.2.mono (List.subset_append_left _ _)⟩

theorem parents_mem (h : Grounded known (xs ++ d :: ys)) :
    ∀ m ∈ d.parents, m ∈ known ++ xs.map TypeDef.name :=
  (append.mp h).2.1

end Grounded

namespace World

variable {w w' : World} {id other : ScopeId} {name n m : String}

/-! ### What a scope sees -/

/-- A name stands for the first type with it among those that the scope sees. -/
theorem type_resolve? (w : World) (id : ScopeId) (name : String) :
    (w.resolve? id name).map TypeHandle.type = (w.visible id).find? (·.name == name) := by
  rw [visible_eq_flatMap, List.find?_flatMap, resolve?, List.map_findSome?]
  congr 1
  funext a
  rw [← local?_eq_find?, Function.comp_apply, Option.map_map]
  exact Option.map_id'

theorem resolve?_isSome_iff_mem :
    (w.resolve? id name).isSome ↔ name ∈ (w.visible id).map TypeDef.name := by
  have same := congrArg Option.isSome (type_resolve? w id name)
  rw [Option.isSome_map] at same
  rw [same]
  simp

/-- A scope that gains a type shows it, after all that it saw before, to the scopes within it. -/
theorem Nested.visible_grow (nested : w.Nested) (present : w.has id = true) (d : TypeDef)
    (more : List LoadedType) (other : ScopeId) :
    (w.grow id d more).visible other = w.visible other ∨
    ∃ after, w.visible other = w.visible id ++ after ∧
      (w.grow id d more).visible other = w.visible id ++ d :: after := by
  simp only [visible_eq_flatMap, lineage_grow]
  have away (scopes : List ScopeId) (h : id ∉ scopes) :
      scopes.flatMap (w.grow id d more).typesOf = scopes.flatMap w.typesOf := by
    refine List.flatMap_congr fun a ha => ?_
    rw [typesOf_grow more present, if_neg fun same : id = a => h (by rw [same]; exact ha),
      List.append_nil]
  by_cases within : id ∈ w.lineage other
  · right
    obtain ⟨inner, around, younger⟩ := nested.lineage_around within
    have outside : id ∉ w.ancestors id := fun h =>
      Nat.lt_irrefl _ (nested.index_lt present h)
    have inside : id ∉ inner := fun h => Nat.lt_irrefl _ (younger id h)
    refine ⟨inner.flatMap w.typesOf, ?_, ?_⟩
    · rw [around, lineage_eq present]
      simp
    · rw [around, lineage_eq present, List.flatMap_append, away _ outside, List.flatMap_cons,
        away _ inside, typesOf_grow more present, if_pos rfl]
      simp
  · exact .inl (away _ within)

theorem Nested.visible_add (nested : w.Nested) (s : Scope) (present : w.has other = true) :
    (w.add s).2.visible other = w.visible other := by
  rw [visible_eq_flatMap, visible_eq_flatMap, lineage_add s present]
  exact List.flatMap_congr fun a ha => typesOf_add s (nested.lineage_split present a ha).1

theorem visible_absent (absent : w.has id = false) : w.visible id = [] := by
  rw [visible_eq_flatMap, lineage_absent absent, List.flatMap_nil]

/-! ### The row of visible types is grounded -/

/-- Every scope sees, with a type, what the type builds on, and before it. -/
def Layered (w : World) : Prop := ∀ id, Grounded [] (w.visible id)

theorem Accepts.parents_mem {d : TypeDef} (accepts : w.Accepts id d) :
    ∀ m ∈ d.parents, m ∈ (w.visible id).map TypeDef.name := by
  intro m hm
  rw [← resolve?_isSome_iff_mem]
  rw [TypeDef.parents, List.mem_append, Option.mem_toList] at hm
  rcases hm with isSuper | isInterface
  · obtain ⟨h, found, -⟩ := accepts.superClass m isSuper
    simp [found]
  · obtain ⟨h, found, -⟩ := accepts.interfaces m isInterface
    simp [found]

theorem Layered.grow (layered : w.Layered) (nested : w.Nested) {d : TypeDef}
    {more : List LoadedType} (present : w.has id = true) (accepts : w.Accepts id d) :
    (w.grow id d more).Layered := by
  intro other
  rcases nested.visible_grow present d more other with same | ⟨after, before, grown⟩
  · rw [same]
    exact layered other
  · rw [grown]
    refine Grounded.insert (by rw [← before]; exact layered other) ?_
    simpa using accepts.parents_mem

theorem Layered.step (layered : w.Layered) (nested : w.Nested) (step : Step w w') :
    w'.Layered := by
  have added {s : Scope} (fresh : Grounded [] ((w.add s).2.visible w.next)) :
      (w.add s).2.Layered := by
    intro id
    cases present : (w.add s).2.has id with
    | false => rw [visible_absent present]; trivial
    | true =>
      rcases has_add.mp present with old | rfl
      · rw [nested.visible_add s old]
        exact layered id
      · exact fresh
  cases step with
  | none => exact layered
  | root s top types =>
    refine added ?_
    rw [visible_eq_flatMap, lineage_eq (has_add.mpr (.inr rfl)), ancestors_add_next, top]
    rw [List.nil_append, List.flatMap_singleton, typesOf_add_next]
    cases only : s.types with
    | nil => trivial
    | cons d rest =>
      obtain ⟨alone, rfl⟩ := types d (by simp [only])
      obtain rfl : rest = [] := by simpa [only] using alone
      exact ⟨by simp [TypeDef.parents, TypeDef.object], trivial⟩
  | child s parent exists_parent below types =>
    refine added ?_
    rw [visible_eq_flatMap, lineage_eq (has_add.mpr (.inr rfl)), ancestors_add_next, below,
      List.flatMap_append, List.flatMap_singleton, typesOf_add_next, types, List.append_nil]
    have same := nested.visible_add s exists_parent
    rw [visible_eq_flatMap, lineage_add s exists_parent] at same
    rw [same]
    exact layered parent
  | register id d present accepts => exact layered.grow nested present accepts
  | define id t present accepts => exact layered.grow nested present accepts

theorem layered_after (operations : List Operation) : (after operations).Layered := by
  refine after_induction_nested (fun id => ?_) (fun _ _ nested step h => h.step nested step)
    operations
  rw [visible_absent has_empty]
  trivial

/-- Where a name stands for a type, what that type builds on stands before it in the row. -/
theorem Layered.visible_split (layered : w.Layered) {h : TypeHandle}
    (resolved : w.resolve? id n = some h) :
    ∃ before after, w.visible id = before ++ h.type :: after ∧ h.type.name = n ∧
      (∀ e ∈ before, e.name ≠ n) ∧ ∀ m ∈ h.type.parents, m ∈ before.map TypeDef.name := by
  have found := type_resolve? w id n
  rw [resolved, Option.map_some, eq_comm, List.find?_eq_some_iff_append] at found
  obtain ⟨named, before, after, split, first⟩ := found
  refine ⟨before, after, split, by simpa using named, by simpa using first, ?_⟩
  have grounded := layered id
  rw [split] at grounded
  simpa using grounded.parents_mem

/-! ### The relation of names -/

/-- The type that a name stands for builds on another name. -/
def RefersTo (w : World) (id : ScopeId) (n m : String) : Prop :=
  ∃ h, w.resolve? id n = some h ∧ m ∈ h.type.parents

/-- The place of a name among the types that a scope sees. -/
def rank (w : World) (id : ScopeId) (n : String) : Nat :=
  (w.visible id).findIdx (·.name == n)

theorem Layered.resolves (layered : w.Layered) (refers : w.RefersTo id n m) :
    (w.resolve? id m).isSome := by
  obtain ⟨h, resolved, parent⟩ := refers
  obtain ⟨before, after, split, -, -, parents⟩ := layered.visible_split resolved
  rw [resolve?_isSome_iff_mem, split, List.map_append]
  exact List.mem_append_left _ (parents m parent)

theorem Layered.rank_lt (layered : w.Layered) (refers : w.RefersTo id n m) :
    w.rank id m < w.rank id n := by
  obtain ⟨h, resolved, parent⟩ := refers
  obtain ⟨before, after, split, named, first, parents⟩ := layered.visible_split resolved
  obtain ⟨e, he, rfl⟩ := List.mem_map.mp (parents m parent)
  rw [rank, rank, split]
  exact List.findIdx_append_lt ⟨e, he, by simp⟩ (by simpa using first)

theorem Layered.wellFounded (layered : w.Layered) (id : ScopeId) :
    WellFounded fun m n => w.RefersTo id n m :=
  Subrelation.wf (fun refers => layered.rank_lt refers) (measure (w.rank id)).wf

theorem Layered.acyclic (layered : w.Layered) (n : String) :
    ¬Relation.TransGen (w.RefersTo id) n n := by
  have down {a b : String} (path : Relation.TransGen (w.RefersTo id) a b) :
      w.rank id b < w.rank id a := by
    induction path with
    | single refers => exact layered.rank_lt refers
    | tail _ refers ih => exact Nat.lt_trans (layered.rank_lt refers) ih
  exact fun cycle => Nat.lt_irrefl _ (down cycle)

/-! ### Assignability -/

/-- More fuel than the place of the name changes nothing. -/
theorem Layered.reaches_eq (layered : w.Layered) (target : String) {fuel fuel' : Nat}
    (enough : w.rank id n < fuel) (enough' : w.rank id n < fuel') :
    w.reaches id target fuel n = w.reaches id target fuel' n := by
  induction fuel generalizing n fuel' with
  | zero => exact absurd enough (Nat.not_lt_zero _)
  | succ fuel ih =>
    cases fuel' with
    | zero => exact absurd enough' (Nat.not_lt_zero _)
    | succ fuel' =>
      rw [reaches, reaches]
      split
      · rfl
      · next h resolved =>
        congr 1
        rw [Bool.eq_iff_iff, List.any_eq_true, List.any_eq_true]
        refine exists_congr fun m => and_congr_right fun hm => ?_
        have lower := layered.rank_lt ⟨h, resolved, hm⟩
        have same : w.reaches id target fuel m = w.reaches id target fuel' m :=
          ih (by omega) (by omega)
        rw [same]

theorem rank_le : w.rank id n ≤ (w.visible id).length := List.findIdx_le_length

theorem Layered.isAssignable_eq_reaches (layered : w.Layered) (target : String) {fuel : Nat}
    (enough : (w.visible id).length < fuel) :
    w.reaches id target fuel n = w.isAssignable id n target :=
  layered.reaches_eq target (Nat.lt_of_le_of_lt rank_le enough)
    (Nat.lt_of_le_of_lt rank_le (Nat.lt_succ_self _))

/-- A name is assignable where it, or one that its type builds on, is. -/
theorem Layered.isAssignable_eq (layered : w.Layered) (id : ScopeId) (name target : String) :
    w.isAssignable id name target =
      match w.resolve? id name with
      | none => false
      | some h => name == target || target == objectName ||
        h.type.parents.any (w.isAssignable id · target) := by
  -- With one more step to spend, the first step leaves enough for all the others.
  have enough : (w.visible id).length < (w.visible id).length + 1 := Nat.lt_succ_self _
  rw [← layered.isAssignable_eq_reaches target (Nat.lt_succ_of_lt enough), reaches]
  cases w.resolve? id name with
  | none => rfl
  | some h => rfl

/-- After every history the relation of the names that a scope sees has no cycle, every name in it
stands for a type, and assignability, which follows it, ends. -/
theorem hierarchy_acyclic (operations : List Operation) (id : ScopeId) :
    let w := after operations
    (∀ n, ¬Relation.TransGen (w.RefersTo id) n n) ∧
    (∀ n m, w.RefersTo id n m → (w.resolve? id m).isSome) ∧
    WellFounded (fun m n => w.RefersTo id n m) ∧
    ∀ name target,
      (∀ fuel, (w.visible id).length < fuel →
        w.reaches id target fuel name = w.isAssignable id name target) ∧
      w.isAssignable id name target =
        match w.resolve? id name with
        | none => false
        | some h => name == target || target == objectName ||
          h.type.parents.any (w.isAssignable id · target) := by
  intro w
  have layered : w.Layered := layered_after operations
  exact ⟨layered.acyclic, fun _ _ => layered.resolves, layered.wellFounded id, fun name target =>
    ⟨fun _ => layered.isAssignable_eq_reaches target, layered.isAssignable_eq id name target⟩⟩

/-- A class whose super class is hidden by an interface of the parent refers to that interface. -/
theorem hierarchy_acyclic_hidden :
    let operations := [.bootstrap, .child ⟨0⟩ "inner",
      .register ⟨1⟩ (.extending "app/Base" objectName),
      .register ⟨1⟩ (.extending "app/Main" "app/Base"),
      .register ⟨0⟩ { name := "app/Base", kind := .interfaceKind }]
    let w := after operations
    w.RefersTo ⟨1⟩ "app/Main" "app/Base" ∧ (w.resolve? ⟨1⟩ "app/Base").isSome ∧
      (w.visible ⟨1⟩).length < 7 ∧
      w.reaches ⟨1⟩ "app/Base" 7 "app/Main" = w.isAssignable ⟨1⟩ "app/Main" "app/Base" := by
  intro operations w
  have refers : w.RefersTo ⟨1⟩ "app/Main" "app/Base" :=
    ⟨⟨.extending "app/Main" "app/Base", ⟨1⟩⟩, by decide +kernel, by decide +kernel⟩
  have few : (w.visible ⟨1⟩).length < 7 := by decide +kernel
  obtain ⟨-, resolves, -, assignable⟩ := hierarchy_acyclic operations ⟨1⟩
  exact ⟨refers, resolves _ _ refers, few, (assignable "app/Main" "app/Base").1 7 few⟩

end World

end ClassBench
