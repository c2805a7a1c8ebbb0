import ClassBench.Proofs.World.Hierarchy

/-! Assignability is subtyping.  A name is assignable to those that it reaches by steps from a type
to what the type builds on, and to the class above all others.  Where the outermost scope is one
that was made with this class, the class builds on nothing, so the names that a scope sees are
ordered by assignability, with this class as the greatest.  A scope within another sees the same
types by the names that the outer one sees, and so it orders them alike. -/

namespace ClassBench.World

open Relation (ReflTransGen)

variable {w : World} {id inner root : ScopeId} {name target a b c : String}

/-! ### Subtyping -/

theorem Layered.path_of_isAssignable (layered : w.Layered)
    (assignable : w.isAssignable id name target = true) :
    (w.resolve? id name).isSome ∧
      (target = objectName ∨ ReflTransGen (w.RefersTo id) name target) := by
  induction name using (layered.wellFounded id).induction with
  | _ name ih =>
    rw [layered.isAssignable_eq] at assignable
    split at assignable
    · contradiction
    · next h resolved =>
      refine ⟨by simp [resolved], ?_⟩
      rw [Bool.or_eq_true, Bool.or_eq_true, beq_iff_eq, beq_iff_eq, List.any_eq_true] at assignable
      rcases assignable with (rfl | top) | ⟨m, parent, above⟩
      · exact .inr .refl
      · exact .inl top
      · have refers : w.RefersTo id name m := ⟨h, resolved, parent⟩
        obtain ⟨-, top | path⟩ := ih m refers above
        · exact .inl top
        · exact .inr (.head refers path)

theorem Layered.isAssignable_object (layered : w.Layered) (visible : (w.resolve? id name).isSome) :
    w.isAssignable id name objectName = true := by
  obtain ⟨h, resolved⟩ := Option.isSome_iff_exists.mp visible
  rw [layered.isAssignable_eq, resolved]
  simp

theorem Layered.isAssignable_of_path (layered : w.Layered) (visible : (w.resolve? id name).isSome)
    (path : ReflTransGen (w.RefersTo id) name target) : w.isAssignable id name target = true := by
  induction path using ReflTransGen.head_induction_on with
  | refl =>
    obtain ⟨h, resolved⟩ := Option.isSome_iff_exists.mp visible
    rw [layered.isAssignable_eq, resolved]
    simp
  | @head name m refers _ ih =>
    have above := ih (layered.resolves refers)
    obtain ⟨h, resolved, parent⟩ := refers
    rw [layered.isAssignable_eq, resolved]
    simp only [Bool.or_eq_true, List.any_eq_true]
    exact .inr ⟨m, parent, above⟩

theorem Layered.isAssignable_iff (layered : w.Layered) :
    w.isAssignable id name target = true ↔ (w.resolve? id name).isSome ∧
      (target = objectName ∨ ReflTransGen (w.RefersTo id) name target) := by
  constructor
  · exact layered.path_of_isAssignable
  · rintro ⟨visible, rfl | path⟩
    · exact layered.isAssignable_object visible
    · exact layered.isAssignable_of_path visible path

/-! ### The order of the names that a scope sees -/

/-- The outermost of a scope and its ancestors was made with the class above all others. -/
def Bootstrapped (operations : List Operation) (id : ScopeId) : Prop :=
  ∃ earlier later, operations = earlier ++ .bootstrap :: later ∧
    ((after operations).lineage id).head? = some (after earlier).next

/-- The class above all others stands for the definition that its scope was made with, because no
scope stands outside that one and definitions are never taken away. -/
theorem Bootstrapped.resolve?_object {operations : List Operation}
    (bootstrapped : Bootstrapped operations id) :
    ∃ root, (after operations).resolve? id objectName = some ⟨.object, root⟩ := by
  obtain ⟨earlier, later, rfl, outermost⟩ := bootstrapped
  refine ⟨(after earlier).next, ?_⟩
  obtain ⟨within, split⟩ := List.head?_eq_some_iff.mp outermost
  have grown : ((after earlier).perform .bootstrap).Extends
      (after (earlier ++ .bootstrap :: later)) := by
    rw [after_append]
    exact extends_performAll _ later
  have made : ((after earlier).perform .bootstrap).local? (after earlier).next objectName =
      some .object := by
    rw [local?_eq_find?]
    simp [perform, addBootstrap, typesOf_add_next, TypeDef.object]
  have kept := grown.local?_eq_some (has_add.mpr (.inr rfl)) made
  rw [resolve?, split, List.findSome?_cons, kept]
  rfl

section Order

variable (layered : w.Layered) (object : w.resolve? id objectName = some ⟨.object, root⟩)

include object

theorem not_refersTo_object : ¬w.RefersTo id objectName name := by
  rintro ⟨h, resolved, parent⟩
  obtain rfl : _ = h := Option.some.inj (object.symm.trans resolved)
  simp [TypeDef.object, TypeDef.parents] at parent

theorem eq_object_of_path (path : ReflTransGen (w.RefersTo id) objectName name) :
    name = objectName := by
  rcases path.cases_head with same | ⟨m, refers, -⟩
  · exact same.symm
  · exact absurd refers (not_refersTo_object object)

include layered

theorem isAssignable_trans (first : w.isAssignable id a b = true)
    (second : w.isAssignable id b c = true) : w.isAssignable id a c = true := by
  rw [layered.isAssignable_iff] at first second ⊢
  obtain ⟨visible, rfl | lower⟩ := first
  · obtain ⟨-, top | upper⟩ := second
    · exact ⟨visible, .inl top⟩
    · exact ⟨visible, .inl (eq_object_of_path object upper)⟩
  · obtain ⟨-, top | upper⟩ := second
    · exact ⟨visible, .inl top⟩
    · exact ⟨visible, .inr (lower.trans upper)⟩

theorem isAssignable_antisymm (first : w.isAssignable id a b = true)
    (second : w.isAssignable id b a = true) : a = b := by
  rw [layered.isAssignable_iff] at first second
  obtain ⟨-, rfl | up⟩ := first
  · obtain ⟨-, top | path⟩ := second
    · exact top
    · exact eq_object_of_path object path
  · obtain ⟨-, rfl | down⟩ := second
    · exact (eq_object_of_path object up).symm
    · rcases Relation.reflTransGen_iff_eq_or_transGen.mp up with same | strictly
      · exact same.symm
      · exact absurd (strictly.trans_left down) (layered.acyclic a)

end Order

/-! ### Scopes within another -/

/-- A scope takes over all that stands for something in a scope around it. -/
theorem Nested.resolve?_within (nested : w.Nested) (around : id ∈ w.lineage inner)
    {h : TypeHandle} (resolved : w.resolve? id name = some h) :
    w.resolve? inner name = some h := by
  obtain ⟨-, rest, split, -⟩ := nested.lineage_split (has_of_mem_lineage around) id around
  rw [resolve?] at resolved
  rw [resolve?, split, List.findSome?_append, resolved, Option.some_or]

theorem Layered.isAssignable_within (layered : w.Layered) (nested : w.Nested)
    (around : id ∈ w.lineage inner) (target : String) (visible : (w.resolve? id name).isSome) :
    w.isAssignable inner name target = w.isAssignable id name target := by
  induction name using (layered.wellFounded id).induction with
  | _ name ih =>
    obtain ⟨h, resolved⟩ := Option.isSome_iff_exists.mp visible
    rw [layered.isAssignable_eq, layered.isAssignable_eq, resolved,
      nested.resolve?_within around resolved]
    have parents : ∀ m ∈ h.type.parents,
        w.isAssignable inner m target = w.isAssignable id m target := by
      intro m parent
      have refers : w.RefersTo id name m := ⟨h, resolved, parent⟩
      exact ih m refers (layered.resolves refers)
    have same : h.type.parents.any (w.isAssignable inner · target) =
        h.type.parents.any (w.isAssignable id · target) := by
      rw [Bool.eq_iff_iff, List.any_eq_true, List.any_eq_true]
      exact exists_congr fun m => and_congr_right fun parent => by rw [parents m parent]
    simp only [same]

theorem mem_lineage_of_mem_ancestors (around : id ∈ w.ancestors inner) : id ∈ w.lineage inner := by
  have present : w.has inner = true := by
    unfold ancestors at around
    unfold has
    cases found : w.scope? inner <;> simp_all
  rw [lineage_eq present]
  exact List.mem_append_left _ around

/-! ### Histories -/

/-- After every history, a name is assignable to another exactly if it stands for a type and the
other one is the class above all others or reached by steps to what types build on.  In a scope
whose outermost ancestor was made with that class, assignability is an order of the names that stand
for something, with that class as the greatest; and every scope within another, at any depth, agrees
with it on all that the outer one sees. -/
theorem assignability_is_subtyping (operations : List Operation) (id : ScopeId) :
    let w := after operations
    (∀ name target, w.isAssignable id name target = true ↔ (w.resolve? id name).isSome ∧
      (target = objectName ∨ ReflTransGen (w.RefersTo id) name target)) ∧
    (Bootstrapped operations id →
      (∀ a, (w.resolve? id a).isSome → w.isAssignable id a a = true) ∧
      (∀ a b c, w.isAssignable id a b = true → w.isAssignable id b c = true →
        w.isAssignable id a c = true) ∧
      (∀ a b, w.isAssignable id a b = true → w.isAssignable id b a = true → a = b) ∧
      (w.resolve? id objectName).isSome ∧
      ∀ a, (w.resolve? id a).isSome → w.isAssignable id a objectName = true) ∧
    ∀ inner, id ∈ w.ancestors inner → ∀ name target, (w.resolve? id name).isSome →
      w.isAssignable inner name target = w.isAssignable id name target := by
  intro w
  have layered : w.Layered := layered_after operations
  have nested : w.Nested := nested_after operations
  refine ⟨fun _ _ => layered.isAssignable_iff, fun bootstrapped => ?_, ?_⟩
  · obtain ⟨root, object⟩ := bootstrapped.resolve?_object
    refine ⟨fun a visible => layered.isAssignable_of_path visible .refl, fun a b c => ?_,
      fun a b => ?_, by simp [w, object], fun a visible => layered.isAssignable_object visible⟩
    · exact isAssignable_trans layered object
    · exact isAssignable_antisymm layered object
  · intro inner around name target visible
    have within := mem_lineage_of_mem_ancestors around
    exact layered.isAssignable_within nested within target visible

/-- A class below another that implements an interface, seen from the scope of all three and from
one within it. -/
theorem assignability_is_subtyping_diamond :
    let operations := [.bootstrap, .child ⟨0⟩ "inner",
      .register ⟨0⟩ { name := "app/Task", kind := .interfaceKind },
      .register ⟨0⟩ { TypeDef.extending "app/Base" objectName with interfaces := ["app/Task"] },
      .register ⟨0⟩ { TypeDef.extending "app/Leaf" "app/Base" with interfaces := ["app/Task"] }]
    let w := after operations
    Bootstrapped operations ⟨0⟩ ∧
      (w.resolve? ⟨0⟩ "app/Leaf").isSome ∧ w.isAssignable ⟨0⟩ "app/Leaf" "app/Leaf" = true ∧
      w.isAssignable ⟨0⟩ "app/Leaf" "app/Base" = true ∧
      w.isAssignable ⟨0⟩ "app/Base" "app/Task" = true ∧
      w.isAssignable ⟨0⟩ "app/Leaf" "app/Task" = true ∧
      w.isAssignable ⟨0⟩ "app/Leaf" objectName = true ∧
      ⟨0⟩ ∈ w.ancestors ⟨1⟩ ∧
      w.isAssignable ⟨1⟩ "app/Leaf" "app/Task" = w.isAssignable ⟨0⟩ "app/Leaf" "app/Task" := by
  intro operations w
  have bootstrapped : Bootstrapped operations ⟨0⟩ := ⟨[], _, rfl, by decide +kernel⟩
  have visible : (w.resolve? ⟨0⟩ "app/Leaf").isSome := by decide +kernel
  have lower : w.isAssignable ⟨0⟩ "app/Leaf" "app/Base" = true := by decide +kernel
  have upper : w.isAssignable ⟨0⟩ "app/Base" "app/Task" = true := by decide +kernel
  have around : ⟨0⟩ ∈ w.ancestors ⟨1⟩ := by decide +kernel
  obtain ⟨-, order, within⟩ := assignability_is_subtyping operations ⟨0⟩
  obtain ⟨refl, trans, -, -, greatest⟩ := order bootstrapped
  exact ⟨bootstrapped, visible, refl _ visible, lower, upper, trans _ _ _ lower upper,
    greatest _ visible, around, within _ around _ _ visible⟩

end ClassBench.World
