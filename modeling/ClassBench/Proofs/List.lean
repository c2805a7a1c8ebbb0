import Mathlib.Data.List.Forall2

/-! Places of the members of lists. -/

namespace List

variable {α : Type} {p q : α → Bool} {xs ys : List α}

/-- What holds of a member of the first part stands before what holds of none of its members. -/
theorem findIdx_append_lt (found : ∃ x ∈ xs, p x = true) (absent : ∀ x ∈ xs, q x = false) :
    (xs ++ ys).findIdx p < (xs ++ ys).findIdx q := by
  have before : xs.findIdx p < xs.length := findIdx_lt_length_of_exists found
  have after : xs.findIdx q = xs.length := findIdx_eq_length.mpr absent
  rw [findIdx_append, findIdx_append, if_pos before, after, if_neg (Nat.lt_irrefl _)]
  exact Nat.lt_of_lt_of_le before (Nat.le_add_left _ _)

theorem findSome?_congr {β : Type} {f g : α → Option β} (same : ∀ x ∈ xs, f x = g x) :
    xs.findSome? f = xs.findSome? g := by
  induction xs with
  | nil => rfl
  | cons x xs ih =>
    obtain ⟨first, rest⟩ := forall_mem_cons.mp same
    rw [findSome?_cons, findSome?_cons, first, ih rest]

/-- A front of members that all have a property ends where the first member without it stands. -/
theorem append_inj_of_all {xs' ys' : List α} (all : ∀ x ∈ xs, p x = true)
    (all' : ∀ x ∈ xs', p x = true) (stops : ∀ y ∈ ys.head?, p y = false)
    (stops' : ∀ y ∈ ys'.head?, p y = false) (same : xs ++ ys = xs' ++ ys') :
    xs = xs' ∧ ys = ys' := by
  have none {ys : List α} (stops : ∀ y ∈ ys.head?, p y = false) : ys.takeWhile p = [] := by
    cases ys with
    | nil => rfl
    | cons y ys => rw [takeWhile_cons_of_neg (by simp [stops y rfl])]
  have front := congrArg (takeWhile p) same
  rw [takeWhile_append_of_pos all, takeWhile_append_of_pos all', none stops, none stops',
    append_nil, append_nil] at front
  exact ⟨front, append_cancel_left (front ▸ same)⟩

/-- A last member counts if it is not one of those before. -/
theorem eraseDups_concat [DecidableEq α] (xs : List α) (x : α) :
    (xs ++ [x]).eraseDups = if x ∈ xs then xs.eraseDups else xs.eraseDups ++ [x] := by
  rw [eraseDups_append, removeAll, filter_singleton]
  split <;> simp_all [eraseDups_cons]

/-- Rows that agree slot by slot agree at every place, behind their ends too. -/
theorem Forall₂.rel_join {β : Type} {R : α → β → Prop} {row : List (Option α)}
    {other : List (Option β)} (agree : Forall₂ (Option.Rel R) row other) (i : Nat) :
    Option.Rel R row[i]?.join other[i]?.join := by
  induction agree generalizing i with
  | nil => exact .none
  | cons head _ ih =>
    cases i with
    | zero => simpa using head
    | succ i => simpa using ih i

theorem mapM_eq_some {β : Type} {f : α → Option β} {ys : List β} :
    xs.mapM f = some ys ↔ xs.map f = ys.map some := by
  induction xs generalizing ys with
  | nil => cases ys <;> simp
  | cons x xs ih =>
    simp only [mapM_cons, Option.bind_eq_bind, Option.bind_eq_some_iff, ih, map_cons]
    cases ys with
    | nil => simp
    | cons y ys => simp

theorem Forall₂.map_eq {β : Type} {f : α → Option β} {ys : List β}
    (found : Forall₂ (fun x y => f x = some y) xs ys) : xs.map f = ys.map some := by
  rwa [← forall₂_eq_eq_eq, forall₂_map_left_iff, forall₂_map_right_iff]

/-- A pair of related members splits related rows in two. -/
theorem Forall₂.around {β : Type} {R : α → β → Prop} {front back : List α} {x : α} {row : List β}
    (related : Forall₂ R (front ++ x :: back) row) : ∃ before y after, row = before ++ y :: after ∧
      Forall₂ R front before ∧ R x y ∧ Forall₂ R back after := by
  induction front generalizing row with
  | nil =>
    cases related with
    | cons here rest => exact ⟨[], _, _, rfl, .nil, here, rest⟩
  | cons z front ih =>
    cases related with
    | cons head more =>
      obtain ⟨before, y, after, rfl, earlier, here, rest⟩ := ih more
      exact ⟨_ :: before, y, after, rfl, .cons head earlier, here, rest⟩

/-- Where a piece is told whatever follows it, so are the pieces of a row. -/
theorem map_eq_of_flatMap_eq {β γ : Type} {f : α → List β} {g : α → γ} (filled : ∀ x, f x ≠ [])
    (told : ∀ x ∈ xs, ∀ y ∈ ys, ∀ rest rest', f x ++ rest = f y ++ rest' → g x = g y ∧ rest = rest')
    (same : xs.flatMap f = ys.flatMap f) : xs.map g = ys.map g := by
  induction xs generalizing ys with
  | nil =>
    cases ys with
    | nil => rfl
    | cons y ys => exact absurd (append_eq_nil_iff.mp same.symm).1 (filled y)
  | cons x xs ih =>
    cases ys with
    | nil => exact absurd (append_eq_nil_iff.mp same).1 (filled x)
    | cons y ys =>
      obtain ⟨here, behind⟩ := told x mem_cons_self y mem_cons_self _ _ same
      rw [map_cons, map_cons, here, ih (fun x mem y mem' =>
        told x (mem_cons_of_mem _ mem) y (mem_cons_of_mem _ mem')) behind]

/-- Every place of a row of pieces is in one of the pieces. -/
theorem exists_around_flatMap {β : Type} {f : α → List β} {i : Nat}
    (inside : i < (xs.flatMap f).length) : ∃ front x back, xs = front ++ x :: back ∧
      (front.flatMap f).length ≤ i ∧ i < (front.flatMap f).length + (f x).length := by
  induction xs generalizing i with
  | nil => simp at inside
  | cons x xs ih =>
    rcases Nat.lt_or_ge i (f x).length with here | beyond
    · exact ⟨[], x, xs, rfl, Nat.zero_le _, by simpa using here⟩
    · rw [flatMap_cons, length_append] at inside
      obtain ⟨front, y, back, rfl, first, last⟩ := ih (i := i - (f x).length) (by omega)
      refine ⟨x :: front, y, back, rfl, ?_, ?_⟩
      all_goals
        rw [flatMap_cons, length_append]
        omega

/-- What stands at a place of a row of pieces is what stands in the piece. -/
theorem getElem?_around_flatMap {β : Type} {f : α → List β} {front back : List α} {x : α} {i : Nat}
    (first : (front.flatMap f).length ≤ i) (last : i < (front.flatMap f).length + (f x).length) :
    ((front ++ x :: back).flatMap f)[i]? = (f x)[i - (front.flatMap f).length]? := by
  rw [flatMap_append, flatMap_cons, getElem?_append_right first, getElem?_append_left (by omega)]

end List
