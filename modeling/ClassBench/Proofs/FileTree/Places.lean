import ClassBench.FileTree
import ClassBench.Proofs.Path.Parts

/-! The places that paths lead to.  There are no links, so each part of a path leads on in the same
way in every tree, and a tree only decides whether it can be followed at all.  Joined to a directory
a path that does not lead up ends below the place of the directory, and an extension at the end of a
path is found again at the end of its place. -/

namespace ClassBench.Place

open ClassBench.Path

variable {path other dir right suffix : String} {place : Place}

/-- The place that a part of a path leads to from a directory. -/
def next (place : Place) (part : String) : Place :=
  if part = "" ∨ part = "." then place
  else if part = ".." then place.above
  else place ++ [part]

/-- The place where a path starts. -/
def origin (path : String) : Place := if isAbsolute path then ["/"] else []

/-- The place that a path leads to. -/
def ofPath (path : String) : Place := (parts path).foldl next (origin path)

/-- A path leads through a place, or to it. -/
def OnWay (path : String) (place : Place) : Prop :=
  ∃ front, front <+: parts path ∧ place = front.foldl next (origin path)

theorem start_eq (path : String) : FileTree.start path = (origin path, parts path) := by
  unfold FileTree.start origin
  split <;> rfl

/-! ### Joined paths -/

theorem ofPath_join (relative : isAbsolute right = false) :
    ofPath (join dir right) = (parts right).foldl next (ofPath dir) := by
  by_cases empty : dir = ""
  · have here : ofPath "" = [] := by
      decide +kernel
    rw [empty, join_empty, here, ofPath, origin, relative]
    rfl
  · obtain ⟨front, -, before, joined⟩ := parts_join relative empty
    rw [ofPath, origin, isAbsolute_join relative, joined, List.foldl_append, ofPath, origin]
    rcases before with before | before
    · rw [before]
    · rw [before, List.foldl_append]
      rfl

/-- What a joined path leads through is on the way to the directory or behind it. -/
theorem onWay_join (relative : isAbsolute right = false) (onWay : OnWay (join dir right) place) :
    OnWay dir place ∨ ∃ front, front <+: parts right ∧ place = front.foldl next (ofPath dir) := by
  obtain ⟨front, isFront, rfl⟩ := onWay
  by_cases empty : dir = ""
  · subst empty
    have here : ofPath "" = origin right := by
      rw [origin, relative]
      decide +kernel
    rw [join_empty] at isFront ⊢
    exact .inr ⟨front, isFront, by rw [here]⟩
  · obtain ⟨outer, -, before, joined⟩ := parts_join relative empty
    have sameOrigin : origin (join dir right) = origin dir := by
      rw [origin, isAbsolute_join relative, origin]
    rw [sameOrigin]
    obtain ⟨rest, whole⟩ := isFront
    rw [joined] at whole
    rcases List.append_eq_append_iff.mp whole with ⟨more, rfl, -⟩ | ⟨inner, rfl, split⟩
    · refine .inl ⟨front, ?_, rfl⟩
      rcases before with before | before <;> simp [before]
    · refine .inr ⟨inner, ⟨rest, split.symm⟩, ?_⟩
      rw [List.foldl_append, ofPath]
      rcases before with before | before
      · rw [before]
      · rw [before, List.foldl_append]
        rfl

/-- Whatever the parent of a path leads through, the path leads through too. -/
theorem onWay_parent (onWay : OnWay (parent path) place) : OnWay path place := by
  obtain ⟨front, isFront, rfl⟩ := onWay
  have sameOrigin : origin (parent path) = origin path := by
    rw [origin, isAbsolute_parent, origin]
  rw [sameOrigin]
  obtain ⟨kept, isKept, same | same⟩ := parts_parent path <;> rw [same] at isFront
  · exact ⟨front, isFront.trans isKept, rfl⟩
  · rcases List.prefix_concat_iff.mp isFront with rfl | within
    · refine ⟨kept, isKept, ?_⟩
      rw [List.foldl_append]
      rfl
    · exact ⟨front, within.trans isKept, rfl⟩

/-! ### Paths that do not lead up -/

/-- Parts that do not lead up lead below the place where they start. -/
theorem foldl_next {ps : List String} (stays : ".." ∉ ps) (place : Place) :
    ps.foldl next place = place ++ ps.filter fun part => part ≠ "" ∧ part ≠ "." := by
  induction ps generalizing place with
  | nil => simp
  | cons part ps ih =>
    obtain ⟨here, later⟩ := not_or.mp (mt List.mem_cons.mpr stays)
    rw [List.foldl_cons, ih later, next]
    by_cases dot : part = "" ∨ part = "."
    · have skipped : ¬(part ≠ "" ∧ part ≠ ".") := by
        rintro ⟨notEmpty, notDot⟩
        exact dot.elim notEmpty notDot
      rw [if_pos dot, List.filter_cons_of_neg (by simpa using skipped)]
    · rw [if_neg dot, if_neg (Ne.symm here), List.filter_cons_of_pos (by simpa [not_or] using dot),
        List.append_assoc]
      rfl

theorem ofPath_extended (extension : IsExtension suffix) (path : String) :
    ∃ front last, parts path = front ++ [last] ∧
      ofPath (path ++ suffix) = front.foldl next (origin path) ++ [last ++ suffix] := by
  obtain ⟨front, last, split, longer⟩ := parts_append path extension.plain
  refine ⟨front, last, split, ?_⟩
  rw [ofPath, longer, List.foldl_append, List.foldl_cons, List.foldl_nil, origin,
    isAbsolute_append_plain extension.plain, origin, next,
    if_neg (not_or.mpr ⟨extension.append_ne (by decide), extension.append_ne (by decide)⟩),
    if_neg (extension.append_ne (by decide))]

/-- A path that leads down never leaves the place where it starts. -/
theorem prefix_foldl_next (extension : IsExtension suffix) (down : LeadsDown path)
    {front : List String} (isFront : front <+: parts (path ++ suffix)) (place : Place) :
    place <+: front.foldl next place := by
  have stays : ".." ∉ front := fun mem =>
    down.stays ((mem_parts_extended extension (by decide)).mp (isFront.mem mem))
  rw [foldl_next stays]
  exact List.prefix_append ..

theorem prefix_ofPath_join (extension : IsExtension suffix) (down : LeadsDown path) :
    ofPath dir <+: ofPath (join dir (path ++ suffix)) := by
  rw [ofPath_join ((isAbsolute_append_plain extension.plain).trans down.relative)]
  exact prefix_foldl_next extension down List.prefix_rfl _

theorem prefix_of_onWay_join (extension : IsExtension suffix) (down : LeadsDown path)
    (onWay : OnWay (join dir (path ++ suffix)) place) : OnWay dir place ∨ ofPath dir <+: place := by
  have relative := (isAbsolute_append_plain extension.plain).trans down.relative
  rcases onWay_join relative onWay with before | ⟨front, isFront, rfl⟩
  · exact .inl before
  · exact .inr (prefix_foldl_next extension down isFront _)

/-- Paths with different extensions lead to different places. -/
theorem ofPath_ne {suffix' : String} (extension : IsExtension suffix)
    (extension' : IsExtension suffix') (apart : ∀ p q : String, p ++ suffix ≠ q ++ suffix') :
    ofPath (path ++ suffix) ≠ ofPath (other ++ suffix') := by
  obtain ⟨front, last, -, here⟩ := ofPath_extended extension path
  obtain ⟨front', last', -, there⟩ := ofPath_extended extension' other
  rw [here, there]
  intro same
  exact apart last last' (List.singleton_inj.mp (List.append_inj_right' same rfl))

/-- If paths with one extension lead to the same place, then what the one ends with the other ends
with too, unless there is a slash in it. -/
theorem ends_of_ofPath_eq {ending : String} (extension : IsExtension suffix)
    (plain : '/' ∉ ending.toList)
    (same : ofPath (path ++ suffix) = ofPath (other ++ ending ++ suffix)) :
    ∃ rest, path = rest ++ ending := by
  obtain ⟨front, last, split, here⟩ := ofPath_extended extension path
  obtain ⟨front', last', split', there⟩ := ofPath_extended extension (other ++ ending)
  obtain ⟨front'', last'', -, longer⟩ := parts_append other plain
  rw [here, there] at same
  have names := List.singleton_inj.mp (List.append_inj_right' same rfl)
  obtain rfl : last = last' := (String.append_left_inj suffix).mp names
  rw [split'] at longer
  obtain rfl : last = last'' ++ ending := List.singleton_inj.mp (List.append_inj_right' longer rfl)
  exact exists_of_parts split

theorem ofPath_join_plain (extension : IsExtension suffix) (plain : IsPlain path) :
    ofPath (join dir (path ++ suffix)) = ofPath dir ++ parts (path ++ suffix) := by
  have relative : isAbsolute (path ++ suffix) = false := by
    rw [isAbsolute_append_plain extension.plain, plain.relative]
  have kept {word : String} (short : word.length ≤ 2)
      (mem : word ∈ parts (path ++ suffix)) : word ∈ (parts path).dropLast :=
    (mem_parts_extended extension short).mp mem
  have stays : ".." ∉ parts (path ++ suffix) := fun mem =>
    (plain ".." (kept (by decide) mem)).2.2 rfl
  rw [ofPath_join relative, foldl_next stays, List.filter_eq_self.mpr]
  intro part mem
  have notEmpty : part ≠ "" := by
    rintro rfl
    exact (plain "" (kept (by decide) mem)).1 rfl
  have notDot : part ≠ "." := by
    rintro rfl
    exact (plain "." (kept (by decide) mem)).2.1 rfl
  simp [notEmpty, notDot]

/-- Paths without detours that have one extension lead from a directory to the same place only if
they are the same. -/
theorem ofPath_join_inj (extension : IsExtension suffix) (plain : IsPlain path)
    (plain' : IsPlain other) :
    ofPath (join dir (path ++ suffix)) = ofPath (join dir (other ++ suffix)) ↔ path = other := by
  rw [ofPath_join_plain extension plain, ofPath_join_plain extension plain',
    List.append_cancel_left_eq, parts_inj, String.append_left_inj]

end ClassBench.Place
