import ClassBench.Proofs.Path.Parts

/-! The components of paths.  Read from its components a path has no empty parts, and no parts that
stay where they are but for one that it begins with.  What is joined to a directory stays within it,
component by component, exactly if it does not begin at the top of all files and no part of it leads
up. -/

namespace ClassBench.Path

variable {path dir right name suffix : String}

/-- A component of a path. -/
inductive Component where
  /-- The top of all files. -/
  | root
  /-- The directory where the path starts, written in front of it. -/
  | current
  /-- The directory above. -/
  | parent
  | normal (name : String)
  deriving DecidableEq, Repr

/-- The component that a part is, if it leads anywhere. -/
def Component.ofPart? (part : String) : Option Component :=
  if part = "" ∨ part = "." then none
  else if part = ".." then some .parent
  else some (.normal part)

/-- The components of a path. -/
def components (path : String) : List Component :=
  (if isAbsolute path then [.root]
    else if (parts path).head? = some "." then [.current]
    else []) ++ (parts path).filterMap Component.ofPart?

/-- The components of a path are those of a directory and then some that do not lead up. -/
def IsWithin (dir path : String) : Prop :=
  ∃ rest, components path = components dir ++ rest ∧ .parent ∉ rest

instance (dir path : String) : Decidable (IsWithin dir path) :=
  decidable_of_iff (components dir <+: components path ∧
      .parent ∉ (components path).drop (components dir).length) <| by
    constructor
    · rintro ⟨⟨rest, split⟩, stays⟩
      rw [← split, List.drop_left] at stays
      exact ⟨rest, split.symm, stays⟩
    · rintro ⟨rest, split, stays⟩
      rw [split, List.drop_left]
      exact ⟨List.prefix_append .., stays⟩

theorem parent_mem_filterMap {ps : List String} :
    .parent ∈ ps.filterMap Component.ofPart? ↔ ".." ∈ ps := by
  rw [List.mem_filterMap]
  constructor
  · rintro ⟨part, mem, up⟩
    unfold Component.ofPart? at up
    split at up
    · contradiction
    · split at up
      · next isUp => rwa [← isUp]
      · simp at up
  · intro mem
    exact ⟨"..", mem, by decide⟩

theorem parent_mem_components : .parent ∈ components path ↔ ".." ∈ parts path := by
  rw [components, List.mem_append, parent_mem_filterMap]
  refine or_iff_right ?_
  split
  · simp
  · split <;> simp

theorem components_empty : components "" = [] := by
  decide +kernel

theorem components_join (relative : isAbsolute right = false) (nonempty : dir ≠ "") :
    components (join dir right) = components dir ++ (parts right).filterMap Component.ofPart? := by
  obtain ⟨front, some, before, joined⟩ := parts_join relative nonempty
  have sameHead : (parts (join dir right)).head? = (parts dir).head? := by
    cases front with
    | nil => contradiction
    | cons first front => rcases before with before | before <;> rw [before, joined] <;> rfl
  have sameParts : (parts dir).filterMap Component.ofPart? =
      front.filterMap Component.ofPart? := by
    rcases before with before | before
    · rw [before]
    · rw [before, List.filterMap_append]
      exact List.append_nil _
  rw [components, components, isAbsolute_join relative, sameHead, sameParts, joined,
    List.filterMap_append, List.append_assoc]

theorem isWithin_join_iff (relative : isAbsolute right = false) :
    IsWithin dir (join dir right) ↔ ".." ∉ parts right := by
  by_cases empty : dir = ""
  · subst empty
    simp [IsWithin, join_empty, components_empty, parent_mem_components]
  · constructor
    · rintro ⟨rest, split, stays⟩
      rw [components_join relative empty, List.append_cancel_left_eq] at split
      rwa [← parent_mem_filterMap, split]
    · intro stays
      exact ⟨_, components_join relative empty, mt parent_mem_filterMap.mp stays⟩

/-- A file with an extension is within the directory that its name is joined to exactly if the name
does not begin at the top of all files and no part of it leads up, but possibly the last; a name
that begins there is where it says. -/
theorem isWithin_extended_iff (extension : IsExtension suffix) :
    IsWithin dir (join dir (name ++ suffix)) ↔
      if isAbsolute name then IsWithin dir (name ++ suffix) else ".." ∉ (parts name).dropLast := by
  have sameStart : isAbsolute (name ++ suffix) = isAbsolute name :=
    isAbsolute_append_plain extension.plain
  split
  · next absolute => rw [join_absolute (sameStart.trans absolute)]
  · next relative =>
    rw [isWithin_join_iff (sameStart.trans (Bool.eq_false_iff.mpr relative)),
      mem_parts_extended extension (by decide)]

theorem isWithin_of_leadsDown (extension : IsExtension suffix) (down : LeadsDown name) :
    IsWithin dir (join dir (name ++ suffix)) := by
  rw [isWithin_extended_iff extension, if_neg (by simp [down.relative])]
  exact down.stays

end ClassBench.Path
