import ClassBench.Path

/-! The parts of paths.  Slashes divide a path into its parts, of which it has one more than it has
slashes, and a path is its parts with slashes between them.  The parts of a joined path are those of
both sides, the parts of a parent are a front of those of the path, and a path begins at the top
exactly if its first part is empty and not its only one. -/

namespace ClassBench.Path

variable {path dir right suffix part : String} {front kept : List String}

theorem mem_splitOn {l part : List Char} (mem : part ∈ l.splitOn '/') : '/' ∉ part ∧ part ⊆ l := by
  induction l generalizing part with
  | nil =>
    rw [List.splitOn_nil, List.mem_singleton] at mem
    simp [mem]
  | cons c l ih =>
    rw [List.splitOn_cons_eq_if_modifyHead] at mem
    split at mem
    · rcases List.mem_cons.mp mem with rfl | later
      · simp
      · exact ⟨(ih later).1, List.subset_cons_of_subset c (ih later).2⟩
    · next other =>
      cases parts : l.splitOn '/' with
      | nil => exact absurd parts (List.splitOn_ne_nil '/' l)
      | cons first rest =>
        rw [parts] at mem ih
        rcases List.mem_cons.mp mem with rfl | later
        · obtain ⟨plain, within⟩ := ih (List.mem_cons_self ..)
          refine ⟨?_, List.cons_subset_cons c within⟩
          rw [List.mem_cons, not_or]
          exact ⟨fun same => other (beq_iff_eq.mpr same.symm), plain⟩
        · obtain ⟨plain, within⟩ := ih (List.mem_cons_of_mem _ later)
          exact ⟨plain, List.subset_cons_of_subset c within⟩

theorem not_mem_of_mem_parts (mem : part ∈ parts path) : '/' ∉ part.toList := by
  obtain ⟨chars, split, rfl⟩ := List.mem_map.mp mem
  rw [String.toList_ofList]
  exact (mem_splitOn split).1

theorem subset_of_mem_parts (mem : part ∈ parts path) : part.toList ⊆ path.toList := by
  obtain ⟨chars, split, rfl⟩ := List.mem_map.mp mem
  rw [String.toList_ofList]
  exact (mem_splitOn split).2

theorem parts_ne_nil (path : String) : parts path ≠ [] := by
  simp [parts, List.splitOn_ne_nil]

theorem parts_of_plain (plain : '/' ∉ path.toList) : parts path = [path] := by
  simp [parts, List.splitOn_eq_singleton plain]

theorem parts_empty : parts "" = [""] := parts_of_plain (by simp)

theorem parts_slash (left right : String) :
    parts (left ++ "/" ++ right) = parts left ++ parts right := by
  have chars : (left ++ "/" ++ right).toList = left.toList ++ '/' :: right.toList := by simp
  rw [parts, chars, List.splitOn_append_cons_self, List.map_append, parts, parts]

/-- Parts with slashes between them are a path with these parts. -/
theorem parts_intercalate {ps : List String} (nonempty : ps ≠ [])
    (plain : ∀ p ∈ ps, '/' ∉ p.toList) : parts ("/".intercalate ps) = ps := by
  induction ps with
  | nil => contradiction
  | cons p ps ih =>
    obtain ⟨first, rest⟩ := List.forall_mem_cons.mp plain
    by_cases last : ps = []
    · simp [last, parts_of_plain first]
    · rw [String.intercalate_cons_of_ne_nil last, parts_slash, parts_of_plain first, ih last rest]
      rfl

theorem intercalate_parts (path : String) : "/".intercalate (parts path) = path := by
  have chars : String.toList ∘ String.ofList = id := by
    funext l
    exact String.toList_ofList
  apply String.toList_inj.mp
  rw [String.toList_intercalate, parts, List.map_map, chars, List.map_id]
  exact List.intercalate_splitOn '/'

theorem parts_inj {other : String} : parts path = parts other ↔ path = other := by
  constructor
  · intro same
    rw [← intercalate_parts path, same, intercalate_parts]
  · rintro rfl
    rfl

theorem exists_parts (path : String) : ∃ front last, parts path = front ++ [last] :=
  ⟨_, _, (List.dropLast_concat_getLast (parts_ne_nil path)).symm⟩

/-- A text without slashes behind a path makes its last part longer. -/
theorem parts_append (path : String) (plain : '/' ∉ suffix.toList) :
    ∃ front last, parts path = front ++ [last] ∧
      parts (path ++ suffix) = front ++ [last ++ suffix] := by
  obtain ⟨front, last, split⟩ := exists_parts path
  have whole := intercalate_parts path
  rw [split] at whole
  have lastPlain : '/' ∉ (last ++ suffix).toList := by
    have := not_mem_of_mem_parts (show last ∈ parts path by simp [split])
    simp [this, plain]
  refine ⟨front, last, split, ?_⟩
  by_cases only : front = []
  · subst only
    rw [List.nil_append, String.intercalate_singleton] at whole
    rw [← whole, parts_of_plain lastPlain]
    rfl
  · have frontPlain : ∀ p ∈ front, '/' ∉ p.toList := fun p mem =>
      not_mem_of_mem_parts (show p ∈ parts path by simp [split, mem])
    rw [String.intercalate_append_of_ne_nil only (by simp), String.intercalate_singleton] at whole
    rw [← whole, String.append_assoc, parts_slash, parts_intercalate only frontPlain,
      parts_of_plain lastPlain]

/-! ### The top of all files -/

theorem isAbsolute_iff : isAbsolute path = true ↔ ∃ rest, path = "/" ++ rest := by
  rw [isAbsolute, String.startsWith_string_iff]
  constructor
  · rintro ⟨rest, split⟩
    refine ⟨String.ofList rest, String.toList_inj.mp ?_⟩
    simpa using split.symm
  · rintro ⟨rest, rfl⟩
    rw [String.toList_append]
    exact List.prefix_append _ _

theorem isAbsolute_iff_parts :
    isAbsolute path = true ↔ ∃ rest, rest ≠ [] ∧ parts path = "" :: rest := by
  rw [isAbsolute_iff]
  constructor
  · rintro ⟨rest, rfl⟩
    exact ⟨parts rest, parts_ne_nil rest, parts_slash "" rest⟩
  · rintro ⟨rest, more, split⟩
    refine ⟨"/".intercalate rest, ?_⟩
    rw [← intercalate_parts path, split, String.intercalate_cons_of_ne_nil more]
    rfl

theorem isAbsolute_append (nonempty : path ≠ "") :
    isAbsolute (path ++ right) = isAbsolute path := by
  rw [Bool.eq_iff_iff, isAbsolute, isAbsolute, String.startsWith_string_iff,
    String.startsWith_string_iff, String.toList_append]
  cases chars : path.toList with
  | nil => exact absurd (String.toList_inj.mp chars) nonempty
  | cons c l => simp

theorem isAbsolute_append_plain (plain : '/' ∉ suffix.toList) :
    isAbsolute (path ++ suffix) = isAbsolute path := by
  by_cases empty : path = ""
  · have relative : isAbsolute suffix = false := by
      rw [Bool.eq_false_iff, ne_eq, isAbsolute_iff]
      rintro ⟨rest, rfl⟩
      exact plain (by simp)
    rw [empty, String.empty_append, relative]
    decide +kernel
  · exact isAbsolute_append empty

/-! ### Joined paths -/

theorem endsWith_slash_iff : dir.endsWith "/" = true ↔ ∃ front, dir = front ++ "/" := by
  rw [String.endsWith_eq_endsWith_toSlice, String.Slice.endsWith_string_iff, String.copy_toSlice]
  constructor
  · rintro ⟨front, split⟩
    refine ⟨String.ofList front, String.toList_inj.mp ?_⟩
    simpa using split.symm
  · rintro ⟨front, rfl⟩
    rw [String.toList_append]
    exact List.suffix_append _ _

theorem join_empty : join "" right = right := by
  simp [join]

theorem join_absolute (absolute : isAbsolute right = true) : join dir right = right := by
  simp [join, absolute]

/-- A path is joined behind the parts of the other, but for an empty part behind its last slash. -/
theorem parts_join (relative : isAbsolute right = false) (nonempty : dir ≠ "") :
    ∃ front, front ≠ [] ∧ (parts dir = front ∨ parts dir = front ++ [""]) ∧
      parts (join dir right) = front ++ parts right := by
  rw [join, if_neg (by simp [relative])]
  by_cases ends : dir.endsWith "/"
  · obtain ⟨front, rfl⟩ := endsWith_slash_iff.mp ends
    rw [if_pos (.inr ends)]
    have before : parts (front ++ "/") = parts front ++ [""] := by
      simpa [parts_empty] using parts_slash front ""
    exact ⟨parts front, parts_ne_nil front, .inr before, parts_slash front right⟩
  · rw [if_neg (by simp [nonempty, ends])]
    exact ⟨parts dir, parts_ne_nil dir, .inl rfl, parts_slash dir right⟩

theorem isAbsolute_join (relative : isAbsolute right = false) :
    isAbsolute (join dir right) = isAbsolute dir := by
  by_cases empty : dir = ""
  · rw [empty, join_empty, relative]
    decide +kernel
  · rw [join, if_neg (by simp [relative])]
    split
    · exact isAbsolute_append empty
    · rw [String.append_assoc]
      exact isAbsolute_append empty

/-- A text without slashes behind the right side of a join stands behind the whole. -/
theorem join_append (plain : '/' ∉ suffix.toList) :
    join dir (right ++ suffix) = join dir right ++ suffix := by
  rw [join, isAbsolute_append_plain plain, join]
  split
  · rfl
  · split <;> simp [String.append_assoc]

/-! ### Names of files -/

/-- Behind any part the text makes the name of a file: it has no slash, and is longer than the parts
that name no file. -/
structure IsExtension (suffix : String) : Prop where
  plain : '/' ∉ suffix.toList
  long : 2 < suffix.length

theorem IsExtension.of_decide (h : '/' ∉ suffix.toList ∧ 2 < suffix.length) : IsExtension suffix :=
  ⟨h.1, h.2⟩

theorem IsExtension.append_ne (extension : IsExtension suffix) {last word : String}
    (short : word.length ≤ 2) : last ++ suffix ≠ word := by
  rintro rfl
  have := extension.long
  rw [String.length_append] at short
  omega

/-- The path makes no detour: no part of it, but possibly the last, is empty, stays where it is or
leads up. -/
def IsPlain (path : String) : Prop :=
  ∀ part ∈ (parts path).dropLast, part ≠ "" ∧ part ≠ "." ∧ part ≠ ".."

theorem IsPlain.relative (plain : IsPlain path) : isAbsolute path = false := by
  rw [Bool.eq_false_iff, ne_eq, isAbsolute_iff_parts]
  rintro ⟨rest, more, split⟩
  refine (plain "" ?_).1 rfl
  rw [split, List.dropLast_cons_of_ne_nil more]
  exact List.mem_cons_self ..

/-- The path does not begin at the top of all files, and no part of it leads up, but possibly the
last. -/
structure LeadsDown (path : String) : Prop where
  relative : isAbsolute path = false
  stays : ".." ∉ (parts path).dropLast

instance (path : String) : Decidable (LeadsDown path) :=
  decidable_of_iff (isAbsolute path = false ∧ ".." ∉ (parts path).dropLast)
    ⟨fun h => ⟨h.1, h.2⟩, fun h => ⟨h.relative, h.stays⟩⟩

theorem IsPlain.leadsDown (plain : IsPlain path) : LeadsDown path :=
  ⟨plain.relative, fun mem => (plain ".." mem).2.2 rfl⟩

theorem LeadsDown.append (down : LeadsDown path) (plain : '/' ∉ suffix.toList) :
    LeadsDown (path ++ suffix) := by
  obtain ⟨front, last, split, longer⟩ := parts_append path plain
  refine ⟨(isAbsolute_append_plain plain).trans down.relative, ?_⟩
  rw [longer, List.dropLast_concat]
  simpa only [split, List.dropLast_concat] using down.stays

theorem exists_of_parts {front : List String} {last : String}
    (split : parts path = front ++ [last ++ suffix]) : ∃ rest, path = rest ++ suffix := by
  rw [← intercalate_parts path, split]
  by_cases only : front = []
  · exact ⟨last, by simp [only]⟩
  · refine ⟨"/".intercalate front ++ "/" ++ last, ?_⟩
    rw [String.intercalate_append_of_ne_nil only (by simp), String.intercalate_singleton,
      ← String.append_assoc]

theorem IsPlain.append (plain : IsPlain path) (short : '/' ∉ suffix.toList) :
    IsPlain (path ++ suffix) := by
  obtain ⟨front, last, split, longer⟩ := parts_append path short
  intro part mem
  rw [longer, List.dropLast_concat] at mem
  refine plain part ?_
  rwa [split, List.dropLast_concat]

/-- What a joined path ends with its right side ends with too, unless there is a slash in it. -/
theorem ends_of_join (plain : '/' ∉ suffix.toList) {rest : String}
    (ends : join dir right = rest ++ suffix) : ∃ rest, right = rest ++ suffix := by
  by_cases absolute : isAbsolute right = true
  · exact ⟨rest, (join_absolute absolute).symm.trans ends⟩
  by_cases empty : dir = ""
  · exact ⟨rest, by rw [← ends, empty, join_empty]⟩
  obtain ⟨before, -, -, joined⟩ := parts_join (Bool.eq_false_iff.mpr absolute) empty
  obtain ⟨front, last, split⟩ := exists_parts right
  obtain ⟨front', last', -, longer⟩ := parts_append rest plain
  rw [ends, longer, split, ← List.append_assoc] at joined
  obtain rfl : last' ++ suffix = last := List.singleton_inj.mp (List.append_inj_right' joined rfl)
  exact exists_of_parts split

/-- The parts of a path that an extension stands behind are those of the path, but for the last
one. -/
theorem mem_parts_extended (extension : IsExtension suffix) {word : String}
    (short : word.length ≤ 2) :
    word ∈ parts (path ++ suffix) ↔ word ∈ (parts path).dropLast := by
  obtain ⟨front, last, split, longer⟩ := parts_append path extension.plain
  rw [split, longer, List.dropLast_concat, List.mem_append, List.mem_singleton]
  exact or_iff_left fun same => extension.append_ne short same.symm

/-! ### Parents -/

theorem prefix_trimEnd (ps : List String) : trimEnd ps <+: ps := by
  cases ps with
  | nil => exact List.prefix_rfl
  | cons first rest =>
    rw [trimEnd, List.prefix_cons_inj, ← List.reverse_suffix, List.reverse_reverse]
    exact List.dropWhile_suffix _

theorem parent_eq (path : String) : parent path =
    if trimEnd (parts path).dropLast = [""] then "/"
    else "/".intercalate (trimEnd (parts path).dropLast) := by
  unfold parent
  split
  · next top => rw [if_pos top]
  · next other => rw [if_neg other]

/-- A parent has a front of the parts of the path, but for an empty part behind it where the front
is too short to be written otherwise. -/
theorem parts_parent (path : String) : ∃ kept, kept <+: parts path ∧
    (parts (parent path) = kept ∨ parts (parent path) = kept ++ [""]) := by
  have front := (prefix_trimEnd (parts path).dropLast).trans (List.dropLast_prefix _)
  refine ⟨_, front, ?_⟩
  rw [parent_eq]
  split
  · next top =>
    rw [top]
    exact .inr (parts_slash "" "")
  · by_cases empty : trimEnd (parts path).dropLast = []
    · rw [empty]
      exact .inr parts_empty
    · exact .inl (parts_intercalate empty fun _ mem => not_mem_of_mem_parts (front.mem mem))

theorem isAbsolute_parent (path : String) : isAbsolute (parent path) = isAbsolute path := by
  obtain ⟨front, last, split⟩ := exists_parts path
  have plain : ∀ p ∈ front, '/' ∉ p.toList := fun p mem =>
    not_mem_of_mem_parts (show p ∈ parts path by simp [split, mem])
  rw [Bool.eq_iff_iff, @isAbsolute_iff_parts path, parent_eq, split, List.dropLast_concat]
  cases front with
  | nil =>
    rw [if_neg (by decide)]
    simp [trimEnd, isAbsolute_iff_parts, parts_empty]
  | cons first rest =>
    have kept := prefix_trimEnd (first :: rest)
    rw [trimEnd] at kept ⊢
    generalize (rest.reverse.dropWhile fun part => part = "" ∨ part = ".").reverse = back at kept ⊢
    by_cases top : first = ""
    · subst top
      have begins :
          isAbsolute (if "" :: back = [""] then "/" else "/".intercalate ("" :: back)) := by
        split
        · exact isAbsolute_iff.mpr ⟨"", rfl⟩
        · next more =>
          have nonempty : back ≠ [] := fun empty => more (by rw [empty])
          exact isAbsolute_iff.mpr ⟨_, String.intercalate_cons_of_ne_nil nonempty⟩
      simpa using begins
    · rw [if_neg (by simp [top]), isAbsolute_iff_parts,
        parts_intercalate (by simp) fun p mem => plain p (kept.mem mem)]
      simp [top]

end ClassBench.Path
