import ClassBench.Proofs.Pool.Raw

/-! Two ways to look for a class in an index.  One takes the names of all classes out of the bytes,
the other compares each name where it stands, its length before its bytes.  They agree where slot 0
is empty and a text is as long as the length in front of it says, and an index that is made of bytes
is always like that. -/

namespace ClassBench

namespace RawEntry

variable {e : RawEntry} {bytes text : Bytes} {offset : Nat}

/-- A text is as long as the length in front of it says. -/
def Whole (e : RawEntry) : Prop :=
  e.kind = .utf8 → ∃ raw : Bytes,
    e.payload = Bytes.ofUInt16 raw.length.toUInt16 ++ raw ∧ raw.length ≤ 65535

theorem whole_of_read? (found : read? offset bytes = some e) : e.Whole := by
  intro isText
  obtain ⟨rest, -, length⟩ := read?_eq_some found
  exact payload_of_text isText length

/-- A text is the same compared where it stands as taken out of the bytes. -/
theorem isText_iff (whole : e.Whole) : e.isText text = true ↔ e.text? = some text := by
  unfold isText RawEntry.text?
  by_cases isText : e.kind = .utf8
  · obtain ⟨raw, payload, short⟩ := whole isText
    have told : e.payload.u16At? 0 = some raw.length.toUInt16 := by
      rw [payload]
      exact Bytes.u16At?_length [] raw _
    have length : raw.length.toUInt16.toNat = raw.length := by
      simp only [UInt16.toNat_ofNat']
      omega
    have inner : e.payload.drop 2 = raw := by
      rw [payload]
      rfl
    have slice : e.payload.slice? 2 raw.length = some raw := by
      rw [payload]
      exact Bytes.slice?_length (Bytes.ofUInt16 raw.length.toUInt16) raw
    simp only [isText, ne_eq, not_true_eq_false, if_false, if_true, told, length, inner,
      Option.some.injEq]
    -- At the same length the slice is all that stands behind it.
    by_cases same : raw.length = text.length
    · rw [← same, slice]
      simp
    · have other : raw ≠ text := fun equal => same (congrArg List.length equal)
      simp [same, other]
  · simp [isText]

end RawEntry

namespace PoolIndex

variable {declared offset : Nat} {slots : Array (Option RawEntry)} {bytes name : Bytes}
  {index : PoolIndex} {slot : UInt16} {e : RawEntry}

theorem entry?_eq (index : PoolIndex) (slot : UInt16) :
    index.entry? slot = index.slots.toList[slot.toNat]?.join := by
  rw [Array.getElem?_toList]
  rfl

/-! ### What is kept while entries are indexed -/

/-- Slot 0 is empty and every entry is whole. -/
structure Intact (index : PoolIndex) : Prop where
  reserved : index.entry? 0 = none
  whole : ∀ e, some e ∈ index.slots.toList → e.Whole

theorem Intact.whole_of_held (intact : index.Intact) (held : index.entry? slot = some e) :
    e.Whole := by
  rw [entry?_eq, Option.join_eq_some_iff] at held
  exact intact.whole e (List.mem_of_getElem? held)

theorem intact_fill (reserved : slots.toList[0]? = some none)
    (whole : ∀ e, some e ∈ slots.toList → e.Whole) :
    (fill declared offset slots bytes).Intact := by
  fun_induction fill declared offset slots bytes with
  | case1 offset slots bytes more e found ih =>
    apply ih
    · rw [RawEntry.toList_extend,
        List.getElem?_append_left (List.getElem?_eq_some_iff.mp reserved).1, reserved]
    · intro e' held
      rw [RawEntry.toList_extend, List.mem_append, RawEntry.mem_slots] at held
      rcases held with before | rfl
      · exact whole e' before
      · exact RawEntry.whole_of_read? found
  | case2 | case3 =>
    refine ⟨?_, whole⟩
    rw [entry?_eq]
    exact congrArg Option.join reserved

theorem intact_parseLenient (b : Bytes) : (parseLenient b).Intact := by
  have nothing : ∀ e, some e ∈ (#[none] : Array (Option RawEntry)).toList → e.Whole := by simp
  unfold parseLenient
  split
  · exact intact_fill rfl nothing
  · exact ⟨rfl, nothing⟩

/-! ### Classes by their names -/

theorem classNameBytes?_iff : index.classNameBytes? slot = some name ↔
    ∃ e text, index.entry? slot = some e ∧ e.kind = .classRef ∧ e.payload.u16At? 0 = some text ∧
      index.textBytes? text = some name := by
  unfold classNameBytes?
  cases index.entry? slot with
  | none => simp
  | some e => by_cases isClass : e.kind = .classRef <;> simp [isClass, Option.bind_eq_some_iff]

theorem mem_candidates (few : index.slots.size ≤ 65535) :
    slot ∈ index.candidates ↔ 0 < slot.toNat ∧ slot.toNat < index.slots.size := by
  have count : index.itemCount.toNat = index.slots.size := by
    simp only [itemCount, UInt16.toNat_ofNat']
    omega
  simp only [candidates, count, List.mem_map, List.mem_range'_1]
  constructor
  · rintro ⟨i, range, rfl⟩
    simp only [UInt16.toNat_ofNat']
    omega
  · intro range
    exact ⟨slot.toNat, by omega, UInt16.ofNat_toNat⟩

section Intact

variable (intact : index.Intact)
include intact

theorem mem_candidates_of_held (few : index.slots.size ≤ 65535)
    (held : index.entry? slot = some e) : slot ∈ index.candidates := by
  rw [mem_candidates few]
  constructor
  · by_contra zero
    obtain rfl : slot = 0 := UInt16.toNat_inj.mp (Nat.eq_zero_of_not_pos zero)
    rw [intact.reserved] at held
    cases held
  · by_contra behind
    unfold entry? at held
    rw [Array.getElem?_eq_none (Nat.le_of_not_lt behind)] at held
    cases held

/-- The name of a class is the same compared where it stands as taken out of the bytes. -/
theorem leadsToText_iff (held : index.entry? slot = some e) (isClass : e.kind = .classRef) :
    index.leadsToText e name = true ↔ index.classNameBytes? slot = some name := by
  simp only [leadsToText, classNameBytes?, held, isClass, if_true, Option.bind_eq_bind,
    Option.bind_some]
  cases told : e.payload.u16At? 0 with
  | none => simp
  | some text =>
    simp only [Option.bind_some, textBytes?]
    by_cases zero : text = 0
    · -- No text is at slot 0, so that there is none to be taken out either.
      simp [zero, intact.reserved]
    · rw [if_neg zero]
      cases found : index.entry? text with
      | none => simp
      | some named => exact RawEntry.isText_iff (intact.whole_of_held found)

/-- A class is found by exactly the names that are taken out of the bytes. -/
theorem references_iff_mem : index.references name = true ↔ name ∈ index.classReferences := by
  simp only [references, classReferences, List.any_eq_true, List.mem_filterMap]
  refine exists_congr fun slot => and_congr_right fun _ => ?_
  cases held : index.entry? slot with
  | none => simp [classNameBytes?_iff, held]
  | some e =>
    by_cases isClass : e.kind = .classRef
    · simp [isClass, leadsToText_iff intact held isClass]
    · simp [classNameBytes?_iff, held, isClass]

/-- An index whose count is not cut to the word finds every class in it. -/
theorem references_iff (few : index.slots.size ≤ 65535) :
    index.references name = true ↔ ∃ slot, index.classNameBytes? slot = some name := by
  rw [references_iff_mem intact, classReferences, List.mem_filterMap]
  refine exists_congr fun slot => and_iff_right_of_imp fun named => ?_
  obtain ⟨e, -, held, -⟩ := classNameBytes?_iff.mp named
  exact mem_candidates_of_held intact few held

end Intact

theorem references_of_wrapped (wrapped : index.slots.size = 65536) :
    index.references name = false := by
  have empty : index.candidates = [] := by
    rw [candidates, itemCount, wrapped]
    rfl
  rw [references, empty]
  rfl

end PoolIndex

end ClassBench
