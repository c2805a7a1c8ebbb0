import ClassBench.Proofs.Bytes
import ClassBench.Proofs.Pool.Agreement

/-! What an index tells of the bytes it was made of.  Every entry of an index stands in the bytes,
its tag in front of its offset and its payload behind, and it is as long as they say.  So the
classes that the index can be asked for are those that its offsets lead to, whatever bytes it was
made of, unless the index has more slots than a word can count. -/

namespace ClassBench

namespace RawEntry

variable {b front bytes raw : Bytes} {e e' : RawEntry} {count i : Nat}

/-- An entry stands in the bytes: its payload at its offset and its tag in front of it, and it is as
long as they say. -/
def Stands (b : Bytes) (e : RawEntry) : Prop :=
  ∃ front rest, b = front ++ (e.bytes ++ rest) ∧ e.offset = front.length + 1 ∧
    payloadLength? e.kind (e.payload ++ rest) = some e.payload.length

theorem offset_of_read? {offset : Nat} (found : read? offset bytes = some e) :
    e.offset = offset + 1 := by
  cases bytes with
  | nil => cases found
  | cons tag behind =>
    simp only [read?, Option.bind_eq_bind, Option.bind_eq_some_iff] at found
    obtain ⟨kind, -, length, -, found⟩ := found
    split at found
    · cases found
      rfl
    · cases found

theorem stands_of_read? (found : read? front.length bytes = some e) :
    e.Stands (front ++ bytes) := by
  obtain ⟨rest, rfl, length⟩ := read?_eq_some found
  exact ⟨front, rest, rfl, offset_of_read? found, length⟩

theorem stands_of_mem_row (member : e ∈ row count front.length bytes) :
    e.Stands (front ++ bytes) := by
  induction count generalizing front bytes with
  | zero => cases member
  | succ count ih =>
    rw [row] at member
    split at member
    · next first found =>
      rcases List.mem_cons.mp member with rfl | later
      · exact stands_of_read? found
      · obtain ⟨rest, rfl, -⟩ := read?_eq_some found
        rw [List.drop_left, ← List.length_append] at later
        rw [← List.append_assoc]
        exact ih later
    · cases member

theorem getElem?_slots : e.slots[i]? = some (some e') ↔ i = 0 ∧ e = e' := by
  unfold slots
  split <;> rcases i with _ | _ | i <;> simp

theorem slots_length_wide (wide : e.kind.isWide = true) : e.slots.length = 2 := by
  rw [slots, if_pos wide]
  rfl

/-- A wide entry is followed by a slot. -/
theorem lt_length_of_wide {raws : List RawEntry}
    (held : (raws.flatMap slots)[i]? = some (some e)) (wide : e.kind.isWide = true) :
    i + 1 < (raws.flatMap slots).length := by
  obtain ⟨inside, -⟩ := List.getElem?_eq_some_iff.mp held
  obtain ⟨front, e', back, rfl, first, last⟩ := List.exists_around_flatMap inside
  rw [List.getElem?_around_flatMap first last, getElem?_slots] at held
  obtain ⟨start, rfl⟩ := held
  rw [List.flatMap_append, List.flatMap_cons]
  have width := slots_length_wide wide
  simp only [List.length_append, width]
  omega

namespace Stands

theorem offset_ne (stands : e.Stands b) : e.offset ≠ 0 := by
  obtain ⟨front, rest, -, offset, -⟩ := stands
  omega

theorem tag (stands : e.Stands b) : b[e.offset - 1]? = some e.kind.tag := by
  obtain ⟨front, rest, rfl, offset, -⟩ := stands
  rw [offset, Nat.add_sub_cancel, List.getElem?_append_right (Nat.le_refl _), Nat.sub_self]
  rfl

theorem drop (stands : e.Stands b) : ∃ rest, b.drop e.offset = e.payload ++ rest ∧
    payloadLength? e.kind (e.payload ++ rest) = some e.payload.length := by
  obtain ⟨front, rest, rfl, offset, length⟩ := stands
  refine ⟨rest, ?_, length⟩
  rw [offset, ← List.drop_drop, List.drop_left]
  rfl

theorem u16At? (stands : e.Stands b) (isClass : e.kind = .classRef) :
    b.u16At? e.offset = e.payload.u16At? 0 := by
  obtain ⟨rest, behind, length⟩ := stands.drop
  rw [isClass] at length
  unfold Bytes.u16At?
  rw [behind, List.drop_zero]
  match e.payload, length with
  | [_, _], _ => rfl

/-- A text that is indexed is the length in front of it and as many bytes. -/
theorem text?_iff (stands : e.Stands b) (isText : e.kind = .utf8) :
    e.text? = some raw ↔ ∃ length, b.u16At? e.offset = some length ∧ raw.length = length.toNat ∧
      raw <+: b.drop (e.offset + 2) := by
  obtain ⟨rest, behind, length⟩ := stands.drop
  obtain ⟨held, payload, short⟩ := payload_of_text isText length
  rw [payload, List.append_assoc] at behind
  have full : held.length.toUInt16.toNat = held.length := by
    simp only [UInt16.toNat_ofNat']
    omega
  have told : b.u16At? e.offset = some held.length.toUInt16 := by
    have word := Bytes.u16At?_length [] (held ++ rest) held.length.toUInt16
    rwa [List.nil_append, ← behind] at word
  have inner : b.drop (e.offset + 2) = held ++ rest := by
    rw [← List.drop_drop, behind]
    rfl
  have known : e.text? = some held := by
    rw [text?, if_pos isText, payload]
    rfl
  rw [known, told, inner]
  constructor
  · intro same
    obtain rfl := Option.some.inj same
    exact ⟨_, rfl, full.symm, List.prefix_append _ _⟩
  · rintro ⟨_, same, length, front⟩
    obtain rfl := Option.some.inj same
    obtain ⟨more, split⟩ := front
    rw [(List.append_inj split (length.trans full)).1]

end Stands

end RawEntry

namespace PoolIndex

variable {b bytes raw name : Bytes} {declared offset limit : Nat} {slot text : UInt16}
  {slots : Array (Option RawEntry)} {kind : ConstantKind} {e : RawEntry}

/-! ### The slots of an index -/

/-- Only a wide entry passes over a limit of the declared count. -/
theorem size_fill (offset : Nat) (bytes : Bytes) (few : declared ≤ limit)
    (small : slots.size ≤ limit) :
    let index := fill declared offset slots bytes
    index.slots.size ≤ limit ∨ index.slots.size = limit + 1 ∧
      ∃ e, index.slots[limit - 1]? = some (some e) ∧ e.kind.isWide = true := by
  fun_induction fill declared offset slots bytes with
  | case1 offset slots bytes more e found ih =>
    by_cases within : (RawEntry.extend slots e).size ≤ limit
    · exact ih within
    -- An entry that goes past the limit takes two slots and begins at the last one before it.
    · right
      have ends : ¬(RawEntry.extend slots e).size < declared := by omega
      rw [fill, if_neg ends]
      unfold RawEntry.extend at within ⊢
      split at within
      · next wide =>
        rw [Array.size_push, Array.size_push] at within
        obtain rfl : limit = slots.size + 1 := by omega
        have next : slots.size ≠ (slots.push (some e)).size := by
          rw [Array.size_push]
          omega
        rw [if_pos wide, Array.size_push, Array.size_push, Nat.add_sub_cancel]
        refine ⟨rfl, e, ?_, wide⟩
        rw [Array.getElem?_push, if_neg next, Array.getElem?_push_size]
      · rw [Array.size_push] at within
        omega
  | case2 => exact .inl small
  | case3 => exact .inl small

/-- Behind slot 0 an index has entries that stand in the bytes. -/
theorem exists_entries (b : Bytes) : ∃ raws : List RawEntry, (parseLenient b).slots.toList =
    none :: raws.flatMap RawEntry.slots ∧ ∀ e ∈ raws, e.Stands b := by
  unfold parseLenient
  split
  · next declared told =>
    have enough := Bytes.isSome_u16At?.mp (Option.isSome_of_eq_some told)
    obtain ⟨count, all⟩ :=
      toList_fill declared.toNat (countOffset + 2) #[none] (b.drop (countOffset + 2))
    refine ⟨_, all, fun e member => ?_⟩
    have here : e ∈ RawEntry.row count (b.take (countOffset + 2)).length
        (b.drop (countOffset + 2)) := by
      rwa [List.length_take, Nat.min_eq_left enough]
    have stands := RawEntry.stands_of_mem_row here
    rwa [List.take_append_drop] at stands
  · exact ⟨[], rfl, by simp⟩

theorem stands_of_held (held : entry? (parseLenient b) slot = some e) : e.Stands b := by
  obtain ⟨raws, all, stand⟩ := exists_entries b
  rw [entry?_eq, all, Option.join_eq_some_iff] at held
  rcases List.mem_cons.mp (List.mem_of_getElem? held) with absent | member
  · cases absent
  · obtain ⟨e', here, slot⟩ := List.mem_flatMap.mp member
    obtain rfl := RawEntry.mem_slots.mp slot
    exact stand e' here

theorem entry?_zero (b : Bytes) : entry? (parseLenient b) 0 = none :=
  (intact_parseLenient b).reserved

/-- An index has at most 65535 slots unless a wide entry stands at slot 65534, and then it ends
behind that. -/
theorem size_parseLenient (b : Bytes) :
    (parseLenient b).slots.size ≤ 65535 ∨ (parseLenient b).slots.size = 65536 ∧
      ∃ e, entry? (parseLenient b) 65534 = some e ∧ e.kind.isWide = true := by
  unfold parseLenient
  split
  · next declared _ =>
    have few : declared.toNat ≤ 65535 := Nat.le_of_lt_succ declared.toNat_lt
    have small : (#[none] : Array (Option RawEntry)).size ≤ 65535 := by decide
    rcases size_fill (countOffset + 2) (b.drop (countOffset + 2)) few small with
      within | ⟨size, e, held, wide⟩
    · exact .inl within
    · exact .inr ⟨size, e, congrArg Option.join held, wide⟩
  · exact .inl (by decide : 1 ≤ 65535)

theorem lt_size_of_wide (held : entry? (parseLenient b) slot = some e)
    (wide : e.kind.isWide = true) : slot.toNat + 1 < (parseLenient b).slots.size := by
  obtain ⟨raws, all, -⟩ := exists_entries b
  rw [entry?_eq, all, Option.join_eq_some_iff] at held
  rw [← Array.length_toList, all, List.length_cons]
  cases place : slot.toNat with
  | zero =>
    rw [place] at held
    cases held
  | succ i =>
    rw [place] at held
    exact Nat.succ_lt_succ (RawEntry.lt_length_of_wide held wide)

/-! ### What the bytes say of a slot -/

/-- An entry is indexed at the slot, and its tag in the bytes is that of the kind. -/
def HasKind (index : PoolIndex) (b : Bytes) (slot : UInt16) (kind : ConstantKind) : Prop :=
  index.item slot ≠ 0 ∧ b[index.item slot - 1]? = some kind.tag

/-- A class is indexed at the slot, and its name is at the other slot. -/
def NamesText (index : PoolIndex) (b : Bytes) (slot text : UInt16) : Prop :=
  index.HasKind b slot .classRef ∧ b.u16At? (index.item slot) = some text

/-- A text is indexed at the slot, and these bytes are what stands there behind their length. -/
def HoldsText (index : PoolIndex) (b : Bytes) (slot : UInt16) (raw : Bytes) : Prop :=
  index.HasKind b slot .utf8 ∧ ∃ length, b.u16At? (index.item slot) = some length ∧
    raw.length = length.toNat ∧ raw <+: b.drop (index.item slot + 2)

theorem hasKind_iff : (parseLenient b).HasKind b slot kind ↔
    ∃ e, entry? (parseLenient b) slot = some e ∧ e.kind = kind := by
  unfold HasKind item
  cases held : entry? (parseLenient b) slot with
  | none => simp
  | some e =>
    have stands := stands_of_held held
    simp only [ne_eq, stands.offset_ne, not_false_eq_true, true_and, stands.tag, Option.some.injEq,
      exists_eq_left']
    constructor
    · intro tags
      have kinds := congrArg ConstantKind.ofTag? tags
      simpa using kinds
    · rintro rfl
      rfl

theorem namesText_iff : (parseLenient b).NamesText b slot text ↔
    ∃ e, entry? (parseLenient b) slot = some e ∧ e.kind = .classRef ∧
      e.payload.u16At? 0 = some text := by
  unfold NamesText
  rw [hasKind_iff]
  constructor
  · rintro ⟨⟨e, held, isClass⟩, named⟩
    rw [item, held, (stands_of_held held).u16At? isClass] at named
    exact ⟨e, held, isClass, named⟩
  · rintro ⟨e, held, isClass, named⟩
    rw [item, held, (stands_of_held held).u16At? isClass]
    exact ⟨⟨e, rfl, isClass⟩, named⟩

theorem holdsText_iff : (parseLenient b).HoldsText b slot raw ↔
    (parseLenient b).textBytes? slot = some raw := by
  unfold HoldsText
  rw [hasKind_iff]
  constructor
  · rintro ⟨⟨e, held, isText⟩, spelled⟩
    rw [item, held] at spelled
    rw [textBytes?, held]
    exact ((stands_of_held held).text?_iff isText).mpr spelled
  · intro known
    obtain ⟨e, held, known⟩ := Option.bind_eq_some_iff.mp known
    have isText : e.kind = .utf8 := by
      by_contra other
      rw [RawEntry.text?, if_neg other] at known
      cases known
    rw [item, held]
    exact ⟨⟨e, rfl, isText⟩, ((stands_of_held held).text?_iff isText).mp known⟩

theorem classNameBytes?_iff_indexed : (parseLenient b).classNameBytes? slot = some raw ↔
    ∃ text, (parseLenient b).NamesText b slot text ∧ (parseLenient b).HoldsText b text raw := by
  simp only [classNameBytes?_iff, namesText_iff, holdsText_iff]
  constructor
  · rintro ⟨e, text, held, isClass, told, spelled⟩
    exact ⟨text, ⟨e, held, isClass, told⟩, spelled⟩
  · rintro ⟨text, ⟨e, held, isClass, told⟩, spelled⟩
    exact ⟨e, text, held, isClass, told, spelled⟩

/-- A class is found by a name exactly if the bytes have it at some slot of the index, and its name
at another, unless the index has a wide entry at slot 65534: then none is found. -/
theorem references_iff_indexed (b name : Bytes) :
    let index := parseLenient b
    index.references name = true ↔
      (∃ slot text, index.NamesText b slot text ∧ index.HoldsText b text name) ∧
        ¬∃ kind, kind.isWide = true ∧ index.HasKind b 65534 kind := by
  intro index
  -- The number of slots fits the word that the search goes up to, or it is cut to zero.
  rcases size_parseLenient b with few | ⟨many, e, held, wide⟩
  · have narrow : ¬∃ kind, kind.isWide = true ∧ index.HasKind b 65534 kind := by
      rintro ⟨kind, wide, marked⟩
      obtain ⟨e, held, rfl⟩ := hasKind_iff.mp marked
      exact Nat.not_lt.mpr few (lt_size_of_wide held wide)
    rw [references_iff (intact_parseLenient b) few, and_iff_left narrow]
    exact exists_congr fun slot => classNameBytes?_iff_indexed
  · have across : ∃ kind, kind.isWide = true ∧ index.HasKind b 65534 kind :=
      ⟨e.kind, wide, hasKind_iff.mpr ⟨e, held, rfl⟩⟩
    refine iff_of_false ?_ fun found => found.2 across
    rw [references_of_wrapped many]
    exact Bool.false_ne_true

theorem misses_classesAround {n : Nat} (many : n = 65531) :
    let b : Bytes := [0xCA, 0xFE, 0xBA, 0xBE, 0, 0, 0, 52] ++ (Bytes.ofUInt16 65535 ++
      (Pool.classesAround "A" n 0).flatMap Constant.encode)
    let index := parseLenient b
    index.NamesText b 2 1 ∧ index.HoldsText b 1 [65] ∧ index.references [65] = false := by
  intro b index
  have text : (Constant.utf8 "A").encode = [1, 0, 1, 65] := by decide +kernel
  have short : (Constant.utf8 "A").Fits := by decide +kernel
  have spelled := Pool.spells_encode (Pool.fits_classesAround (n := n) (m := 0) short)
  have runs : Pool.Runs (· < 65535) 1 (Pool.classesAround "A" n 0) := by
    refine Pool.Runs.around ?_ ?_ ?_
    all_goals omega
  have behind : b.drop (countOffset + 2) =
      (Pool.classesAround "A" n 0).flatMap Constant.encode ++ [] := (List.append_nil _).symm
  have told : b.u16At? countOffset = some 65535 := Bytes.u16At?_length _ _ _
  have slots := slots_of_spells told behind spelled runs
  have size : index.slots.size = 65536 := by
    have width := RawEntry.length_slots (RawEntry.row_of_spells spelled (countOffset + 2) []).1
    rw [← Array.length_toList, slots, List.length_cons, width, Pool.length_classesAround]
    omega
  obtain ⟨rest, front⟩ : ∃ rest, index.slots.toList =
      none :: some ⟨11, .utf8, [0, 1, 65]⟩ :: some ⟨15, .classRef, [0, 1]⟩ :: rest := by
    rw [slots, List.append_nil, Pool.classesAround, List.flatMap_cons, List.flatMap_cons, text]
    exact ⟨_, rfl⟩
  refine ⟨namesText_iff.mpr ⟨⟨15, .classRef, [0, 1]⟩, ?_, rfl, rfl⟩, holdsText_iff.mpr ?_,
    references_of_wrapped size⟩
  · rw [entry?_eq, front]
    rfl
  · rw [textBytes?, entry?_eq, front]
    rfl

/-- A class is at a slot, and its name at another, but it is not found because a wide entry stands
at slot 65534. -/
theorem references_misses_indexed :
    let b : Bytes := [0xCA, 0xFE, 0xBA, 0xBE, 0, 0, 0, 52] ++ (Bytes.ofUInt16 65535 ++
      (Pool.classesAround "A" 65531 0).flatMap Constant.encode)
    let index := parseLenient b
    index.NamesText b 2 1 ∧ index.HoldsText b 1 [65] ∧ index.references [65] = false :=
  misses_classesAround rfl

end PoolIndex

end ClassBench
