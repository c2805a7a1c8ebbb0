import ClassBench.Proofs.Pool.Indexed

/-! The index of whatever bytes there are.  Whole entries of known kinds stand one behind the other
in the bytes, up to the first place where none stands, and the index has the offset of each of them
in its slot.  More bytes behind a front only add entries to the index of the front, so that a class
that is found in the front is found in the whole. -/

namespace ClassBench

namespace PoolIndex

/-- An entry of the kind stands at the offset: its tag, and behind it so many bytes, as the kind or
the length in front of a text asks for. -/
structure EntryAt (b : Bytes) (offset : Nat) (kind : ConstantKind) (length : Nat) : Prop where
  tag : b[offset]? = some kind.tag
  told : kind.payloadLength? = some length ∨
    kind = .utf8 ∧ ∃ n, b.u16At? (offset + 1) = some n ∧ length = 2 + n.toNat
  whole : offset + 1 + length ≤ b.length

/-- Entries stand one behind the other from an offset up to `stop`, and these are the items of their
slots: the offset behind its tag for each entry, and zero for the slot that follows a wide one. -/
inductive Tiles (b : Bytes) (stop : Nat) : (offset : Nat) → (items : List Nat) → Prop
  | nil : Tiles b stop stop []
  | cons {offset length : Nat} {kind : ConstantKind} {items : List Nat}
      (entry : EntryAt b offset kind length) (rest : Tiles b stop (offset + 1 + length) items) :
      Tiles b stop offset ((offset + 1) :: if kind.isWide then 0 :: items else items)

/-- The items of all slots. -/
def items (index : PoolIndex) : List Nat :=
  (List.range index.slots.size).map fun i => index.item i.toUInt16

end PoolIndex

namespace RawEntry

variable {b bytes front : Bytes} {offset length i : Nat} {kind : ConstantKind} {e : RawEntry}

/-! ### One entry -/

theorem payloadLength?_eq_some : payloadLength? kind (b.drop (offset + 1)) = some length ↔
    kind.payloadLength? = some length ∨
      kind = .utf8 ∧ ∃ n, b.u16At? (offset + 1) = some n ∧ length = 2 + n.toNat := by
  unfold payloadLength?
  rw [Bytes.u16At?_drop, Nat.add_zero]
  cases kind with
  | utf8 =>
    simp only [ConstantKind.payloadLength?, Option.map_eq_some_iff, reduceCtorEq, true_and,
      false_or]
    exact exists_congr fun n => and_congr_right fun _ => eq_comm
  | _ => simp [ConstantKind.payloadLength?]

theorem payloadLength?_append (more : Bytes) (told : payloadLength? kind bytes = some length) :
    payloadLength? kind (bytes ++ more) = some length := by
  unfold payloadLength? at told ⊢
  split at told
  · exact told
  · obtain ⟨n, word, rfl⟩ := Option.map_eq_some_iff.mp told
    rw [Bytes.u16At?_append more word]
    rfl

/-- An entry that is read is read in the same way when there are more bytes. -/
theorem read?_append (more : Bytes) (found : read? offset bytes = some e) :
    read? offset (bytes ++ more) = some e := by
  obtain ⟨rest, rfl, told⟩ := read?_eq_some found
  have longer := payloadLength?_append more told
  rw [List.append_assoc] at longer
  rw [List.append_assoc]
  refine (read?_eq longer).trans ?_
  rw [← offset_of_read? found]

theorem Stands.entryAt (stands : e.Stands b) :
    PoolIndex.EntryAt b (e.offset - 1) e.kind e.payload.length := by
  have before : e.offset - 1 + 1 = e.offset :=
    Nat.sub_add_cancel (Nat.pos_of_ne_zero stands.offset_ne)
  obtain ⟨rest, behind, told⟩ := stands.drop
  refine ⟨stands.tag, ?_, ?_⟩
  · rw [← payloadLength?_eq_some, before, behind, told]
  · have inside := (List.getElem?_eq_some_iff.mp stands.tag).1
    have length := congrArg List.length behind
    rw [List.length_drop, List.length_append] at length
    omega

/-- Where an entry stands, one is read. -/
theorem isSome_read? (entry : PoolIndex.EntryAt (front ++ bytes) front.length kind length) :
    (read? front.length bytes).isSome = true := by
  obtain ⟨tag, told, whole⟩ := entry
  rw [List.getElem?_append_right (Nat.le_refl _), Nat.sub_self] at tag
  match bytes, tag with
  | _ :: behind, rfl =>
    have rest : (front ++ kind.tag :: behind).drop (front.length + 1) = behind := by
      rw [← List.drop_drop, List.drop_left]
      rfl
    rw [← payloadLength?_eq_some, rest] at told
    rw [List.length_append, List.length_cons] at whole
    have full : (behind.take length).length = length := by
      rw [List.length_take]
      omega
    rw [← List.take_append_drop length behind] at told ⊢
    rw [read?_eq (told.trans (congrArg some full.symm))]
    rfl

/-! ### Empty slots -/

theorem getElem?_slots_none : e.slots[i]? = some none ↔ i = 1 ∧ e.kind.isWide = true := by
  unfold slots
  split <;> rcases i with _ | _ | i <;> simp [*]

/-- The slots without an entry are those that follow a wide one. -/
theorem getElem?_flatMap_none {raws : List RawEntry} :
    (raws.flatMap slots)[i]? = some none ↔
      ∃ j e, i = j + 1 ∧ (raws.flatMap slots)[j]? = some (some e) ∧ e.kind.isWide = true := by
  constructor
  · intro empty
    obtain ⟨inside, -⟩ := List.getElem?_eq_some_iff.mp empty
    obtain ⟨front, e, back, rfl, first, last⟩ := List.exists_around_flatMap inside
    rw [List.getElem?_around_flatMap first last, getElem?_slots_none] at empty
    obtain ⟨second, wide⟩ := empty
    refine ⟨(front.flatMap slots).length, e, by omega, ?_, wide⟩
    rw [List.getElem?_around_flatMap (Nat.le_refl _) (by omega), Nat.sub_self, getElem?_slots]
    exact ⟨rfl, rfl⟩
  · rintro ⟨j, e, rfl, held, wide⟩
    have inside := (List.getElem?_eq_some_iff.mp held).1
    obtain ⟨front, e', back, rfl, first, last⟩ := List.exists_around_flatMap inside
    rw [List.getElem?_around_flatMap first last, getElem?_slots] at held
    obtain ⟨start, rfl⟩ := held
    have width := slots_length_wide wide
    rw [List.getElem?_around_flatMap (by omega) (by omega), getElem?_slots_none]
    exact ⟨by omega, wide⟩

end RawEntry

namespace PoolIndex

variable {b p front bytes name : Bytes} {declared offset stop : Nat} {items : List Nat}
  {slot : UInt16} {slots : Array (Option RawEntry)} {e : RawEntry}

/-! ### Indexing -/

/-- The item of a slot. -/
def offsetOf (slot : Option RawEntry) : Nat := (slot.map RawEntry.offset).getD 0

theorem Tiles.stop_le (tiles : Tiles b stop offset items) (start : offset ≤ b.length) :
    stop ≤ b.length := by
  induction tiles with
  | nil => exact start
  | cons entry _ ih => exact ih entry.whole

/-- Indexing passes over entries that stand one behind the other, to where it ends. -/
theorem tiles_fill (start : offset = front.length) :
    let index := fill declared offset slots bytes
    ∃ items, index.slots.toList.map offsetOf = slots.toList.map offsetOf ++ items ∧
      Tiles (front ++ bytes) index.endOffset offset items := by
  fun_induction fill declared offset slots bytes generalizing front with
  | case1 offset slots bytes more e found ih =>
    subst start
    have stands := RawEntry.stands_of_read? found
    have place := RawEntry.offset_of_read? found
    obtain ⟨rest, rfl, -⟩ := RawEntry.read?_eq_some found
    have length : 1 + e.payload.length = e.bytes.length := Nat.add_comm _ _
    have next : front.length + 1 + e.payload.length = (front ++ e.bytes).length := by
      rw [List.length_append, Nat.add_assoc, length]
    obtain ⟨items, all, tiles⟩ := ih next
    rw [length, List.drop_left] at all tiles ⊢
    rw [List.append_assoc] at tiles
    have entry := stands.entryAt
    rw [place, Nat.add_sub_cancel] at entry
    refine ⟨_, ?_, .cons entry tiles⟩
    rw [all, RawEntry.toList_extend, List.map_append, List.append_assoc, ← place]
    unfold RawEntry.slots
    split <;> rfl
  | case2 => exact ⟨[], (List.append_nil _).symm, .nil⟩
  | case3 => exact ⟨[], (List.append_nil _).symm, .nil⟩

/-- Indexing ends early exactly before the declared count, where no entry stands. -/
theorem isComplete_fill (start : offset = front.length) :
    let index := fill declared offset slots bytes
    (index.isComplete = false ↔ index.slots.size < declared) ∧
      (index.isComplete = false →
        ∀ kind length, ¬EntryAt (front ++ bytes) index.endOffset kind length) := by
  fun_induction fill declared offset slots bytes generalizing front with
  | case1 offset slots bytes more e found ih =>
    subst start
    obtain ⟨rest, rfl, -⟩ := RawEntry.read?_eq_some found
    have length : 1 + e.payload.length = e.bytes.length := Nat.add_comm _ _
    have next : front.length + 1 + e.payload.length = (front ++ e.bytes).length := by
      rw [List.length_append, Nat.add_assoc, length]
    rw [length, List.drop_left] at ih ⊢
    have later := ih next
    rwa [List.append_assoc] at later
  | case2 offset slots bytes more absent =>
    subst start
    refine ⟨iff_of_true rfl more, fun _ kind length entry => ?_⟩
    have found := RawEntry.isSome_read? entry
    rw [absent] at found
    cases found
  | case3 offset slots bytes full => exact ⟨iff_of_false (by simp) full, by simp⟩

theorem fill_found (further : slots.size < declared)
    (found : RawEntry.read? offset bytes = some e) : fill declared offset slots bytes =
      fill declared (offset + 1 + e.payload.length) (RawEntry.extend slots e)
        (bytes.drop (1 + e.payload.length)) := by
  rw [fill, if_pos further, found]

/-- More bytes add entries behind those that were indexed. -/
theorem prefix_fill_append (declared offset : Nat) (slots : Array (Option RawEntry))
    (bytes more : Bytes) : (fill declared offset slots bytes).slots.toList <+:
      (fill declared offset slots (bytes ++ more)).slots.toList := by
  fun_induction fill declared offset slots bytes with
  | case1 offset slots bytes further e found ih =>
    obtain ⟨rest, rfl, -⟩ := RawEntry.read?_eq_some found
    have length : 1 + e.payload.length = e.bytes.length := Nat.add_comm _ _
    have longer := fill_found further (RawEntry.read?_append more found)
    rw [length, List.append_assoc, List.drop_left] at longer
    rw [length, List.drop_left] at ih ⊢
    rwa [List.append_assoc, longer]
  | case2 => exact prefix_fill ..
  | case3 => exact prefix_fill ..

/-! ### The index of a file -/

theorem map_offsetOf (index : PoolIndex) (few : index.slots.size ≤ 65536) :
    index.slots.toList.map offsetOf = index.items := by
  apply List.ext_getElem?
  intro i
  rw [items, List.getElem?_map, List.getElem?_map, Array.getElem?_toList]
  by_cases inside : i < index.slots.size
  · have number : i.toUInt16.toNat = i := by
      simp only [UInt16.toNat_ofNat']
      omega
    rw [List.getElem?_range inside, Array.getElem?_eq_getElem inside]
    simp only [Option.map_some, item, entry?, number, Array.getElem?_eq_getElem inside,
      Option.join_some]
    cases index.slots[i] <;> rfl
  · have outside := Nat.le_of_not_lt inside
    rw [Array.getElem?_eq_none outside, List.getElem?_eq_none (by rwa [List.length_range])]
    rfl

/-- An index is made of the bytes behind the header. -/
theorem parseLenient_eq (enough : countOffset + 2 ≤ b.length) : ∃ declared front bytes,
    b.u16At? countOffset = some declared ∧ b = front ++ bytes ∧ front.length = countOffset + 2 ∧
      parseLenient b = fill declared.toNat (countOffset + 2) #[none] bytes := by
  obtain ⟨declared, told⟩ := Bytes.exists_u16At? b countOffset enough
  refine ⟨declared, b.take (countOffset + 2), b.drop (countOffset + 2), told,
    (List.take_append_drop ..).symm, ?_, ?_⟩
  · rw [List.length_take, Nat.min_eq_left enough]
  · rw [parseLenient, told]
    rfl

theorem item_eq_zero : (parseLenient b).item slot = 0 ↔ entry? (parseLenient b) slot = none := by
  unfold item
  cases held : entry? (parseLenient b) slot with
  | none => simp
  | some e => simpa using (stands_of_held held).offset_ne

theorem item_of_held (held : entry? (parseLenient b) slot = some e) :
    (parseLenient b).item slot = e.offset := by
  rw [item, held]

/-- The slots without an entry are slot 0 and those behind wide entries. -/
theorem item_eq_zero_iff (inside : slot.toNat < (parseLenient b).slots.size) :
    (parseLenient b).item slot = 0 ↔
      slot = 0 ∨ ∃ kind, kind.isWide = true ∧ (parseLenient b).HasKind b (slot - 1) kind := by
  obtain ⟨raws, all, -⟩ := exists_entries b
  have row (slot : UInt16) (i : Nat) (place : slot.toNat = i + 1) :
      entry? (parseLenient b) slot = (raws.flatMap RawEntry.slots)[i]?.join := by
    rw [entry?_eq, all, place, List.getElem?_cons_succ]
  rw [item_eq_zero]
  by_cases zero : slot = 0
  · exact iff_of_true (zero ▸ entry?_zero b) (.inl zero)
  obtain ⟨i, place⟩ : ∃ i, slot.toNat = i + 1 :=
    Nat.exists_eq_succ_of_ne_zero fun same => zero (UInt16.toNat_inj.mp same)
  have before : (slot - 1).toNat = i := by
    have one : (1 : UInt16).toNat = 1 := rfl
    rw [UInt16.toNat_sub_of_le _ _ (UInt16.le_iff_toNat_le.mpr (by omega)), one]
    omega
  have within : i < (raws.flatMap RawEntry.slots).length := by
    rw [← Array.length_toList, all, List.length_cons] at inside
    omega
  have empty : entry? (parseLenient b) slot = none ↔
      (raws.flatMap RawEntry.slots)[i]? = some none := by
    rw [row slot i place, List.getElem?_eq_getElem within, Option.join_some, Option.some.injEq]
  simp only [or_iff_right zero, empty, RawEntry.getElem?_flatMap_none, hasKind_iff]
  constructor
  · rintro ⟨j, e, rfl, held, wide⟩
    exact ⟨e.kind, wide, e, by rw [row _ j before, held, Option.join_some], rfl⟩
  · rintro ⟨_, wide, e, held, rfl⟩
    cases i with
    | zero =>
      have first : slot - 1 = 0 := UInt16.toNat_inj.mp before
      rw [first, entry?_zero] at held
      cases held
    | succ j =>
      rw [row _ j before, Option.join_eq_some_iff] at held
      exact ⟨j, e, rfl, held, wide⟩

/-- The index of a front is a front of the index. -/
theorem slots_of_front (front : p <+: b) :
    (parseLenient p).slots.toList <+: (parseLenient b).slots.toList := by
  obtain ⟨more, rfl⟩ := front
  cases told : p.u16At? countOffset with
  | none =>
    obtain ⟨raws, all, -⟩ := exists_entries (p ++ more)
    rw [all, parseLenient, told]
    exact ⟨_, rfl⟩
  | some declared =>
    have enough := Bytes.isSome_u16At?.mp (Option.isSome_of_eq_some told)
    rw [parseLenient, parseLenient, told, Bytes.u16At?_append more told]
    simp only [ofCount]
    rw [List.drop_append_of_le_length enough]
    exact prefix_fill_append ..

theorem entry?_of_front (front : p <+: b) (held : entry? (parseLenient p) slot = some e) :
    entry? (parseLenient b) slot = some e := by
  rw [entry?_eq, Option.join_eq_some_iff] at held ⊢
  obtain ⟨rest, all⟩ := slots_of_front front
  rw [← all, List.getElem?_append_left (List.getElem?_eq_some_iff.mp held).1, held]

/-- A class that is named in the index of a front is named in that of the whole. -/
theorem classNameBytes?_of_front (front : p <+: b)
    (named : (parseLenient p).classNameBytes? slot = some name) :
    (parseLenient b).classNameBytes? slot = some name := by
  obtain ⟨e, text, held, isClass, told, spelled⟩ := classNameBytes?_iff.mp named
  obtain ⟨t, heldText, raw⟩ := Option.bind_eq_some_iff.mp spelled
  refine classNameBytes?_iff.mpr ⟨e, text, entry?_of_front front held, isClass, told, ?_⟩
  rw [textBytes?, entry?_of_front front heldText]
  exact raw

theorem references_of_front (front : p <+: b) (few : (parseLenient b).slots.size ≤ 65535)
    (found : (parseLenient p).references name = true) :
    (parseLenient b).references name = true := by
  have less := (slots_of_front front).length_le
  rw [Array.length_toList, Array.length_toList] at less
  obtain ⟨slot, named⟩ :=
    (references_iff (intact_parseLenient p) (Nat.le_trans less few)).mp found
  exact (references_iff (intact_parseLenient b) few).mpr
    ⟨slot, classNameBytes?_of_front front named⟩

/-- An index of at least the header has, behind slot 0, the offsets of the entries that stand one
behind the other from there on, and is complete exactly if they fill the declared count; else no
entry stands where it ends.  A class is found by exactly the names that are listed, which are those
that stand where the index leads.  The index of a front has nothing that the whole has not, and
where a word can tell the slots of the whole, neither does it name a class that the whole does not.
-/
theorem index_tiles_and_grows (b : Bytes) (enough : countOffset + 2 ≤ b.length) :
    let index := parseLenient b
    (∃ items, index.items = 0 :: items ∧ Tiles b index.endOffset (countOffset + 2) items) ∧
    index.endOffset ≤ b.length ∧
    (∀ slot : UInt16, slot.toNat < index.slots.size → (index.item slot = 0 ↔
      slot = 0 ∨ ∃ kind, kind.isWide = true ∧ index.HasKind b (slot - 1) kind)) ∧
    (∃ declared, b.u16At? countOffset = some declared ∧
      (index.isComplete = false ↔ index.slots.size < declared.toNat) ∧
      (index.isComplete = false → ∀ kind length, ¬EntryAt b index.endOffset kind length)) ∧
    (∀ name, (index.references name = true ↔ name ∈ index.classReferences) ∧
      (name ∈ index.classReferences ↔ ∃ slot ∈ index.candidates, ∃ text,
        index.NamesText b slot text ∧ index.HoldsText b text name)) ∧
    ∀ p, p <+: b →
      (∀ slot, (parseLenient p).item slot ≠ 0 → index.item slot = (parseLenient p).item slot) ∧
      (index.slots.size ≤ 65535 → ∀ symbol, ClassBench.references p symbol = true →
        ClassBench.references b symbol = true) := by
  intro index
  have size : index.slots.size ≤ 65536 := by
    rcases size_parseLenient b with few | ⟨many, -⟩
    · exact Nat.le_succ_of_le few
    · exact Nat.le_of_eq many
  obtain ⟨declared, front, bytes, told, split, length, same⟩ := parseLenient_eq enough
  have made : index = fill declared.toNat (countOffset + 2) #[none] bytes := same
  obtain ⟨items, all, tiles⟩ : ∃ items, index.slots.toList.map offsetOf = 0 :: items ∧
      Tiles b index.endOffset (countOffset + 2) items := by
    rw [made, split]
    exact tiles_fill length.symm
  have stops : (index.isComplete = false ↔ index.slots.size < declared.toNat) ∧
      (index.isComplete = false → ∀ kind length, ¬EntryAt b index.endOffset kind length) := by
    rw [made, split]
    exact isComplete_fill length.symm
  refine ⟨⟨items, ?_, tiles⟩, tiles.stop_le enough, fun slot => item_eq_zero_iff,
    ⟨declared, told, stops⟩, fun name => ⟨?_, ?_⟩, fun p front => ⟨fun slot indexed => ?_, ?_⟩⟩
  · rw [← map_offsetOf index size, all]
  · exact references_iff_mem (intact_parseLenient b)
  · simp only [classReferences, List.mem_filterMap]
    exact exists_congr fun slot => and_congr_right fun _ => classNameBytes?_iff_indexed
  · obtain ⟨e, held⟩ := Option.ne_none_iff_exists'.mp (mt item_eq_zero.mpr indexed)
    rw [item_of_held held]
    exact item_of_held (entry?_of_front front held)
  · exact fun few symbol => references_of_front front few

/-- A text, a long and a class of this name stand before a text that is cut short. -/
theorem index_tiles_and_grows_cut :
    let b : Bytes := [0xCA, 0xFE, 0xBA, 0xBE, 0, 0, 0, 52, 0, 7, 1, 0, 1, 65,
      5, 0, 0, 0, 0, 0, 0, 0, 7, 7, 0, 1, 1, 0, 9, 66]
    countOffset + 2 ≤ b.length ∧ Tiles b 26 10 [11, 15, 0, 24] ∧
      (∃ kind, kind.isWide = true ∧ (parseLenient b).HasKind b 2 kind) ∧
      (∀ kind length, ¬EntryAt b 26 kind length) ∧ [65] ∈ (parseLenient b).classReferences ∧
      b.take 26 <+: b ∧ ClassBench.references b "A" = true := by
  intro b
  have enough : countOffset + 2 ≤ b.length := by decide
  have items : (parseLenient b).items = [0, 11, 15, 0, 24] := by decide +kernel
  have ends : (parseLenient b).endOffset = 26 := by decide +kernel
  have early : (parseLenient b).isComplete = false := by decide +kernel
  have size : (parseLenient b).slots.size = 5 := by decide +kernel
  have front : b.take 26 <+: b := List.take_prefix 26 b
  have found : ClassBench.references (b.take 26) "A" = true := by decide +kernel
  have third : (parseLenient b).item 3 = 0 := by decide +kernel
  obtain ⟨⟨_, all, tiles⟩, -, empty, ⟨_, -, -, stops⟩, names, grows⟩ :=
    index_tiles_and_grows b enough
  obtain rfl := (List.cons.inj (items.symm.trans all)).2
  rw [ends] at tiles stops
  have named : (parseLenient b).references [65] = true := by decide +kernel
  refine ⟨enough, tiles, ?_, stops early, (names [65]).1.mp named, front,
    (grows _ front).2 (by omega) "A" found⟩
  exact ((empty 3 (by rw [size]; decide)).mp third).resolve_left (by decide)

end PoolIndex

end ClassBench
