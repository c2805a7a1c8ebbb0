import ClassBench.Proofs.Pool.Scan
import ClassBench.Proofs.Reader.Fails

/-! The index of a pool against the pool.  Indexing goes by tags and lengths alone, and reading by
what the entries say, but both pass over the same entries to the same offset.  So a pool of at most
65535 slots is read exactly if it is indexed and its texts are read, the two agree in every slot,
and both stop at the same unknown tag. -/

namespace ClassBench

/-! ### What is indexed can be read -/

namespace Constant

/-- Any bytes of the length that a kind asks for are the payload of an entry. -/
theorem readPayload_of_length {kind : ConstantKind} {payload : Bytes}
    (length : kind.payloadLength? = some payload.length) :
    ∃ c, readPayload kind ⟨payload, 0⟩ = .ok c ⟨[], payload.length⟩ := by
  cases kind with
  | utf8 => cases length
  | classRef | string | methodType | moduleRef | packageRef =>
    match payload, length with
    | [_, _], _ => exact ⟨_, rfl⟩
  | methodHandle =>
    match payload, length with
    | [_, _, _], _ => exact ⟨_, rfl⟩
  | integer | float | fieldRef | methodRef | interfaceMethodRef | nameAndType | dynamic
  | invokeDynamic =>
    match payload, length with
    | [_, _, _, _], _ => exact ⟨_, rfl⟩
  | long | double =>
    match payload, length with
    | [_, _, _, _, _, _, _, _], _ => exact ⟨_, rfl⟩

theorem spells_of_length {kind : ConstantKind} {payload : Bytes}
    (length : kind.payloadLength? = some payload.length) :
    ∃ c : Constant, c.Spells (kind.tag :: payload) := by
  obtain ⟨c, read⟩ := readPayload_of_length length
  obtain ⟨taken, split, -, spelled⟩ := takes_payload kind c _ read
  obtain rfl : payload = taken := split.trans (List.append_nil taken)
  exact ⟨c, spelled⟩

end Constant

namespace RawEntry

variable {bytes rest : Bytes} {offset : Nat} {e : RawEntry}

/-- The text of an entry is read, should it be one. -/
def Legible (e : RawEntry) : Prop :=
  ∀ raw, e.text? = some raw → ∃ text, ModifiedUtf8.decode raw 0 = .ok text

/-- An entry that is indexed and legible is one that can be read. -/
theorem denotes_of_read? (found : read? offset bytes = some e) (legible : e.Legible) :
    ∃ c rest, bytes = e.bytes ++ rest ∧ e.Denotes c := by
  obtain ⟨rest, split, length⟩ := read?_eq_some found
  by_cases isText : e.kind = .utf8
  · obtain ⟨raw, payload, short⟩ := payload_of_text isText length
    obtain ⟨text, decoded⟩ := legible raw (by rw [text?, if_pos isText, payload]; rfl)
    refine ⟨.utf8 text, rest, split, ?_⟩
    rw [Denotes, RawEntry.bytes, isText, payload]
    exact .text short decoded
  · have fixed : e.kind.payloadLength? = some e.payload.length := by
      unfold payloadLength? at length
      split at length
      · next known => rw [known, length]
      · next unknown =>
        refine absurd ?_ isText
        unfold ConstantKind.payloadLength? at unknown
        split at unknown <;> first | assumption | contradiction
    obtain ⟨c, spelled⟩ := Constant.spells_of_length fixed
    exact ⟨c, rest, split, spelled⟩

end RawEntry

namespace PoolIndex

variable {declared offset : Nat} {slots : Array (Option RawEntry)} {bytes : Bytes}

/-- Indexing adds the entries that stand one behind the other. -/
theorem toList_fill (declared offset : Nat) (slots : Array (Option RawEntry)) (bytes : Bytes) :
    ∃ count, (fill declared offset slots bytes).slots.toList =
      slots.toList ++ (RawEntry.row count offset bytes).flatMap RawEntry.slots := by
  fun_induction fill declared offset slots bytes with
  | case1 offset slots bytes more e found ih =>
    obtain ⟨count, all⟩ := ih
    have length : 1 + e.payload.length = e.bytes.length := Nat.add_comm _ _
    rw [RawEntry.toList_extend, Nat.add_assoc, length] at all
    refine ⟨count + 1, ?_⟩
    rw [Nat.add_assoc, length, all, RawEntry.row, found, List.flatMap_cons, List.append_assoc]
  | case2 => exact ⟨0, (List.append_nil _).symm⟩
  | case3 => exact ⟨0, (List.append_nil _).symm⟩

/-- What was indexed before stays. -/
theorem prefix_fill (declared offset : Nat) (slots : Array (Option RawEntry)) (bytes : Bytes) :
    slots.toList <+: (fill declared offset slots bytes).slots.toList := by
  obtain ⟨count, all⟩ := toList_fill declared offset slots bytes
  rw [all]
  exact List.prefix_append _ _

/-- The bytes of a complete index of legible entries can be read. -/
theorem spells_of_fill (complete : (fill declared offset slots bytes).isComplete = true)
    (legible : ∀ e, some e ∈ (fill declared offset slots bytes).slots.toList → e.Legible) :
    ∃ first rest entries, bytes = first ++ rest ∧ Pool.Spells first entries ∧
      Pool.Runs (· < declared) slots.size entries := by
  fun_induction fill declared offset slots bytes with
  | case1 offset slots bytes more e found ih =>
    have here : some e ∈ (RawEntry.extend slots e).toList := by
      rw [RawEntry.toList_extend]
      refine List.mem_append_right _ ?_
      unfold RawEntry.slots
      split <;> exact List.mem_cons_self
    obtain ⟨c, behind, rfl, denotes⟩ :=
      RawEntry.denotes_of_read? found (legible e ((prefix_fill ..).subset here))
    obtain ⟨first, rest, entries, split, spelled, runs⟩ := ih complete legible
    have length : 1 + e.payload.length = e.bytes.length := Nat.add_comm _ _
    rw [length, List.drop_left] at split
    refine ⟨e.bytes ++ first, rest, c :: entries, ?_, .cons denotes spelled, more, ?_⟩
    · rw [split, List.append_assoc]
    · rwa [← Array.length_toList, RawEntry.toList_extend, List.length_append, denotes.slots_length,
        Array.length_toList] at runs
  | case2 => cases complete
  | case3 offset slots bytes full => exact ⟨[], bytes, [], rfl, .nil, full⟩

end PoolIndex

/-! ### Unknown tags -/

/-- Whether the error is that of a tag. -/
def DecodeError.isUnknownTag : DecodeError → Bool
  | unknownTag .. => true
  | _ => false

namespace Constant

theorem fails_text : readText.Fails (·.isUnknownTag = false) := by
  refine (Reader.Fails.u16 fun _ => rfl).bind fun length => ?_
  refine Reader.Fails.position.bind fun start => ?_
  refine (Reader.Fails.bytes (fun _ => rfl) length.toNat).bind fun raw => ?_
  split
  · exact Reader.Fails.pure _
  · next error refused =>
    refine Reader.Fails.throw ?_
    unfold ModifiedUtf8.decode at refused
    split at refused
    · cases refused
      rfl
    · split at refused <;> cases refused
      rfl

theorem fails_index (make : UInt16 → Constant) : (readIndex make).Fails (·.isUnknownTag = false) :=
  (Reader.Fails.u16 fun _ => rfl).map make

theorem fails_indices (make : UInt16 → UInt16 → Constant) :
    (readIndices make).Fails (·.isUnknownTag = false) :=
  (Reader.Fails.u16 fun _ => rfl).bind fun a => (Reader.Fails.u16 fun _ => rfl).map (make a)

theorem fails_payload (kind : ConstantKind) :
    (readPayload kind).Fails (·.isUnknownTag = false) := by
  cases kind with
  | utf8 => exact fails_text.map utf8
  | integer => exact ((Reader.Fails.u32 fun _ => rfl).map UInt32.toInt32).map integer
  | float => exact (Reader.Fails.u32 fun _ => rfl).map float
  | long => exact ((Reader.Fails.u64 fun _ => rfl).map UInt64.toInt64).map long
  | double => exact (Reader.Fails.u64 fun _ => rfl).map double
  | methodHandle =>
    exact (Reader.Fails.u8 fun _ => rfl).bind fun mode =>
      (Reader.Fails.u16 fun _ => rfl).map (methodHandle mode)
  | classRef | string | methodType | moduleRef | packageRef => exact fails_index _
  | fieldRef | methodRef | interfaceMethodRef | nameAndType | dynamic | invokeDynamic =>
    exact fails_indices _

/-- An unknown tag stands where an entry was to be read. -/
theorem read_unknownTag {index slot : UInt16} {tag : UInt8} {offset : Nat} {cursor after : Cursor}
    (failed : read index cursor = .error (.unknownTag tag slot offset) after) :
    cursor.rest.head? = some tag ∧ ConstantKind.ofTag? tag = none ∧ slot = index ∧
      offset = cursor.position := by
  rcases Reader.bind_eq_error.mp failed with first | ⟨_, _, here, failed⟩
  · cases first
  cases here
  rcases Reader.bind_eq_error.mp failed with first | ⟨t, middle, byte, failed⟩
  · have ends : Reader.Fails Reader.u8 (·.isUnknownTag = false) := Reader.Fails.u8 fun _ => rfl
    cases ends _ _ _ first
  obtain ⟨taken, split, -, rfl⟩ := Reader.Takes.u8 t middle byte
  cases known : ConstantKind.ofTag? t with
  | some kind =>
    simp only [known] at failed
    cases fails_payload _ _ _ _ failed
  | none =>
    simp only [known] at failed
    cases failed
    exact ⟨by rw [split]; rfl, known, rfl, rfl⟩

end Constant

namespace PoolIndex

variable {declared : UInt16} {slots : Array (Option RawEntry)} {bytes : Bytes}

/-- Where reading stops at an unknown tag indexing stops too, as long as no slot number wraps. -/
theorem fill_of_unknownTag {fuel : Nat} {pool : Pool} {tag : UInt8} {slot : UInt16} {offset : Nat}
    {after : Cursor} (few : declared.toNat ≤ 65534) (small : pool.slots.size ≤ 65535)
    (size : slots.size = pool.slots.size) (front : Bytes)
    (failed : Pool.readEntries declared fuel pool ⟨bytes, front.length⟩ =
      .error (.unknownTag tag slot offset) after) :
    ∃ reached, fill declared.toNat front.length slots bytes = ⟨reached, offset, false⟩ ∧
      reached.size.toUInt16 = slot ∧ (front ++ bytes)[offset]? = some tag ∧
      ConstantKind.ofTag? tag = none := by
  induction fuel generalizing pool slots front bytes with
  | zero => cases failed
  | succ fuel ih =>
    rw [Pool.readEntries] at failed
    split at failed
    · next more =>
      have further : slots.size < declared.toNat := by
        rw [Pool.count_lt, Pool.GoesOn] at more
        omega
      rw [fill, if_pos further]
      rcases Reader.bind_eq_error.mp failed with here | ⟨c, middle, entry, later⟩
      · obtain ⟨head, unknown, rfl, rfl⟩ := Constant.read_unknownTag here
        obtain ⟨rest, rfl⟩ : ∃ rest, bytes = tag :: rest := List.head?_eq_some_iff.mp head
        refine ⟨slots, ?_, by rw [size]; rfl, by simp, unknown⟩
        simp [RawEntry.read?, unknown]
      · obtain ⟨first, split, moved, spelled⟩ := Constant.takes_spelling _ c middle entry
        obtain ⟨e, found, rfl⟩ := RawEntry.read?_of_spells spelled front.length middle.rest
        have denotes : e.Denotes c := spelled
        have length : 1 + e.payload.length = e.bytes.length := Nat.add_comm _ _
        have width := c.slots_length_le
        obtain rfl : bytes = e.bytes ++ middle.rest := split
        have behind : middle = ⟨middle.rest, (front ++ e.bytes).length⟩ := by
          rw [List.length_append, ← moved]
        rw [behind] at later
        rw [found]
        simp only [Nat.add_assoc, length, List.drop_left]
        rw [← List.append_assoc, ← List.length_append]
        refine ih ?_ ?_ (front ++ e.bytes) later
        · rw [Pool.size_push]
          omega
        · rw [Pool.size_push, ← Array.length_toList, RawEntry.toList_extend, List.length_append,
            denotes.slots_length, Array.length_toList, size]
    · cases failed

end PoolIndex

/-! ### The index and the pool of a class file -/

/-- Reads the pool of a class file, and what precedes it. -/
def ClassFile.readPool : Reader Pool := do
  ClassFile.readMagic
  Reader.skip 4
  Pool.read

namespace PoolIndex

variable {b : Bytes} {declared : UInt16} {after : Cursor} {index : PoolIndex} {pool : Pool}

/-- The pool is read behind the header and its count. -/
theorem readPool_eq : ClassFile.readPool = (readHeader >>= fun declared => get >>= fun cursor =>
    Pool.readEntries declared (cursor.rest.length + 1) Pool.empty) := by
  simp only [ClassFile.readPool, readHeader, Pool.read, bind_assoc]

/-- The header is ten bytes long, and its last two are the count. -/
theorem readHeader_eq_ok (read : readHeader ⟨b, 0⟩ = .ok declared after) :
    ∃ front : Bytes, b = front ++ after.rest ∧ front.length = countOffset + 2 ∧
      after.position = countOffset + 2 ∧ b.u16At? countOffset = some declared := by
  have takes : Reader.Takes readHeader ⟨b, 0⟩ fun taken declared =>
      ∃ front : Bytes, front.length = countOffset ∧ taken = front ++ Bytes.ofUInt16 declared := by
    refine ClassFile.takes_magic.bind fun first _ _ _ hFirst => ?_
    refine (Reader.Takes.skip 4).bind fun second _ _ _ hSecond => ?_
    refine Reader.Takes.u16.mono fun third declared hThird => ?_
    refine ⟨first ++ second, ?_, by rw [hThird, List.append_assoc]⟩
    rw [List.length_append, hFirst, hSecond]
    rfl
  obtain ⟨_, split, moved, front, length, rfl⟩ := takes declared after read
  replace split : b = front ++ Bytes.ofUInt16 declared ++ after.rest := split
  have full : (front ++ Bytes.ofUInt16 declared).length = countOffset + 2 := by
    rw [List.length_append, length, Bytes.length_ofUInt16]
  refine ⟨front ++ Bytes.ofUInt16 declared, split, full, ?_, ?_⟩
  · rw [moved, full, Nat.zero_add]
  · rw [split, List.append_assoc, ← length]
    exact Bytes.u16At?_length front after.rest declared

/-- An index is made of what stands behind the header. -/
theorem parse_eq (read : readHeader ⟨b, 0⟩ = .ok declared after) :
    let index := fill declared.toNat (countOffset + 2) #[none] after.rest
    parse b = if index.isComplete then .ok index else .error (index.fault b) := by
  obtain ⟨front, split, length, -⟩ := readHeader_eq_ok read
  have behind : b.drop (countOffset + 2) = after.rest := by
    rw [split, ← length, List.drop_left]
  rw [parse, Reader.run, read, ← behind]
  rfl

theorem readHeader_of_parse (parsed : parse b = .ok index) :
    ∃ declared after, readHeader ⟨b, 0⟩ = .ok declared after := by
  rw [parse, Reader.run] at parsed
  split at parsed
  · next declared after read => exact ⟨declared, after, read⟩
  · cases parsed

theorem fails_readHeader : readHeader.Fails (·.isUnknownTag = false) := by
  refine Reader.Fails.bind ?_ fun _ => (Reader.Fails.skip (fun _ => rfl) 4).bind fun _ =>
    Reader.Fails.u16 fun _ => rfl
  refine (Reader.Fails.u32 fun _ => rfl).bind fun found => ?_
  split
  · exact Reader.Fails.throw rfl
  · exact Reader.Fails.pure ()

/-! ### Slots that agree -/

theorem tag?_eq {slot : UInt16}
    (agree : Option.Rel RawEntry.Denotes (index.entry? slot) (pool.get? slot)) :
    index.tag? slot = (pool.get? slot).map Constant.tag := by
  unfold tag?
  generalize index.entry? slot = here, pool.get? slot = held at agree ⊢
  cases agree with
  | none => rfl
  | some denotes =>
    rw [Option.map_some, Option.map_some, denotes.kind_eq]
    rfl

theorem rel_classNameBytes?
    (agree : ∀ slot, Option.Rel RawEntry.Denotes (index.entry? slot) (pool.get? slot))
    (slot : UInt16) :
    Option.Rel (fun raw text => ModifiedUtf8.decode raw 0 = .ok text) (index.classNameBytes? slot)
      (pool.className? slot) := by
  have here := agree slot
  unfold classNameBytes? Pool.className?
  generalize index.entry? slot = found, pool.get? slot = held at here ⊢
  cases here with
  | none => exact .none
  | @some e c denotes =>
    have kinds := denotes.kind_eq
    cases c with
    | classRef name =>
      have isClass : e.kind = .classRef := kinds
      simp only [Option.bind_eq_bind, Option.bind_some, isClass, if_true, denotes.classRef]
      exact rel_textBytes? (agree name)
    | _ =>
      have other : e.kind ≠ .classRef := by
        rw [kinds]
        exact nofun
      simp only [Option.bind_eq_bind, Option.bind_some, if_neg other]
      exact .none

/-- A pool of allowed size that is read is indexed, and the two agree in every slot. -/
theorem parse_of_readPool (read : ClassFile.readPool ⟨b, 0⟩ = .ok pool after)
    (few : pool.slots.size ≤ 65535) : ∃ index, parse b = .ok index ∧ index.isComplete = true ∧
      index.slots.size = pool.slots.size ∧ index.endOffset = after.position ∧
      ∀ slot, Option.Rel RawEntry.Denotes (index.entry? slot) (pool.get? slot) := by
  rw [readPool_eq] at read
  obtain ⟨declared, middle, header, read⟩ := Reader.bind_eq_ok.mp read
  obtain ⟨-, -, -, position, -⟩ := readHeader_eq_ok header
  obtain ⟨taken, split, moved, entries, rfl, spelled, runs⟩ :=
    Pool.takes_entries (Nat.lt_succ_self _) Pool.empty pool after read
  have size : 1 + (entries.flatMap Constant.slots).length ≤ 65535 := by
    rwa [Pool.size_slots, Pool.entries_pushAll] at few
  -- A pool of so few slots ends before its number of slots could wrap.
  obtain ⟨front, back, whole, counted, total⟩ := runs.unwrapped (by decide)
  have start : Pool.empty.slots.size = 1 := rfl
  rcases total with ⟨rfl, -⟩ | total
  · rw [List.append_nil] at whole
    subst whole
    obtain ⟨denote, -⟩ := RawEntry.row_of_spells spelled (countOffset + 2) after.rest
    have parsed := parse_eq header
    rw [split, fill_of_spells spelled counted] at parsed
    refine ⟨_, parsed.trans (if_pos rfl), rfl, ?_, ?_, fun slot => ?_⟩
    · rw [← Array.length_toList, ← Array.length_toList, Pool.toList_pushAll, List.length_append,
        List.length_append, RawEntry.length_slots denote]
      rfl
    · rw [moved, position]
    · have slots := List.Forall₂.cons Option.Rel.none (RawEntry.rel_slots denote fun _ _ => id)
      rw [entry?_eq, Pool.get?, ← Array.getElem?_toList, Pool.toList_pushAll]
      exact slots.rel_join slot.toNat
  · rw [whole, List.flatMap_append, List.length_append] at size
    omega

theorem exists_slot (few : index.slots.size ≤ 65535) {e : RawEntry}
    (member : some e ∈ index.slots.toList) : ∃ slot, index.entry? slot = some e := by
  obtain ⟨i, here⟩ := List.mem_iff_getElem?.mp member
  obtain ⟨inside, -⟩ := List.getElem?_eq_some_iff.mp here
  have number : i.toUInt16.toNat = i := by
    rw [Array.length_toList] at inside
    simp only [UInt16.toNat_ofNat']
    omega
  refine ⟨i.toUInt16, ?_⟩
  rw [entry?_eq, number, here]
  rfl

/-- Numbers that a word can tell are compared as the words are. -/
theorem runs_goesOn {entries : List Constant} (runs : Pool.Runs (· < declared.toNat) 1 entries)
    (few : 1 + (entries.flatMap Constant.slots).length ≤ 65535) :
    Pool.Runs (Pool.GoesOn declared) 1 entries := by
  rw [Pool.runs_iff] at runs ⊢
  obtain ⟨within, ends⟩ := runs
  refine ⟨fun i c here => ?_, ?_⟩
  · have more := within i c here
    have bound := declared.toNat_lt
    rw [Pool.GoesOn]
    omega
  · rw [Pool.GoesOn]
    omega

/-- An index of allowed size tells that the pool can be read, as far as its texts can. -/
theorem readPool_of_parse (parsed : parse b = .ok index) (few : index.slots.size ≤ 65535)
    (legible : ∀ slot raw, index.textBytes? slot = some raw →
      ∃ text, ModifiedUtf8.decode raw 0 = .ok text) :
    ∃ pool after, ClassFile.readPool ⟨b, 0⟩ = .ok pool after := by
  obtain ⟨declared, ⟨behind, position⟩, header⟩ := readHeader_of_parse parsed
  rw [parse_eq header] at parsed
  split at parsed
  · next complete =>
    cases parsed
    have every (e : RawEntry) (member : some e ∈ _) : e.Legible := fun raw told => by
      obtain ⟨slot, here⟩ := exists_slot few member
      exact legible slot raw (by rw [textBytes?, here]; exact told)
    obtain ⟨first, rest, entries, rfl, spelled, runs⟩ := spells_of_fill complete every
    obtain ⟨denote, -⟩ := RawEntry.row_of_spells spelled (countOffset + 2) rest
    have size : 1 + (entries.flatMap Constant.slots).length ≤ 65535 := by
      rw [fill_of_spells spelled runs, ← Array.length_toList] at few
      rw [← RawEntry.length_slots denote, Nat.add_comm]
      exact few
    have enough : entries.length ≤ (first ++ rest).length + 1 := by
      have := spelled.length_le
      rw [List.length_append]
      omega
    have goesOn : Pool.Runs (Pool.GoesOn declared) Pool.empty.slots.size entries :=
      runs_goesOn runs size
    have reads := spelled.reads enough goesOn
    rw [readPool_eq]
    exact ⟨_, _, Reader.bind_eq_ok.mpr ⟨declared, _, header, reads rest position⟩⟩
  · cases parsed

/-- Both stop at the same unknown tag, as long as no slot number wraps. -/
theorem parse_of_unknownTag {tag : UInt8} {slot : UInt16} {offset : Nat}
    (told : b.u16At? countOffset = some declared) (small : declared ≤ 65534)
    (failed : ClassFile.readPool ⟨b, 0⟩ = .error (.unknownTag tag slot offset) after) :
    parse b = .error (.unknownTag tag slot offset) := by
  rw [readPool_eq] at failed
  rcases Reader.bind_eq_error.mp failed with first | ⟨declared', ⟨behind, position⟩, header, failed⟩
  · cases fails_readHeader _ _ _ first
  obtain ⟨front, split, length, rfl, told'⟩ := readHeader_eq_ok header
  obtain rfl : declared' = declared := Option.some.inj (told'.symm.trans told)
  rw [← length] at failed
  obtain ⟨reached, stopped, size, here, unknown⟩ := fill_of_unknownTag
    (UInt16.le_iff_toNat_le.mp small) (by decide)
    (show (#[none] : Array (Option RawEntry)).size = Pool.empty.slots.size from rfl) front failed
  rw [parse_eq header, ← length]
  simp only [stopped, Bool.false_eq_true, if_false]
  rw [fault, split, here]
  simp [unknown, size]

/-- A pool of at most 65535 slots that is read from the bytes of a class file is indexed to its end
and agrees with the index in every slot.  An index of at most 65535 slots whose texts are read is
that of a pool that is read.  Where reading stops at an unknown tag, indexing does. -/
theorem index_agrees_with_pool (b : Bytes) :
    (∀ pool after, ClassFile.readPool ⟨b, 0⟩ = .ok pool after → pool.slots.size ≤ 65535 →
      ∃ index, parse b = .ok index ∧ index.isComplete = true ∧ index.itemCount = pool.count ∧
        index.endOffset = after.position ∧ ∀ slot,
          index.tag? slot = (pool.get? slot).map Constant.tag ∧
          Option.Rel (fun raw text => ModifiedUtf8.decode raw 0 = .ok text)
            (index.textBytes? slot) (pool.utf8? slot) ∧
          Option.Rel (fun raw text => ModifiedUtf8.decode raw 0 = .ok text)
            (index.classNameBytes? slot) (pool.className? slot)) ∧
    (∀ index, parse b = .ok index → index.slots.size ≤ 65535 →
      (∀ slot raw, index.textBytes? slot = some raw →
        ∃ text, ModifiedUtf8.decode raw 0 = .ok text) →
      ∃ pool after, ClassFile.readPool ⟨b, 0⟩ = .ok pool after) ∧
    ∀ declared tag slot offset after, b.u16At? countOffset = some declared → declared ≤ 65534 →
      ClassFile.readPool ⟨b, 0⟩ = .error (.unknownTag tag slot offset) after →
      parse b = .error (.unknownTag tag slot offset) := by
  refine ⟨fun pool after read few => ?_, fun index => readPool_of_parse,
    fun declared tag slot offset after => parse_of_unknownTag⟩
  obtain ⟨index, parsed, complete, size, ends, agree⟩ := parse_of_readPool read few
  refine ⟨index, parsed, complete, ?_, ends, fun slot => ?_⟩
  · rw [itemCount, size, Pool.count]
  · exact ⟨tag?_eq (agree slot), rel_textBytes? (agree slot), rel_classNameBytes? agree slot⟩

/-- A pool with a wide entry and a class whose name takes a byte more than it needs, before bytes
that are no class; and a pool that breaks off at an unknown tag. -/
theorem index_agrees_with_pool_wide :
    let b : Bytes := [0xCA, 0xFE, 0xBA, 0xBE, 0, 0, 0, 52, 0, 5, 5, 0, 0, 0, 0, 0, 0, 0, 7,
      1, 0, 2, 0xC1, 0x81, 7, 0, 3, 9]
    let broken : Bytes := [0xCA, 0xFE, 0xBA, 0xBE, 0, 0, 0, 52, 0, 3, 1, 0, 1, 65, 2, 0]
    let pool := Pool.empty.pushAll [.long 7, .utf8 "A", .classRef 3]
    (ClassFile.readPool ⟨b, 0⟩ = .ok pool ⟨[9], 27⟩ ∧ pool.slots.size ≤ 65535 ∧
      ∃ index, parse b = .ok index ∧ index.endOffset = 27 ∧ index.slots.size ≤ 65535 ∧
        (∃ raw, index.classNameBytes? 4 = some raw ∧ ModifiedUtf8.decode raw 0 = .ok "A") ∧
        (∀ slot raw, index.textBytes? slot = some raw →
          ∃ text, ModifiedUtf8.decode raw 0 = .ok text) ∧
        ∃ pool after, ClassFile.readPool ⟨b, 0⟩ = .ok pool after) ∧
    broken.u16At? countOffset = some 3 ∧ (3 : UInt16) ≤ 65534 ∧
      ClassFile.readPool ⟨broken, 0⟩ = .error (.unknownTag 2 2 14) ⟨[0], 15⟩ ∧
      parse broken = .error (.unknownTag 2 2 14) := by
  intro b broken pool
  have read : ClassFile.readPool ⟨b, 0⟩ = .ok pool ⟨[9], 27⟩ := by rfl
  have few : pool.slots.size ≤ 65535 := by decide
  have named : pool.className? 4 = some "A" := by decide
  have told : broken.u16At? countOffset = some 3 := by decide
  have stops : ClassFile.readPool ⟨broken, 0⟩ = .error (.unknownTag 2 2 14) ⟨[0], 15⟩ := by rfl
  obtain ⟨indexed, readable, -⟩ := index_agrees_with_pool b
  obtain ⟨-, -, stopped⟩ := index_agrees_with_pool broken
  obtain ⟨index, parsed, -, -, ends, agree⟩ := indexed pool _ read few
  have size : ((parse b).map (·.slots.size)).toOption = some 5 := by decide +kernel
  rw [parsed] at size
  have five : index.slots.size = 5 := Option.some.inj size
  have short : index.slots.size ≤ 65535 := by omega
  have legible (slot : UInt16) (raw : Bytes) (found : index.textBytes? slot = some raw) :
      ∃ text, ModifiedUtf8.decode raw 0 = .ok text := by
    have texts := (agree slot).2.1
    rw [found] at texts
    generalize pool.utf8? slot = held at texts
    cases texts with
    | some decoded => exact ⟨_, decoded⟩
  have names := (agree 4).2.2
  rw [named] at names
  generalize found : index.classNameBytes? 4 = held at names
  cases names with
  | @some raw _ decoded =>
    exact ⟨⟨read, few, index, parsed, ends, short, ⟨raw, found, decoded⟩, legible,
      readable index parsed short legible⟩, told, by decide, stops,
      stopped 3 2 2 14 _ told (by decide) stops⟩

end PoolIndex

end ClassBench
