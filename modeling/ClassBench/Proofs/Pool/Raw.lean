import ClassBench.Pool.Index
import ClassBench.Proofs.Pool.Spelling
import Mathlib.Data.List.Forall2

/-! The entries of a pool as they stand in its bytes.  `RawEntry.row` cuts entries from the bytes by
their tags and lengths alone, and an entry as it stands `Denotes` the constant that is read from it.
A row denotes the entries that are read from the same bytes, and the same holds of the slots. -/

namespace ClassBench

namespace RawEntry

/-- The bytes of an entry, its tag included. -/
def bytes (e : RawEntry) : Bytes := e.kind.tag :: e.payload

/-- The slots that the entry takes. -/
def slots (e : RawEntry) : List (Option RawEntry) :=
  if e.kind.isWide then [some e, none] else [some e]

/-- The first `count` entries of `bytes`, which begin at `offset`. -/
def row : (count offset : Nat) → Bytes → List RawEntry
  | 0, _, _ => []
  | count + 1, offset, bytes =>
    match read? offset bytes with
    | some e => e :: row count (offset + e.bytes.length) (bytes.drop e.bytes.length)
    | none => []

/-- The entry is read as this constant. -/
def Denotes (e : RawEntry) (c : Constant) : Prop := c.Spells e.bytes

variable {e : RawEntry} {c : Constant} {first rest : Bytes} {offset : Nat}

theorem toList_extend (slots : Array (Option RawEntry)) (e : RawEntry) :
    (extend slots e).toList = slots.toList ++ e.slots := by
  unfold extend RawEntry.slots
  split <;> simp

theorem mem_slots {e' : RawEntry} : some e' ∈ e.slots ↔ e = e' := by
  unfold slots
  split <;> simp [eq_comm]

/-! ### One entry -/

/-- An entry that is indexed stands at the front of the bytes, as long as its tag and its length
say. -/
theorem read?_eq_some (found : read? offset first = some e) : ∃ rest, first = e.bytes ++ rest ∧
    payloadLength? e.kind (e.payload ++ rest) = some e.payload.length := by
  cases first with
  | nil => cases found
  | cons tag behind =>
    simp only [read?, Option.bind_eq_bind, Option.bind_eq_some_iff] at found
    obtain ⟨kind, known, length, told, found⟩ := found
    split at found
    · next full =>
      cases found
      have whole : behind.take length ++ behind.drop length = behind := List.take_append_drop ..
      refine ⟨behind.drop length, ?_, ?_⟩
      · rw [RawEntry.bytes, Constant.ofTag?_eq_some known, List.cons_append, whole]
      · rw [whole, told, full]
    · cases found

/-- An indexed text is its length and as many bytes. -/
theorem payload_of_text (isText : e.kind = .utf8)
    (length : payloadLength? e.kind (e.payload ++ rest) = some e.payload.length) :
    ∃ raw : Bytes, e.payload = Bytes.ofUInt16 raw.length.toUInt16 ++ raw ∧ raw.length ≤ 65535 := by
  rw [isText] at length
  simp only [payloadLength?, ConstantKind.payloadLength?, Option.map_eq_some_iff] at length
  obtain ⟨count, told, length⟩ := length
  rcases front : e.payload with _ | ⟨a, _ | ⟨b, raw⟩⟩
  case cons.cons =>
    rw [front] at length told
    obtain rfl : Word.u16 a b = count := Option.some.inj told
    have few := (Word.u16 a b).toNat_lt
    have full : raw.length = (Word.u16 a b).toNat := by
      simp only [List.length_cons] at length
      omega
    refine ⟨raw, ?_, by omega⟩
    rw [full]
    simp [Bytes.ofUInt16_u16]
  -- Less than two bytes are too few for the length alone.
  all_goals
    rw [front] at length
    simp only [List.length_cons, List.length_nil] at length
    omega

theorem tag_of_spells (spelled : c.Spells first) : ∃ payload, first = c.tag :: payload := by
  cases spelled with
  | text => exact ⟨_, rfl⟩
  | plain => exact ⟨_, rfl⟩

theorem Denotes.kind_eq (denotes : e.Denotes c) : e.kind = c.kind := by
  obtain ⟨payload, same⟩ := tag_of_spells denotes
  have tags : e.kind.tag = c.kind.tag := (List.cons.inj same).1
  have kinds := congrArg ConstantKind.ofTag? tags
  simpa using kinds

theorem Denotes.rel_slots {R : RawEntry → Constant → Prop} (denotes : e.Denotes c) (rel : R e c) :
    List.Forall₂ (Option.Rel R) e.slots c.slots := by
  have here : Option.Rel R (some e) (some c) := .some rel
  unfold RawEntry.slots Constant.slots Constant.isWide
  rw [denotes.kind_eq]
  split
  · exact .cons here (.cons .none .nil)
  · exact .cons here .nil

theorem Denotes.slots_length (denotes : e.Denotes c) : e.slots.length = c.slots.length :=
  (denotes.rel_slots denotes).length_eq

/-- An entry of the text is the length of some bytes and the bytes, which are read as the text. -/
theorem Denotes.text {text : String} (denotes : e.Denotes (.utf8 text)) :
    ∃ raw : Bytes, e.text? = some raw ∧ ModifiedUtf8.decode raw 0 = .ok text ∧
      e.bytes = ConstantKind.utf8.tag :: (Bytes.ofUInt16 raw.length.toUInt16 ++ raw) := by
  have isText : e.kind = .utf8 := denotes.kind_eq
  unfold Denotes at denotes
  generalize spelling : e.bytes = bytes at denotes
  cases denotes with
  | @text raw _ short decoded =>
    refine ⟨raw, ?_, decoded, rfl⟩
    rw [text?, if_pos isText, (List.cons.inj spelling).2]
    rfl
  | plain other => exact absurd rfl other

theorem Denotes.plain (denotes : e.Denotes c) (other : c.kind ≠ .utf8) : e.bytes = c.encode := by
  unfold Denotes at denotes
  generalize e.bytes = bytes at denotes
  cases denotes with
  | text => exact absurd rfl other
  | plain => rfl

theorem Denotes.classRef {name : UInt16} (denotes : e.Denotes (.classRef name)) :
    e.payload.u16At? 0 = some name := by
  have plain : e.bytes = (Constant.classRef name).encode := denotes.plain nofun
  have payload : e.payload = Bytes.ofUInt16 name := (List.cons.inj plain).2
  rw [payload]
  exact Bytes.u16At?_length [] [] name

theorem payloadLength_plain (c : Constant) (other : c.kind ≠ .utf8) :
    c.kind.payloadLength? = some c.payload.length := by
  cases c with
  | utf8 text => exact absurd rfl other
  | _ => rfl

theorem read?_eq {kind : ConstantKind} {payload : Bytes}
    (length : payloadLength? kind (payload ++ rest) = some payload.length) :
    read? offset (kind.tag :: (payload ++ rest)) = some ⟨offset + 1, kind, payload⟩ := by
  simp [read?, length]

theorem read?_of_spells (spelled : c.Spells first) (offset : Nat) (rest : Bytes) :
    ∃ e, read? offset (first ++ rest) = some e ∧ e.bytes = first := by
  cases spelled with
  | @text raw text short decoded =>
    have length : raw.length.toUInt16.toNat = raw.length := by
      simp only [UInt16.toNat_ofNat']
      omega
    refine ⟨⟨offset + 1, .utf8, Bytes.ofUInt16 raw.length.toUInt16 ++ raw⟩, ?_, rfl⟩
    refine read?_eq ?_
    have front := Bytes.u16At?_length [] (raw ++ rest) raw.length.toUInt16
    rw [List.append_assoc, payloadLength?, ConstantKind.payloadLength?]
    rw [List.nil_append, List.length_nil] at front
    simp only [front, Option.map_some, length, List.length_append, Bytes.length_ofUInt16]
  | plain other =>
    refine ⟨⟨offset + 1, c.kind, c.payload⟩, ?_, rfl⟩
    refine read?_eq ?_
    rw [payloadLength?, payloadLength_plain c other]

/-! ### Rows of entries -/

theorem row_of_spells {bytes : Bytes} {entries : List Constant}
    (spelled : Pool.Spells bytes entries) (offset : Nat) (rest : Bytes) :
    List.Forall₂ Denotes (row entries.length offset (bytes ++ rest)) entries ∧
      (row entries.length offset (bytes ++ rest)).flatMap RawEntry.bytes = bytes := by
  induction spelled generalizing offset with
  | nil => exact ⟨.nil, rfl⟩
  | @cons first more c entries entry _ ih =>
    obtain ⟨e, found, rfl⟩ := read?_of_spells entry offset (more ++ rest)
    obtain ⟨denotes, whole⟩ := ih (offset + e.bytes.length)
    rw [List.append_assoc, List.length_cons, row, found]
    simp only [List.drop_left]
    exact ⟨.cons entry denotes, by rw [List.flatMap_cons, whole]⟩

theorem rel_slots {R : RawEntry → Constant → Prop} {raws : List RawEntry}
    {entries : List Constant} (rows : List.Forall₂ R raws entries)
    (denotes : ∀ e c, R e c → e.Denotes c) :
    List.Forall₂ (Option.Rel R) (raws.flatMap RawEntry.slots) (entries.flatMap Constant.slots) :=
  List.rel_flatMap rows fun _ _ rel => (denotes _ _ rel).rel_slots rel

/-- Entries take as many slots as they stand as they do when they are read. -/
theorem length_slots {raws : List RawEntry} {entries : List Constant}
    (denote : List.Forall₂ Denotes raws entries) :
    (raws.flatMap RawEntry.slots).length = (entries.flatMap Constant.slots).length :=
  (rel_slots denote fun _ _ => id).length_eq

/-- Entries stand together as they are written exactly if each of them does. -/
theorem flatMap_bytes_eq {raws : List RawEntry} {entries : List Constant}
    (denote : List.Forall₂ Denotes raws entries) :
    raws.flatMap RawEntry.bytes = entries.flatMap Constant.encode ↔
      List.Forall₂ (fun e c => e.bytes = c.encode) raws entries := by
  constructor
  · intro same
    induction denote with
    | nil => exact .nil
    | cons denotes _ ih =>
      rw [List.flatMap_cons, List.flatMap_cons] at same
      obtain ⟨head, rest, -⟩ := (denotes.reads 0).cancel (denotes.encode.reads 0) same
      exact .cons head (ih rest)
  · intro same
    induction same with
    | nil => rfl
    | cons head _ ih =>
      cases denote with
      | cons _ denote => rw [List.flatMap_cons, List.flatMap_cons, head, ih denote]

/-- An entry is written as it stands exactly if its text is, should it be one. -/
theorem Denotes.bytes_eq_iff (denotes : e.Denotes c) : e.bytes = c.encode ↔
    ∀ text, c = .utf8 text → e.text? = some (ModifiedUtf8.encode text) := by
  by_cases isText : c.kind = .utf8
  · cases c with
    | utf8 text =>
      obtain ⟨raw, found, -, spelling⟩ := denotes.text
      rw [spelling, found]
      constructor
      · intro same other isOther
        obtain rfl := Constant.utf8.inj isOther
        have payloads := (List.cons.inj same).2
        rw [(List.append_inj payloads rfl).2]
      · intro written
        rw [Option.some.inj (written text rfl)]
        rfl
    | _ => contradiction
  · constructor
    · rintro - text rfl
      exact absurd rfl isText
    · exact fun _ => denotes.plain isText

end RawEntry

end ClassBench
