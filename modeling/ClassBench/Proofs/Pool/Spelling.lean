import ClassBench.Pool.Codec
import ClassBench.Proofs.Reader.Reads
import ClassBench.Proofs.Reader.Takes
import ClassBench.Proofs.Text.ModifiedUtf8

/-! Which bytes are read as which constant pool.  A text may be spelled in more bytes than it needs;
every other entry has one spelling.  The bytes hold no slot numbers: reading counts the slots of the
entries read so far, a wide entry for two, and takes the count as a 16-bit word.  It goes on while
that word is below the declared count, so `Runs` says which entries it takes. -/

namespace ClassBench

/-! ### Constants -/

namespace Constant

/-- The bytes are read as an entry. -/
inductive Spells : Bytes → Constant → Prop
  | text {raw : Bytes} {text : String} (short : raw.length ≤ 65535)
      (decoded : ModifiedUtf8.decode raw 0 = .ok text) :
      Spells (ConstantKind.utf8.tag :: (Bytes.ofUInt16 raw.length.toUInt16 ++ raw)) (.utf8 text)
  | plain {c : Constant} (other : c.kind ≠ .utf8) : Spells c.encode c

variable {bytes : Bytes} {c : Constant} {cursor : Cursor}

theorem Spells.length_pos (spelled : Spells bytes c) : 0 < bytes.length := by
  cases spelled <;> simp [encode]

theorem slots_length_pos (c : Constant) : 0 < c.slots.length := by
  unfold slots
  split <;> simp

theorem slots_length_le (c : Constant) : c.slots.length ≤ 2 := by
  unfold slots
  split <;> simp

theorem filterMap_slots (c : Constant) : c.slots.filterMap id = [c] := by
  unfold slots
  split <;> rfl

theorem reads_text {raw : Bytes} {text : String} (short : raw.length ≤ 65535)
    (decoded : ModifiedUtf8.decode raw 0 = .ok text) :
    readText.Reads (Bytes.ofUInt16 raw.length.toUInt16 ++ raw) text := by
  have length : raw.length.toUInt16.toNat = raw.length := by
    simp only [UInt16.toNat_ofNat']
    omega
  refine (Reader.Reads.u16 _).bind (Reader.Reads.position fun start => ?_)
  rw [length]
  refine (Reader.Reads.bytes raw).bind_nil ?_
  rw [ModifiedUtf8.decode_eq_ok.mpr (ModifiedUtf8.decode_eq_ok.mp decoded)]
  exact Reader.Reads.pure text

theorem reads_index (make : UInt16 → Constant) (a : UInt16) :
    (readIndex make).Reads (Bytes.ofUInt16 a) (make a) :=
  (Reader.Reads.u16 a).map make

theorem reads_indices (make : UInt16 → UInt16 → Constant) (a b : UInt16) :
    (readIndices make).Reads (Bytes.ofUInt16 a ++ Bytes.ofUInt16 b) (make a b) :=
  (Reader.Reads.u16 a).bind ((Reader.Reads.u16 b).map (make a))

theorem reads_payload (c : Constant) (other : c.kind ≠ .utf8) :
    (readPayload c.kind).Reads c.payload c := by
  cases c with
  | utf8 text => exact absurd rfl other
  | integer value => exact (Reader.Reads.i32 value).map integer
  | float bits => exact (Reader.Reads.u32 bits).map float
  | long value => exact (Reader.Reads.i64 value).map long
  | double bits => exact (Reader.Reads.u64 bits).map double
  | methodHandle mode member =>
    exact (Reader.Reads.u8 mode).bind ((Reader.Reads.u16 member).map (methodHandle mode))
  | classRef | string | methodType | moduleRef | packageRef => exact reads_index _ _
  | fieldRef | methodRef | interfaceMethodRef | nameAndType | dynamic | invokeDynamic =>
    exact reads_indices _ _ _

/-- A tag says how to read what follows it, whatever the index of the entry. -/
theorem reads_tagged {payload : Bytes} (index : UInt16)
    (reads : (readPayload c.kind).Reads payload c) :
    (read index).Reads (c.tag :: payload) c := by
  refine Reader.Reads.position fun offset => ?_
  show Reader.Reads _ ([c.tag] ++ payload) c
  refine (Reader.Reads.u8 c.tag).bind ?_
  simpa [tag] using reads

theorem Spells.reads (spelled : Spells bytes c) (index : UInt16) : (read index).Reads bytes c := by
  cases spelled with
  | @text raw text short decoded =>
    exact reads_tagged (c := .utf8 text) index ((reads_text short decoded).map utf8)
  | plain other => exact reads_tagged index (reads_payload c other)

theorem takes_text : Reader.Takes readText cursor fun taken text => ∃ raw : Bytes,
    taken = Bytes.ofUInt16 raw.length.toUInt16 ++ raw ∧ raw.length ≤ 65535 ∧
      ModifiedUtf8.decode raw 0 = .ok text := by
  refine Reader.Takes.u16.bind fun first length middle _ hFirst => Reader.Takes.position ?_
  refine (Reader.Takes.bytes length.toNat).bind fun second raw _ _ ⟨hSecond, full⟩ => ?_
  have bound := length.toNat_lt
  split
  · next text decoded =>
    refine Reader.Takes.pure ⟨raw, ?_, by omega, ?_⟩
    · rw [hFirst, hSecond, full]
      simp
    · exact ModifiedUtf8.decode_eq_ok.mpr (ModifiedUtf8.decode_eq_ok.mp decoded)
  · exact Reader.Takes.throw

theorem takes_index {kind : ConstantKind} {make : UInt16 → Constant} (other : kind ≠ .utf8)
    (kinds : ∀ a, (make a).kind = kind) (payloads : ∀ a, (make a).payload = Bytes.ofUInt16 a) :
    Reader.Takes (readIndex make) cursor fun taken c => Spells (kind.tag :: taken) c := by
  refine Reader.Takes.u16.map make fun taken a spelled => ?_
  have plain : Spells (make a).encode (make a) := .plain (by rwa [kinds])
  rwa [encode, tag, kinds, payloads, ← spelled] at plain

theorem takes_indices {kind : ConstantKind} {make : UInt16 → UInt16 → Constant}
    (other : kind ≠ .utf8) (kinds : ∀ a b, (make a b).kind = kind)
    (payloads : ∀ a b, (make a b).payload = Bytes.ofUInt16 a ++ Bytes.ofUInt16 b) :
    Reader.Takes (readIndices make) cursor fun taken c => Spells (kind.tag :: taken) c := by
  refine Reader.Takes.u16.bind fun first a _ _ hFirst => ?_
  refine Reader.Takes.u16.map (make a) fun second b hSecond => ?_
  have plain : Spells (make a b).encode (make a b) := .plain (by rwa [kinds])
  rwa [encode, tag, kinds, payloads, ← hFirst, ← hSecond] at plain

theorem takes_payload (kind : ConstantKind) :
    Reader.Takes (readPayload kind) cursor fun taken c => Spells (kind.tag :: taken) c := by
  cases kind with
  | utf8 =>
    refine takes_text.map utf8 fun taken text spelled => ?_
    obtain ⟨raw, rfl, short, decoded⟩ := spelled
    exact .text short decoded
  | integer =>
    refine Reader.Takes.i32.map integer fun taken value spelled => ?_
    rw [spelled]
    exact .plain (c := .integer value) (by simp [Constant.kind])
  | float =>
    refine Reader.Takes.u32.map float fun taken bits spelled => ?_
    rw [spelled]
    exact .plain (c := .float bits) (by simp [Constant.kind])
  | long =>
    refine Reader.Takes.i64.map long fun taken value spelled => ?_
    rw [spelled]
    exact .plain (c := .long value) (by simp [Constant.kind])
  | double =>
    refine Reader.Takes.u64.map double fun taken bits spelled => ?_
    rw [spelled]
    exact .plain (c := .double bits) (by simp [Constant.kind])
  | methodHandle =>
    refine Reader.Takes.u8.bind fun first mode _ _ hFirst => ?_
    refine Reader.Takes.u16.map (methodHandle mode) fun second member hSecond => ?_
    rw [hFirst, hSecond]
    exact .plain (c := .methodHandle mode member) (by simp [Constant.kind])
  | classRef | string | methodType | moduleRef | packageRef =>
    exact takes_index (by decide) (fun _ => rfl) (fun _ => rfl)
  | fieldRef | methodRef | interfaceMethodRef | nameAndType | dynamic | invokeDynamic =>
    exact takes_indices (by decide) (fun _ _ => rfl) (fun _ _ => rfl)

theorem ofTag?_eq_some {t : UInt8} {kind : ConstantKind}
    (known : ConstantKind.ofTag? t = some kind) : kind.tag = t := by
  unfold ConstantKind.ofTag? at known
  split at known <;> first | contradiction | (obtain rfl := Option.some.inj known; rfl)

theorem takes_spelling (index : UInt16) : Reader.Takes (read index) cursor Spells := by
  refine Reader.Takes.position (Reader.Takes.u8.bind fun first t _ _ hFirst => ?_)
  split
  · next kind known =>
    refine (takes_payload kind).mono fun second c spelled => ?_
    rw [hFirst, List.singleton_append, ← ofTag?_eq_some known]
    exact spelled
  · exact Reader.Takes.throw

theorem Spells.length_encode_le (spelled : Spells bytes c) : c.encode.length ≤ bytes.length := by
  cases spelled with
  | text short decoded =>
    have shortest := ModifiedUtf8.length_encode_le decoded
    simpa [encode, payload, tag] using shortest
  | plain => exact Nat.le_refl _

/-- An entry that is read may be written, because its shortest spelling fits too. -/
theorem Spells.encode (spelled : Spells bytes c) : Spells c.encode c := by
  cases spelled with
  | text short decoded =>
    have shortest := ModifiedUtf8.length_encode_le decoded
    exact .text (Nat.le_trans shortest short) (ModifiedUtf8.decode_encoded 0 _)
  | plain other => exact .plain other

end Constant

/-! ### Pools and their entries -/

namespace Pool

theorem ext_slots {pool other : Pool} (h : pool.slots.toList = other.slots.toList) :
    pool = other := by
  cases pool
  cases other
  simpa using Array.toList_inj.mp h

/-- The pool after entries are added one by one. -/
def pushAll (pool : Pool) (entries : List Constant) : Pool :=
  entries.foldl (fun pool c => (push c pool).2) pool

theorem toList_push (pool : Pool) (c : Constant) :
    (push c pool).2.slots.toList = pool.slots.toList ++ c.slots :=
  toList_extend pool.slots c

theorem size_push (pool : Pool) (c : Constant) :
    (push c pool).2.slots.size = pool.slots.size + c.slots.length := by
  simpa using congrArg List.length (toList_push pool c)

theorem toList_pushAll (pool : Pool) (entries : List Constant) :
    (pool.pushAll entries).slots.toList =
      pool.slots.toList ++ entries.flatMap Constant.slots := by
  induction entries generalizing pool with
  | nil => simp [pushAll]
  | cons c entries ih =>
    show ((push c pool).2.pushAll entries).slots.toList = _
    rw [ih, toList_push, List.append_assoc, List.flatMap_cons]

theorem entries_of_layout {pool : Pool} {entries : List Constant}
    (layout : pool.slots.toList = none :: entries.flatMap Constant.slots) :
    pool.entries = entries := by
  rw [Pool.entries, layout, List.filterMap_cons_none rfl, List.filterMap_flatMap]
  simp only [Constant.filterMap_slots]
  exact List.flatMap_singleton' entries

theorem toList_slots (pool : Pool) :
    pool.slots.toList = none :: pool.entries.flatMap Constant.slots := by
  obtain ⟨entries, layout⟩ := pool.laidOut
  rw [layout, entries_of_layout layout]

theorem entries_pushAll (entries : List Constant) : (empty.pushAll entries).entries = entries :=
  entries_of_layout (toList_pushAll empty entries)

/-- A pool is what its entries make of the empty one. -/
theorem pushAll_entries (pool : Pool) : empty.pushAll pool.entries = pool := by
  apply ext_slots
  rw [toList_pushAll, toList_slots pool]
  rfl

theorem size_slots (pool : Pool) :
    pool.slots.size = 1 + (pool.entries.flatMap Constant.slots).length := by
  have total := congrArg List.length pool.toList_slots
  rw [Array.length_toList, List.length_cons] at total
  omega

/-! ### Rows of entries -/

/-- The bytes are read as entries in a row. -/
inductive Spells : Bytes → List Constant → Prop
  | nil : Spells [] []
  | cons {first rest : Bytes} {c : Constant} {entries : List Constant}
      (entry : c.Spells first) (more : Spells rest entries) : Spells (first ++ rest) (c :: entries)

/-- A loop that goes on while `more` holds of the number of slots takes exactly these entries. -/
def Runs (more : Nat → Prop) : Nat → List Constant → Prop
  | size, [] => ¬more size
  | size, c :: entries => more size ∧ Runs more (size + c.slots.length) entries

/-- With a declared count, reading goes on at so many slots. -/
def GoesOn (declared : UInt16) (size : Nat) : Prop := size % 65536 < declared.toNat

variable {bytes : Bytes} {entries : List Constant} {declared : UInt16} {cursor : Cursor}

theorem count_lt {pool : Pool} : pool.count < declared ↔ GoesOn declared pool.slots.size := by
  simp [UInt16.lt_iff_toNat_lt, Pool.count, GoesOn]

theorem Spells.length_le (spelled : Spells bytes entries) : entries.length ≤ bytes.length := by
  induction spelled with
  | nil => exact Nat.le_refl 0
  | cons entry _ ih =>
    have := entry.length_pos
    rw [List.length_cons, List.length_append]
    omega

theorem Spells.length_encode_le (spelled : Spells bytes entries) :
    (entries.flatMap Constant.encode).length ≤ bytes.length := by
  induction spelled with
  | nil => exact Nat.le_refl 0
  | cons entry _ ih =>
    rw [List.flatMap_cons, List.length_append, List.length_append]
    exact Nat.add_le_add entry.length_encode_le ih

theorem Spells.encode (spelled : Spells bytes entries) :
    Spells (entries.flatMap Constant.encode) entries := by
  induction spelled with
  | nil => exact .nil
  | cons entry _ ih => exact .cons entry.encode ih

/-- Reading takes the entries that its count runs through, and no fuel beyond their number. -/
theorem Spells.reads (spelled : Spells bytes entries) {pool : Pool} {fuel : Nat}
    (enough : entries.length ≤ fuel) (runs : Runs (GoesOn declared) pool.slots.size entries) :
    (readEntries declared fuel pool).Reads bytes (pool.pushAll entries) := by
  induction spelled generalizing pool fuel with
  | nil =>
    cases fuel with
    | zero => exact Reader.Reads.pure pool
    | succ fuel =>
      rw [readEntries, if_neg ((not_congr count_lt).mpr runs)]
      exact Reader.Reads.pure pool
  | @cons first rest c entries entry _ ih =>
    cases fuel with
    | zero => simp at enough
    | succ fuel =>
      obtain ⟨more, runs⟩ := runs
      rw [← size_push] at runs
      rw [readEntries, if_pos (count_lt.mpr more)]
      exact (entry.reads pool.count).bind (ih (by simpa using enough) runs)

theorem takes_entries {fuel : Nat} (enough : cursor.rest.length < fuel) (pool : Pool) :
    Reader.Takes (readEntries declared fuel pool) cursor fun taken result => ∃ entries,
      result = pool.pushAll entries ∧ Spells taken entries ∧
        Runs (GoesOn declared) pool.slots.size entries := by
  induction fuel generalizing pool cursor with
  | zero => exact absurd enough (Nat.not_lt_zero _)
  | succ fuel ih =>
    rw [readEntries]
    split
    · next more =>
      refine (Constant.takes_spelling pool.count).bind fun first c middle split entry => ?_
      -- An entry takes a byte, so that the fuel lasts for the bytes behind it.
      have shorter : middle.rest.length < fuel := by
        have := entry.length_pos
        have := congrArg List.length split
        rw [List.length_append] at this
        omega
      refine (ih shorter _).mono fun second result ⟨entries, same, spelled, runs⟩ => ?_
      rw [size_push] at runs
      exact ⟨c :: entries, same, .cons entry spelled, count_lt.mp more, runs⟩
    · next full => exact Reader.Takes.pure ⟨[], rfl, .nil, (not_congr count_lt).mp full⟩

theorem Spells.reads_pool (spelled : Spells bytes entries)
    (runs : Runs (GoesOn declared) 1 entries) :
    read.Reads (Bytes.ofUInt16 declared ++ bytes) (empty.pushAll entries) := by
  refine (Reader.Reads.u16 declared).bind (Reader.Reads.get fun cursor front => ?_)
  have := spelled.length_le
  have := front.length_le
  exact spelled.reads (by omega) runs

/-- Whatever is read as a pool spells its entries behind a count that runs through them. -/
theorem takes_pool : Reader.Takes read cursor fun taken pool => ∃ declared bytes,
    taken = Bytes.ofUInt16 declared ++ bytes ∧ Spells bytes pool.entries ∧
      Runs (GoesOn declared) 1 pool.entries := by
  refine Reader.Takes.u16.bind fun first declared middle _ hFirst => Reader.Takes.get ?_
  refine (takes_entries (Nat.lt_succ_self _) empty).mono ?_
  rintro second pool ⟨entries, rfl, spelled, runs⟩
  rw [entries_pushAll]
  exact ⟨declared, second, by rw [hFirst], spelled, runs⟩

end Pool

end ClassBench
