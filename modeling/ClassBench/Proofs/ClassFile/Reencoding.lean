import ClassBench.Proofs.ClassFile.Layout

/-! What becomes of a class file that is read and written again.  The bytes around the pool and the
entries without text come back as they were.  A text is written in the fewest bytes, whatever
spelling was read, and the count is that of the slots of the pool, which the declared count may miss
by what reading makes of it.  Both are settled after one round: what is written is read as the same
class, and written again as it is. -/

namespace ClassBench

/-! ### The count that is written -/

namespace Pool

variable {declared : UInt16} {size : Nat} {entries : List Constant}

theorem Runs.ends {more : Nat → Prop} (runs : Runs more size entries) :
    ¬more (size + (entries.flatMap Constant.slots).length) := by
  induction entries generalizing size with
  | nil => exact runs
  | cons c entries ih =>
    have later := ih runs.2
    rwa [Nat.add_assoc, ← List.length_append, ← List.flatMap_cons] at later

/-- A higher count runs through the same entries, if it does not go on after them. -/
theorem Runs.mono {higher : UInt16} (runs : Runs (GoesOn declared) size entries)
    (le : declared ≤ higher)
    (stops : ¬GoesOn higher (size + (entries.flatMap Constant.slots).length)) :
    Runs (GoesOn higher) size entries := by
  induction entries generalizing size with
  | nil => exact stops
  | cons c entries ih =>
    rw [List.flatMap_cons, List.length_append, ← Nat.add_assoc] at stops
    refine ⟨?_, ih runs.2 stops⟩
    have more := runs.1
    rw [UInt16.le_iff_toNat_le] at le
    simp only [GoesOn] at more ⊢
    omega

/-- The count of the pool that was read runs through its entries, as the declared one does. -/
theorem Runs.count {pool : Pool} (runs : Runs (GoesOn declared) 1 pool.entries) :
    Runs (GoesOn pool.count) 1 pool.entries := by
  have total : 1 + (pool.entries.flatMap Constant.slots).length = pool.slots.size :=
    pool.size_slots.symm
  have reached := runs.ends
  rw [total, ← count_lt, UInt16.not_lt] at reached
  refine runs.mono reached ?_
  rw [total, ← count_lt]
  exact UInt16.lt_irrefl _

end Pool

/-! ### What is written, in the parts of what was read -/

namespace ClassFile

variable {b : Bytes} {c : ClassFile}

/-- Every text of the pool stands in the bytes as it is written. -/
def TextsAsWritten (c : ClassFile) (b : Bytes) : Prop :=
  ∀ (k : Nat) (text : String), c.pool.entries[k]? = some (.utf8 text) →
    (c.rawEntries b)[k]?.bind RawEntry.text? = some (ModifiedUtf8.encode text)

theorem Layout.decode_encode_eq {declared : UInt16} (layout : c.Layout b declared) :
    decode c.encode = .ok c :=
  decode_eq_ok.mpr ⟨c.pool.count, _, encode_eq c, layout.spelled.encode, layout.runs.count,
    layout.fits⟩

theorem Layout.length_encode_le {declared : UInt16} (layout : c.Layout b declared) :
    c.encode.length ≤ b.length := by
  have shorter := layout.spelled.length_encode_le
  have split := congrArg List.length layout.split
  rw [split, encode_eq, Pool.encode]
  simp only [List.length_append, Bytes.length_ofUInt16]
  omega

theorem PoolLayout.encode_eq_iff {declared : UInt16} (layout : c.PoolLayout b declared) :
    c.encode = b ↔ declared = c.pool.count ∧
      (c.rawEntries b).flatMap RawEntry.bytes = c.pool.entries.flatMap Constant.encode := by
  constructor
  · intro same
    have whole := (encode_eq c).symm.trans (same.trans layout.split)
    rw [List.append_cancel_right_eq, List.append_cancel_left_eq] at whole
    obtain ⟨-, entries, counts⟩ := (Reader.Reads.u16 _).cancel (Reader.Reads.u16 _) whole
    exact ⟨counts.symm, entries.symm⟩
  · rintro ⟨rfl, same⟩
    rw [encode_eq, Pool.encode, ← same]
    exact layout.split.symm

theorem textsAsWritten_iff
    (denote : List.Forall₂ RawEntry.Denotes (c.rawEntries b) c.pool.entries) : c.TextsAsWritten b ↔
      List.Forall₂ (fun e c => e.bytes = c.encode) (c.rawEntries b) c.pool.entries := by
  unfold TextsAsWritten
  generalize c.rawEntries b = raws at denote ⊢
  generalize c.pool.entries = entries at denote ⊢
  induction denote with
  | nil => simp
  | @cons e d raws entries denotes _ ih =>
    rw [List.forall₂_cons, ← ih, denotes.bytes_eq_iff]
    constructor
    · intro written
      refine ⟨fun text isText => ?_, fun k text => written (k + 1) text⟩
      exact written 0 text (congrArg some isText)
    · rintro ⟨head, more⟩ k text found
      cases k with
      | zero => exact head text (Option.some.inj found)
      | succ k => exact more k text found

theorem PoolLayout.comes_back_iff {declared : UInt16} (layout : c.PoolLayout b declared) :
    c.encode = b ↔ b.u16At? PoolIndex.countOffset = some c.pool.count ∧ c.TextsAsWritten b := by
  rw [layout.encode_eq_iff, layout.declared_eq, Option.some.injEq,
    textsAsWritten_iff layout.denote, RawEntry.flatMap_bytes_eq layout.denote]

/-! ### Reading and writing again -/

/-- What is written for a class that was read is read as the same class and is no longer than what
was read.  It is what was read exactly if the declared count is that of the pool and every text
stands as it is written. -/
theorem reencoding_is_normal_form (b : Bytes) (c : ClassFile) (decoded : decode b = .ok c) :
    decode c.encode = .ok c ∧ c.encode.length ≤ b.length ∧
      (c.encode = b ↔
        b.u16At? PoolIndex.countOffset = some c.pool.count ∧ c.TextsAsWritten b) := by
  obtain ⟨declared, layout⟩ := layout_of_decode decoded
  exact ⟨layout.decode_encode_eq, layout.length_encode_le, layout.comes_back_iff⟩

/-- A text in two bytes for a letter, and a wide entry whose empty slot lies behind the declared
count. -/
theorem reencoding_is_normal_form_wide :
    let b : Bytes := [0xCA, 0xFE, 0xBA, 0xBE, 0, 0, 0, 52, 0, 4, 1, 0, 2, 0xC1, 0x81, 7, 0, 1,
      5, 0, 0, 0, 0, 0, 0, 0, 0, 0, 33, 0, 2, 0, 0, 0, 0, 0, 0, 0, 0, 0, 0]
    let pool := ((do
      let _ ← Pool.classRef "A"
      Pool.push (.long 0) : StateM Pool UInt16) Pool.empty).2
    let c : ClassFile := { pool, thisClass := 2, superClass := 0 }
    decode b = .ok c ∧ decode c.encode = .ok c ∧ c.encode.length ≤ b.length ∧
      (c.encode = b ↔
        b.u16At? PoolIndex.countOffset = some c.pool.count ∧ c.TextsAsWritten b) := by
  intro b pool c
  have decoded : decode b = .ok c := by decide +kernel
  exact ⟨decoded, reencoding_is_normal_form b c decoded⟩

/-- Where the declared count is that of the pool, what was read and what is written differ within
the entries of texts only, and each of these is read as the text that is written.  So a class whose
texts stand as they are written comes back byte by byte. -/
theorem reencoding_changes_texts_only (b : Bytes) (c : ClassFile) (decoded : decode b = .ok c)
    (counted : b.u16At? PoolIndex.countOffset = some c.pool.count) :
    let front := b.take (PoolIndex.countOffset + 2)
    b = front ++ (c.rawEntries b).flatMap RawEntry.bytes ++ c.tail ∧
      c.encode = front ++ c.pool.entries.flatMap Constant.encode ++ c.tail ∧
      List.Forall₂ (fun e d => (d.kind ≠ .utf8 → e.bytes = d.encode) ∧
          ∀ text, d = .utf8 text → ∃ raw, e.text? = some raw ∧ ModifiedUtf8.decode raw 0 = .ok text)
        (c.rawEntries b) c.pool.entries ∧
      (c.TextsAsWritten b → c.encode = b) := by
  intro front
  obtain ⟨declared, layout⟩ := layout_of_decode decoded
  obtain rfl : declared = c.pool.count := by
    simpa [layout.declared_eq] using counted
  have split := layout.split
  rw [← List.append_assoc] at split
  have begins : front = c.head ++ Bytes.ofUInt16 c.pool.count := by
    have length : PoolIndex.countOffset + 2 = (c.head ++ Bytes.ofUInt16 c.pool.count).length := rfl
    show b.take _ = _
    rw [split, length, List.append_assoc, List.take_left]
  refine ⟨begins ▸ split, ?_, ?_, fun written => ?_⟩
  · rw [begins, encode_eq, Pool.encode, ← List.append_assoc]
  · refine layout.denote.imp fun e d denotes => ⟨denotes.plain, ?_⟩
    rintro text rfl
    obtain ⟨raw, found, read, -⟩ := denotes.text
    exact ⟨raw, found, read⟩
  · exact layout.comes_back_iff.mpr ⟨counted, written⟩

/-- A class named by a letter in two bytes, and the same class with the letter as it is written. -/
theorem reencoding_changes_texts_only_letter :
    let front : Bytes := [0xCA, 0xFE, 0xBA, 0xBE, 0, 0, 0, 52, 0, 3]
    let tail : Bytes := [7, 0, 1, 0, 33, 0, 2, 0, 0, 0, 0, 0, 0, 0, 0, 0, 0]
    let long := front ++ [1, 0, 2, 0xC1, 0x81] ++ tail
    let short := front ++ [1, 0, 1, 65] ++ tail
    let c : ClassFile :=
      { pool := (Pool.classRef "A" Pool.empty).2, thisClass := 2, superClass := 0 }
    (decode long = .ok c ∧ long.u16At? PoolIndex.countOffset = some c.pool.count ∧
      long = front ++ (c.rawEntries long).flatMap RawEntry.bytes ++ c.tail ∧
      c.encode = front ++ c.pool.entries.flatMap Constant.encode ++ c.tail) ∧
    decode short = .ok c ∧ short.u16At? PoolIndex.countOffset = some c.pool.count ∧
      c.TextsAsWritten short ∧ c.encode = short := by
  intro front tail long short c
  have readLong : decode long = .ok c := by decide +kernel
  have readShort : decode short = .ok c := by decide +kernel
  have countLong : long.u16At? PoolIndex.countOffset = some c.pool.count := by decide +kernel
  have countShort : short.u16At? PoolIndex.countOffset = some c.pool.count := by decide +kernel
  have entries : c.pool.entries = [.utf8 "A", .classRef 1] := by decide +kernel
  have name : (c.rawEntries short)[0]?.bind RawEntry.text? = some (ModifiedUtf8.encode "A") := by
    decide +kernel
  have written : c.TextsAsWritten short := by
    intro k text found
    rw [entries] at found
    match k with
    | 0 =>
      obtain rfl := Constant.utf8.inj (Option.some.inj found)
      exact name
    | 1 => simp at found
    | k + 2 => simp at found
  obtain ⟨splitLong, splitEncoded, -, -⟩ := reencoding_changes_texts_only long c readLong countLong
  obtain ⟨-, -, -, comesBack⟩ := reencoding_changes_texts_only short c readShort countShort
  exact ⟨⟨readLong, countLong, splitLong, splitEncoded⟩, readShort, countShort, written,
    comesBack written⟩

/-- A letter in two bytes is written in one, and a pool without entries that declares no slots is
written with one. -/
theorem reencoding_differs :
    let long : Bytes := [0xCA, 0xFE, 0xBA, 0xBE, 0, 0, 0, 52, 0, 3, 1, 0, 2, 0xC1, 0x81, 7, 0, 1,
      0, 33, 0, 2, 0, 0, 0, 0, 0, 0, 0, 0, 0, 0]
    let uncounted : Bytes := [0xCA, 0xFE, 0xBA, 0xBE, 0, 0, 0, 52, 0, 0,
      0, 33, 0, 0, 0, 0, 0, 0, 0, 0, 0, 0, 0, 0]
    let c : ClassFile :=
      { pool := (Pool.classRef "A" Pool.empty).2, thisClass := 2, superClass := 0 }
    let bare : ClassFile := { pool := Pool.empty, thisClass := 0, superClass := 0 }
    (decode long = .ok c ∧ c.encode ≠ long) ∧
      decode uncounted = .ok bare ∧ bare.encode ≠ uncounted := by
  decide +kernel

end ClassFile

end ClassBench
