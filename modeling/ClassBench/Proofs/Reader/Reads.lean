import ClassBench.ClassFile.Codec

/-! What a reader takes from its input.  `Reads reader bytes value` says that the reader, at any
position and whatever follows, takes exactly `bytes` and returns `value`.  Readers in sequence read
the concatenation of what each of them reads, so the round trip of a format follows its grammar. -/

namespace ClassBench

/-- The reader takes exactly `bytes` for `value`, wherever they stand and whatever follows. -/
def Reader.Reads (reader : Reader α) (bytes : Bytes) (value : α) : Prop :=
  ∀ rest position,
    reader ⟨bytes ++ rest, position⟩ = .ok value ⟨rest, position + bytes.length⟩

namespace Reader.Reads

variable {α β : Type} {reader : Reader α} {bytes more : Bytes} {a : α} {b : β}

protected theorem pure (a : α) : Reads (pure a) [] a := fun _ _ => rfl

/-- After a reader has taken its bytes, the next one goes on with the rest. -/
theorem bind_apply (h : Reads reader bytes a) (next : α → Reader β) (rest : Bytes)
    (position : Nat) :
    (reader >>= next) ⟨bytes ++ rest, position⟩ = next a ⟨rest, position + bytes.length⟩ := by
  show EStateM.bind reader next _ = _
  rw [EStateM.bind, h rest position]

theorem bind {next : α → Reader β} (h : Reads reader bytes a) (hNext : Reads (next a) more b) :
    Reads (reader >>= next) (bytes ++ more) b := by
  intro rest position
  rw [List.append_assoc, h.bind_apply, hNext, List.length_append, Nat.add_assoc]

theorem bind_nil {next : α → Reader β} (h : Reads reader bytes a)
    (hNext : Reads (next a) [] b) : Reads (reader >>= next) bytes b := by
  simpa using h.bind hNext

theorem map (f : α → β) (h : Reads reader bytes a) :
    Reads (do return f (← reader)) bytes (f a) :=
  h.bind_nil (Reads.pure (f a))

theorem run_eq (h : Reads reader bytes a) : reader.run bytes = .ok a := by
  have run := h [] 0
  rw [List.append_nil] at run
  rw [Reader.run, run]

/-- What a reader takes does not begin anything else that it takes. -/
theorem cancel {other rest rest' : Bytes} {a' : α} (h : Reads reader bytes a)
    (h' : Reads reader other a') (same : bytes ++ rest = other ++ rest') :
    bytes = other ∧ rest = rest' ∧ a = a' := by
  have run := h rest 0
  rw [same, h' rest' 0] at run
  obtain ⟨value, cursor⟩ := EStateM.Result.ok.inj run
  have length : other.length = bytes.length := by simpa using congrArg Cursor.position cursor
  obtain ⟨taken, left⟩ := List.append_inj same length.symm
  exact ⟨taken, left, value.symm⟩

/-- A reader that first asks where it is takes the same bytes everywhere. -/
protected theorem position {next : Nat → Reader β} (h : ∀ start, Reads (next start) bytes b) :
    Reads (Reader.position >>= next) bytes b :=
  fun rest start => h start rest start

/-- A reader that first looks at what is left finds its own bytes in front. -/
protected theorem get {next : Cursor → Reader β}
    (h : ∀ cursor : Cursor, bytes <+: cursor.rest → Reads (next cursor) bytes b) :
    Reads (get >>= next) bytes b :=
  fun rest start => h _ (List.prefix_append bytes rest) rest start

/-! ### Bytes and words -/

protected theorem u8 (byte : UInt8) : Reads Reader.u8 [byte] byte := fun _ _ => rfl

protected theorem u16 (w : UInt16) : Reads Reader.u16 (Bytes.ofUInt16 w) w := by
  intro rest position
  simp only [Bytes.ofUInt16, Reader.u16, List.cons_append, List.nil_append, Word.u16_bytes]
  rfl

protected theorem u32 (w : UInt32) : Reads Reader.u32 (Bytes.ofUInt32 w) w := by
  intro rest position
  simp only [Bytes.ofUInt32, Reader.u32, List.cons_append, List.nil_append, Word.u32_bytes]
  rfl

protected theorem i32 (n : Int32) : Reads Reader.i32 (Bytes.ofInt32 n) n := by
  simpa [Reader.i32, Bytes.ofInt32] using (Reads.u32 n.toUInt32).map UInt32.toInt32

protected theorem u64 (w : UInt64) : Reads Reader.u64 (Bytes.ofUInt64 w) w := by
  have low := (Reads.u32 w.toNat.toUInt32).map (Word.u64 (w.toNat / 4294967296).toUInt32)
  rw [Word.u64_halves] at low
  exact (Reads.u32 _).bind low

protected theorem i64 (n : Int64) : Reads Reader.i64 (Bytes.ofInt64 n) n := by
  simpa [Reader.i64, Bytes.ofInt64] using (Reads.u64 n.toUInt64).map UInt64.toInt64

protected theorem bytes (taken : Bytes) : Reads (Reader.bytes taken.length) taken taken := by
  intro rest position
  simp [Reader.bytes, List.splitAt_eq]

/-- The length field holds the length of a shorter string exactly. -/
protected theorem measured (taken : Bytes) (short : taken.length < UInt32.size) :
    Reads Reader.measured (Bytes.measured taken) taken := by
  refine (Reads.u32 _).bind ?_
  have length : taken.length.toUInt32.toNat = taken.length := by
    simpa [UInt32.size] using short
  rw [length]
  exact Reads.bytes taken

/-! ### Lists -/

/-- Items that are read one by one are read in a row, after those already read. -/
theorem repeatInto {item : Reader α} {encode : α → Bytes} (items read : List α)
    (each : ∀ x ∈ items, Reads item (encode x) x) :
    Reads (Reader.repeatInto item items.length read) (items.flatMap encode)
      (read.reverse ++ items) := by
  induction items generalizing read with
  | nil => simpa [Reader.repeatInto] using Reads.pure read.reverse
  | cons x items ih =>
    have tail := ih (x :: read) fun y hy => each y (List.mem_cons_of_mem x hy)
    rw [List.reverse_cons, List.append_assoc] at tail
    exact (each x List.mem_cons_self).bind tail

/-- The count field holds the length of a list that is not too long exactly. -/
theorem counted {item : Reader α} {encode : α → Bytes} {items : List α}
    (short : items.length ≤ 65535) (each : ∀ x ∈ items, Reads item (encode x) x) :
    Reads (Reader.counted item) (Bytes.counted encode items) items := by
  refine (Reads.u16 _).bind ?_
  have count : items.length.toUInt16.toNat = items.length := by
    simp only [UInt16.toNat_ofNat']
    omega
  rw [count]
  exact repeatInto items [] each

end Reader.Reads

end ClassBench
