/-! Byte strings and the big-endian words in them.  A word of any width is written with its highest
byte first, and `Word.u16`, `Word.u32` and `Word.u64` put the pieces of a word together again. -/

namespace ClassBench

/-- A string of bytes. -/
abbrev Bytes := List UInt8

namespace Bytes

/-- The two bytes of a 16-bit word. -/
def ofUInt16 (w : UInt16) : Bytes := [(w.toNat / 256).toUInt8, w.toNat.toUInt8]

/-- The four bytes of a 32-bit word. -/
def ofUInt32 (w : UInt32) : Bytes :=
  [(w.toNat / 16777216).toUInt8, (w.toNat / 65536).toUInt8, (w.toNat / 256).toUInt8,
    w.toNat.toUInt8]

/-- The eight bytes of a 64-bit word. -/
def ofUInt64 (w : UInt64) : Bytes :=
  ofUInt32 (w.toNat / 4294967296).toUInt32 ++ ofUInt32 w.toNat.toUInt32

/-- The four bytes of a signed 32-bit word. -/
def ofInt32 (n : Int32) : Bytes := ofUInt32 n.toUInt32

/-- The eight bytes of a signed 64-bit word. -/
def ofInt64 (n : Int64) : Bytes := ofUInt64 n.toUInt64

@[simp] theorem length_ofUInt16 (w : UInt16) : (ofUInt16 w).length = 2 := rfl

@[simp] theorem length_ofUInt32 (w : UInt32) : (ofUInt32 w).length = 4 := rfl

@[simp] theorem length_ofUInt64 (w : UInt64) : (ofUInt64 w).length = 8 := rfl

end Bytes

namespace Word

/-- The 16-bit word with these two bytes. -/
def u16 (high low : UInt8) : UInt16 := (high.toNat * 256 + low.toNat).toUInt16

/-- The 32-bit word with these four bytes. -/
def u32 (a b c d : UInt8) : UInt32 :=
  (a.toNat * 16777216 + b.toNat * 65536 + c.toNat * 256 + d.toNat).toUInt32

/-- The 64-bit word with these two halves. -/
def u64 (high low : UInt32) : UInt64 := (high.toNat * 4294967296 + low.toNat).toUInt64

theorem u16_bytes (w : UInt16) : u16 (w.toNat / 256).toUInt8 w.toNat.toUInt8 = w := by
  have h := w.toNat_lt
  apply UInt16.toNat_inj.mp
  simp [u16]
  omega

theorem u32_bytes (w : UInt32) :
    u32 (w.toNat / 16777216).toUInt8 (w.toNat / 65536).toUInt8 (w.toNat / 256).toUInt8
      w.toNat.toUInt8 = w := by
  have h := w.toNat_lt
  apply UInt32.toNat_inj.mp
  simp [u32]
  omega

theorem u64_halves (w : UInt64) :
    u64 (w.toNat / 4294967296).toUInt32 w.toNat.toUInt32 = w := by
  have h := w.toNat_lt
  apply UInt64.toNat_inj.mp
  simp [u64]
  omega

end Word

namespace Bytes

theorem ofUInt16_u16 (a b : UInt8) : ofUInt16 (Word.u16 a b) = [a, b] := by
  have ha := a.toNat_lt
  have hb := b.toNat_lt
  have value : (Word.u16 a b).toNat = a.toNat * 256 + b.toNat := by
    simp [Word.u16]
    omega
  have high : (a.toNat * 256 + b.toNat) / 256 = a.toNat := by omega
  have low : (a.toNat * 256 + b.toNat).toUInt8 = b := by
    apply UInt8.toNat_inj.mp
    simp
  rw [ofUInt16, value, high, low]
  simp

theorem ofUInt32_u32 (a b c d : UInt8) : ofUInt32 (Word.u32 a b c d) = [a, b, c, d] := by
  have ha := a.toNat_lt
  have hb := b.toNat_lt
  have hc := c.toNat_lt
  have hd := d.toNat_lt
  have value : (Word.u32 a b c d).toNat =
      a.toNat * 16777216 + b.toNat * 65536 + c.toNat * 256 + d.toNat := by
    simp [Word.u32]
    omega
  have byte (n : Nat) (x : UInt8) (same : n % 256 = x.toNat) : n.toUInt8 = x := by
    apply UInt8.toNat_inj.mp
    simpa using same
  rw [ofUInt32, value, byte _ a, byte _ b, byte _ c, byte _ d] <;> omega

theorem ofUInt64_u64 (high low : UInt32) :
    ofUInt64 (Word.u64 high low) = ofUInt32 high ++ ofUInt32 low := by
  have hh := high.toNat_lt
  have hl := low.toNat_lt
  have value : (Word.u64 high low).toNat = high.toNat * 4294967296 + low.toNat := by
    simp [Word.u64]
    omega
  have first : (high.toNat * 4294967296 + low.toNat) / 4294967296 = high.toNat := by omega
  have second : (high.toNat * 4294967296 + low.toNat).toUInt32 = low := by
    apply UInt32.toNat_inj.mp
    simp
  rw [ofUInt64, value, first, second]
  simp

/-- The byte at an index. -/
def u8At? (bytes : Bytes) (index : Nat) : Option UInt8 := bytes[index]?

/-- The 16-bit word at an index. -/
def u16At? (bytes : Bytes) (index : Nat) : Option UInt16 :=
  match bytes.drop index with
  | a :: b :: _ => some (Word.u16 a b)
  | _ => none

theorem u16At?_length (front rest : Bytes) (w : UInt16) :
    (front ++ (ofUInt16 w ++ rest)).u16At? front.length = some w := by
  rw [u16At?, List.drop_left]
  simp only [ofUInt16, List.cons_append, List.nil_append, Word.u16_bytes]

/-- So many bytes from an index on, if they are there. -/
def slice? (bytes : Bytes) (start count : Nat) : Option Bytes :=
  if start + count ≤ bytes.length then some ((bytes.drop start).take count) else none

theorem slice?_length (front bytes : Bytes) :
    (front ++ bytes).slice? front.length bytes.length = some bytes := by
  rw [slice?, if_pos (Nat.le_of_eq List.length_append.symm), List.drop_left, List.take_length]

/-- The signed 32-bit word at an index. -/
def i32At? (bytes : Bytes) (index : Nat) : Option Int32 :=
  match bytes.drop index with
  | a :: b :: c :: d :: _ => some (Word.u32 a b c d).toInt32
  | _ => none

end Bytes

end ClassBench
