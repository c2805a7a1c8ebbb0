import ClassBench.DecodeError
import ClassBench.Text.Utf16

/-! Modified UTF-8, the encoding of text in class files.  Each UTF-16 unit is written on its own
in one, two or three bytes, and the unit zero in two, so that no encoded text holds a zero byte.
Reading also accepts a unit in more bytes than it needs. -/

namespace ClassBench.ModifiedUtf8

/-- The bytes of one unit. -/
def unitBytes (u : UInt16) : Bytes :=
  let n := u.toNat
  if 1 ≤ n ∧ n ≤ 0x7F then [n.toUInt8]
  else if n ≤ 0x7FF then [(0xC0 + n / 64).toUInt8, (0x80 + n % 64).toUInt8]
  else [(0xE0 + n / 4096).toUInt8, (0x80 + n / 64 % 64).toUInt8, (0x80 + n % 64).toUInt8]

/-- The bytes of a text. -/
def encode (text : String) : Bytes := (Utf16.encode text.toList).flatMap unitBytes

/-- The six bits of a byte that continues a unit. -/
def continuation? (b : UInt8) : Option Nat :=
  if 0x80 ≤ b ∧ b ≤ 0xBF then some (b.toNat - 0x80) else none

/-- Reads units from bytes that begin at `offset`, after the units already read, which are in
reverse.  The error is the offset of the first byte that fits no unit. -/
def unitsInto (offset : Nat) (read : List UInt16) : Bytes → Except Nat (List UInt16)
  | [] => .ok read.reverse
  | a :: rest =>
    if 0x01 ≤ a ∧ a ≤ 0x7F then unitsInto (offset + 1) (a.toUInt16 :: read) rest
    else if 0xC0 ≤ a ∧ a ≤ 0xDF then
      match rest with
      | b :: rest =>
        match continuation? b with
        | some low => unitsInto (offset + 2) (((a.toNat - 0xC0) * 64 + low).toUInt16 :: read) rest
        | none => .error (offset + 1)
      | [] => .error (offset + 1)
    else if 0xE0 ≤ a ∧ a ≤ 0xEF then
      match rest with
      | b :: rest =>
        match continuation? b with
        | some middle =>
          match rest with
          | c :: rest =>
            match continuation? c with
            | some low =>
              unitsInto (offset + 3)
                (((a.toNat - 0xE0) * 4096 + middle * 64 + low).toUInt16 :: read) rest
            | none => .error (offset + 2)
          | [] => .error (offset + 2)
        | none => .error (offset + 1)
      | [] => .error (offset + 1)
    else .error offset

/-- The text encoded by `bytes`, which begin at `offset`.  An unpaired surrogate is reported at the
beginning of the text, every other fault at its byte. -/
def decode (bytes : Bytes) (offset : Nat) : Except DecodeError String :=
  match unitsInto offset [] bytes with
  | .error fault => .error (.invalidUtf8 fault)
  | .ok units =>
    match Utf16.decode? units with
    | some text => .ok (String.ofList text)
    | none => .error (.invalidUtf8 offset)

end ClassBench.ModifiedUtf8
