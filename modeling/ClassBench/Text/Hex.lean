import ClassBench.Bytes

/-! Hexadecimal text with lowercase digits: numbers, numbers padded to a width, and byte strings
with two digits for each byte. -/

namespace ClassBench.Hex

/-- The hexadecimal digits of `n`, without leading zeros. -/
def digits (n : Nat) : List Char := Nat.toDigits 16 n

/-- `n` in hexadecimal. -/
def ofNat (n : Nat) : String := String.ofList (digits n)

/-- `n` in hexadecimal with zeros in front up to `width` digits. -/
def padded (width n : Nat) : String :=
  String.ofList (List.replicate (width - (digits n).length) '0' ++ digits n)

/-- `n` in hexadecimal after `0x`. -/
def marked (n : Nat) : String := "0x" ++ ofNat n

/-- `n` after `0x`, with zeros up to `width` digits. -/
def markedPadded (width n : Nat) : String := "0x" ++ padded width n

/-- The two digits of a byte. -/
def byte (b : UInt8) : List Char :=
  [Nat.digitChar (b.toNat / 16), Nat.digitChar (b.toNat % 16)]

/-- A byte string, two digits for each byte. -/
def ofBytes (bytes : Bytes) : String := String.ofList (bytes.flatMap byte)

/-- The value of one hexadecimal digit of either case. -/
def digitValue? (c : Char) : Option Nat :=
  if '0' ≤ c ∧ c ≤ '9' then some (c.toNat - 48)
  else if 'a' ≤ c ∧ c ≤ 'f' then some (c.toNat - 87)
  else if 'A' ≤ c ∧ c ≤ 'F' then some (c.toNat - 55)
  else none

end ClassBench.Hex
