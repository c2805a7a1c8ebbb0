import ClassBench.Text.Hex

/-! Why bytes are not what they should encode. -/

namespace ClassBench

/-- The causes that stop the decoding of a class file, each with the offset or value at fault. -/
inductive DecodeError where
  /-- The input ends before the item that starts at `offset` is complete. -/
  | unexpectedEnd (offset : Nat)
  /-- The first four bytes are not those of a class file. -/
  | invalidMagic (found : UInt32)
  /-- No kind of constant has this tag. -/
  | unknownTag (tag : UInt8) (index : UInt16) (offset : Nat)
  /-- The bytes from `offset` on are no modified UTF-8. -/
  | invalidUtf8 (offset : Nat)
  /-- Bytes are left after the class. -/
  | trailingBytes (count : Nat)
  deriving DecidableEq, Repr

/-- The name of the cause. -/
def DecodeError.kind : DecodeError → String
  | unexpectedEnd .. => "UnexpectedEnd"
  | invalidMagic .. => "InvalidMagic"
  | unknownTag .. => "UnknownTag"
  | invalidUtf8 .. => "InvalidUtf8"
  | trailingBytes .. => "TrailingBytes"

/-- The text of an error. -/
def DecodeError.message : DecodeError → String
  | unexpectedEnd offset => s!"Unexpected end of input at offset {offset}"
  | invalidMagic found =>
    "Invalid magic number: expected 0xCAFEBABE, got " ++ Hex.markedPadded 8 found.toNat
  | unknownTag tag index offset =>
    s!"Unknown constant pool tag {tag} for entry {index} at offset {offset}"
  | invalidUtf8 offset => s!"Invalid modified UTF-8 string at offset {offset}"
  | trailingBytes count => s!"{count} trailing bytes after end of class file"

end ClassBench
