import ClassBench.Constant
import ClassBench.Reader
import ClassBench.Text.ModifiedUtf8

/-! The bytes of a constant: its tag and its payload.  The length of a text is written in 16
bits, so only a text of at most 65535 bytes is read back as it was written. -/

namespace ClassBench.Constant

/-- The bytes after the tag. -/
def payload : Constant → Bytes
  | utf8 text =>
    let bytes := ModifiedUtf8.encode text
    Bytes.ofUInt16 bytes.length.toUInt16 ++ bytes
  | integer value => Bytes.ofInt32 value
  | float bits => Bytes.ofUInt32 bits
  | long value => Bytes.ofInt64 value
  | double bits => Bytes.ofUInt64 bits
  | classRef a | string a | methodType a | moduleRef a | packageRef a => Bytes.ofUInt16 a
  | fieldRef a b | methodRef a b | interfaceMethodRef a b | nameAndType a b | dynamic a b
  | invokeDynamic a b => Bytes.ofUInt16 a ++ Bytes.ofUInt16 b
  | methodHandle mode member => mode :: Bytes.ofUInt16 member

/-- The bytes of an entry. -/
def encode (c : Constant) : Bytes := c.tag :: c.payload

/-- Reads a text with its length in front. -/
def readText : Reader String := do
  let length ← Reader.u16
  let start ← Reader.position
  let bytes ← Reader.bytes length.toNat
  match ModifiedUtf8.decode bytes start with
  | .ok text => return text
  | .error error => throw error

/-- Reads one index. -/
def readIndex (make : UInt16 → Constant) : Reader Constant := do return make (← Reader.u16)

/-- Reads two indices. -/
def readIndices (make : UInt16 → UInt16 → Constant) : Reader Constant := do
  let a ← Reader.u16
  let b ← Reader.u16
  return make a b

/-- Reads what follows the tag of an entry of this kind. -/
def readPayload : ConstantKind → Reader Constant
  | .utf8 => return utf8 (← readText)
  | .integer => return integer (← Reader.i32)
  | .float => return float (← Reader.u32)
  | .long => return long (← Reader.i64)
  | .double => return double (← Reader.u64)
  | .classRef => readIndex classRef
  | .string => readIndex string
  | .methodType => readIndex methodType
  | .moduleRef => readIndex moduleRef
  | .packageRef => readIndex packageRef
  | .fieldRef => readIndices fieldRef
  | .methodRef => readIndices methodRef
  | .interfaceMethodRef => readIndices interfaceMethodRef
  | .nameAndType => readIndices nameAndType
  | .dynamic => readIndices dynamic
  | .invokeDynamic => readIndices invokeDynamic
  | .methodHandle => do
    let mode ← Reader.u8
    let member ← Reader.u16
    return methodHandle mode member

/-- Reads the entry that will have this index. -/
def read (index : UInt16) : Reader Constant := do
  let offset ← Reader.position
  let tag ← Reader.u8
  match ConstantKind.ofTag? tag with
  | some kind => readPayload kind
  | none => throw (.unknownTag tag index offset)

end ClassBench.Constant
