import ClassBench.ClassFile
import ClassBench.Pool.Codec

/-! The bytes of class files and of their parts.  Counts of lists are written in 16 bits and
lengths of byte strings in 32; a class file ends with its last attribute, and bytes after it are
an error. -/

namespace ClassBench

/-- A 16-bit count and the items. -/
def Bytes.counted (item : α → Bytes) (items : List α) : Bytes :=
  Bytes.ofUInt16 items.length.toUInt16 ++ items.flatMap item

/-- A 32-bit length and the bytes. -/
def Bytes.measured (bytes : Bytes) : Bytes := Bytes.ofUInt32 bytes.length.toUInt32 ++ bytes

/-- Reads a 32-bit length and that many bytes. -/
def Reader.measured : Reader Bytes := do
  let length ← u32
  bytes length.toNat

namespace Attribute

/-- The bytes of an attribute. -/
def encode (a : Attribute) : Bytes := Bytes.ofUInt16 a.name ++ Bytes.measured a.info

/-- Reads an attribute. -/
def read : Reader Attribute := do
  let name ← Reader.u16
  let info ← Reader.measured
  return { name, info }

end Attribute

namespace Member

/-- The bytes of a member. -/
def encode (m : Member) : Bytes :=
  Bytes.ofUInt16 m.access ++ Bytes.ofUInt16 m.name ++ Bytes.ofUInt16 m.descriptor ++
    Bytes.counted Attribute.encode m.attributes

/-- Reads a member. -/
def read : Reader Member := do
  let access ← Reader.u16
  let name ← Reader.u16
  let descriptor ← Reader.u16
  let attributes ← Reader.counted Attribute.read
  return { access, name, descriptor, attributes }

end Member

namespace Handler

/-- The bytes of a handler. -/
def encode (h : Handler) : Bytes :=
  Bytes.ofUInt16 h.first ++ Bytes.ofUInt16 h.last ++ Bytes.ofUInt16 h.target ++
    Bytes.ofUInt16 h.caught

/-- Reads a handler. -/
def read : Reader Handler := do
  let first ← Reader.u16
  let last ← Reader.u16
  let target ← Reader.u16
  let caught ← Reader.u16
  return { first, last, target, caught }

end Handler

namespace Code

/-- The bytes of a body. -/
def encode (c : Code) : Bytes :=
  Bytes.ofUInt16 c.maxStack ++ Bytes.ofUInt16 c.maxLocals ++ Bytes.measured c.code ++
    Bytes.counted Handler.encode c.handlers ++ Bytes.counted Attribute.encode c.attributes

/-- Reads a body. -/
def read : Reader Code := do
  let maxStack ← Reader.u16
  let maxLocals ← Reader.u16
  let code ← Reader.measured
  let handlers ← Reader.counted Handler.read
  let attributes ← Reader.counted Attribute.read
  return { maxStack, maxLocals, code, handlers, attributes }

/-- The body that `bytes` begin with. -/
def decode (bytes : Bytes) : Except DecodeError Code := read.run bytes

end Code

/-- The body of a member, if it has one. -/
def Member.code? (m : Member) (pool : Pool) : Except DecodeError (Option Code) :=
  match m.attribute? pool codeName with
  | some info => (Code.decode info).map some
  | none => .ok none

namespace ClassFile

/-- The word at the start of every class file. -/
def magic : UInt32 := 0xCAFEBABE

/-- The bytes of a class. -/
def encode (c : ClassFile) : Bytes :=
  Bytes.ofUInt32 magic ++ Bytes.ofUInt16 c.minor ++ Bytes.ofUInt16 c.major ++ c.pool.encode ++
    Bytes.ofUInt16 c.access ++ Bytes.ofUInt16 c.thisClass ++ Bytes.ofUInt16 c.superClass ++
    Bytes.counted Bytes.ofUInt16 c.interfaces ++ Bytes.counted Member.encode c.fields ++
    Bytes.counted Member.encode c.methods ++ Bytes.counted Attribute.encode c.attributes

/-- Reads the magic word. -/
def readMagic : Reader Unit := do
  let found ← Reader.u32
  if found ≠ magic then throw (.invalidMagic found)

/-- Fails unless the input is at its end. -/
def readEnd : Reader Unit := do
  let cursor ← get
  if cursor.rest ≠ [] then throw (.trailingBytes cursor.rest.length)

/-- Reads a class and the end of the input. -/
def read : Reader ClassFile := do
  readMagic
  let minor ← Reader.u16
  let major ← Reader.u16
  let pool ← Pool.read
  let access ← Reader.u16
  let thisClass ← Reader.u16
  let superClass ← Reader.u16
  let interfaces ← Reader.counted Reader.u16
  let fields ← Reader.counted Member.read
  let methods ← Reader.counted Member.read
  let attributes ← Reader.counted Attribute.read
  readEnd
  return {
    minor, major, pool, access, thisClass, superClass, interfaces, fields, methods, attributes }

/-- The class that `bytes` are. -/
def decode (bytes : Bytes) : Except DecodeError ClassFile := read.run bytes

end ClassFile

end ClassBench
