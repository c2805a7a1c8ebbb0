import ClassBench.Assembly.Class
import ClassBench.Descriptor
import ClassBench.Opcode

/-! Assembling the body of a method.  A draft holds the class around the method and the code so far;
the method joins the class when the draft is finished, while the pool of the class grows with every
step.  A branch is written with the distance 0, which is set when its target is known. -/

namespace ClassBench

/-- A method whose body is being written. -/
structure MethodDraft where
  owner : ClassFile
  access : UInt16
  name : String
  descriptor : String
  code : Array UInt8 := #[]
  maxStack : UInt16 := 0
  maxLocals : UInt16
  /-- Offsets with the source lines from there on. -/
  lines : Array (UInt16 × UInt16) := #[]

/-- A step that changes the draft in hand. -/
abbrev Drafting := StateM MethodDraft

/-- The loads and stores that have short forms for the first four local variables. -/
inductive LocalAccess where
  | aload | astore | iload
  deriving DecidableEq, Repr

/-- The reads and writes of fields. -/
inductive FieldAccess where
  | getfield | putfield | getstatic | putstatic
  deriving DecidableEq, Repr

/-- The calls of methods of classes. -/
inductive Call where
  | invokespecial | invokevirtual | invokestatic
  deriving DecidableEq, Repr

/-- The form for any local variable. -/
def LocalAccess.opcode : LocalAccess → Opcode
  | aload => .aload
  | astore => .astore
  | iload => .iload

/-- The form for local variable 0, before those for 1, 2 and 3. -/
def LocalAccess.shortForm : LocalAccess → Opcode
  | aload => .aload_0
  | astore => .astore_0
  | iload => .iload_0

/-- The opcode of an access. -/
def FieldAccess.opcode : FieldAccess → Opcode
  | getfield => .getfield
  | putfield => .putfield
  | getstatic => .getstatic
  | putstatic => .putstatic

/-- The opcode of a call. -/
def Call.opcode : Call → Opcode
  | invokespecial => .invokespecial
  | invokevirtual => .invokevirtual
  | invokestatic => .invokestatic

namespace MethodDraft

/-- Starts the body of a method.  The parameters, and the instance of a method that has one, are its
first local variables. -/
def start (owner : ClassFile) (access : UInt16) (name descriptor : String) :
    Except BuildError MethodDraft :=
  match Descriptor.argumentSlots? descriptor with
  | some slots =>
    let receiver := if Access.has access Access.isStatic then 0 else 1
    .ok { owner, access, name, descriptor, maxLocals := slots + receiver }
  | none => .error (.invalidDescriptor descriptor)

/-- The bytes of the table of source lines. -/
def lineTable (draft : MethodDraft) : Bytes :=
  Bytes.counted (fun (offset, line) => Bytes.ofUInt16 offset ++ Bytes.ofUInt16 line)
    draft.lines.toList

/-- The attribute with the source lines, if there are any. -/
def lineAttributes (draft : MethodDraft) : Assembly (List Attribute) := do
  if draft.lines.isEmpty then return []
  else
    let name ← Assembly.onPool (Pool.utf8 "LineNumberTable")
    return [{ name, info := draft.lineTable }]

/-- Adds the method to its class. -/
def addTo (draft : MethodDraft) : Assembly Unit := do
  let attributes ← draft.lineAttributes
  let code :=
    { maxStack := draft.maxStack
      maxLocals := draft.maxLocals
      code := draft.code.toList
      attributes }
  Assembly.addMethod draft.access draft.name draft.descriptor code

/-- The class with the method, unless the code is too long.  Without the method the class keeps the
pool that the draft has left. -/
def finish (draft : MethodDraft) : Except BuildError Unit × ClassFile :=
  if 65535 < draft.code.size then (.error (.codeTooLarge draft.code.size), draft.owner)
  else (.ok (), (draft.addTo draft.owner).2)

end MethodDraft

namespace Drafting

/-- Works on the pool of the class. -/
def onPool (step : StateM Pool α) : Drafting α := fun draft =>
  let (value, owner) := Assembly.onPool step draft.owner
  (value, { draft with owner })

/-- The offset of what is written next. -/
def position : Drafting Nat := do return (← get).code.size

/-- Writes a byte. -/
def emitU8 (b : UInt8) : Drafting Unit :=
  modify fun draft => { draft with code := draft.code.push b }

/-- Writes a 16-bit word. -/
def emitU16 (w : UInt16) : Drafting Unit :=
  modify fun draft => { draft with code := draft.code.appendList (Bytes.ofUInt16 w) }

/-- Writes a signed 16-bit word. -/
def emitI16 (n : Int16) : Drafting Unit := emitU16 n.toUInt16

/-- Writes an opcode. -/
def emit (op : Opcode) : Drafting Unit := emitU8 op.byte

/-- Writes an opcode `count` times. -/
def emitMany (op : Opcode) (count : Nat) : Drafting Unit :=
  modify fun draft => { draft with code := draft.code ++ Array.replicate count op.byte }

/-- Sets the depth of the operand stack. -/
def setMaxStack (depth : UInt16) : Drafting Unit :=
  modify fun draft => { draft with maxStack := depth }

/-- Asks for at least this number of local variables. -/
def reserveLocals (count : UInt16) : Drafting Unit :=
  modify fun draft => { draft with maxLocals := max draft.maxLocals count }

/-- Says that a source line begins here. -/
def lineNumber (line : UInt16) : Drafting Unit :=
  modify fun draft => { draft with lines := draft.lines.push (draft.code.size.toUInt16, line) }

/-- The number of local variables that reach up to an index, of which there are at most 65535. -/
def localsThrough (index : UInt16) : UInt16 := if index = 65535 then 65535 else index + 1

/-- Loads or stores a local variable in the shortest form. -/
def accessLocal (access : LocalAccess) (index : UInt16) : Drafting Unit := do
  reserveLocals (localsThrough index)
  if index ≤ 3 then emitU8 (access.shortForm.byte + index.toUInt8)
  else if index ≤ 255 then
    emit access.opcode
    emitU8 index.toUInt8
  else
    emit .wide
    emit access.opcode
    emitU16 index

/-- Pushes the constant at an index of the pool. -/
def loadConstant (index : UInt16) : Drafting Unit := do
  if index ≤ 255 then
    emit .ldc
    emitU8 index.toUInt8
  else
    emit .ldc_w
    emitU16 index

/-- Pushes an integer in the shortest form. -/
def iconst (value : Int32) : Drafting Unit := do
  if -1 ≤ value ∧ value ≤ 5 then emitU8 (Opcode.iconst_0.byte + value.toInt8.toUInt8)
  else if -128 ≤ value ∧ value ≤ 127 then
    emit .bipush
    emitU8 value.toInt8.toUInt8
  else if -32768 ≤ value ∧ value ≤ 32767 then
    emit .sipush
    emitI16 value.toInt16
  else
    let index ← onPool (Pool.integer value)
    loadConstant index

/-- Pushes a string. -/
def ldcString (text : String) : Drafting Unit := do
  let index ← onPool (Pool.string text)
  loadConstant index

/-- An instruction that names a class. -/
def emitClass (op : Opcode) (name : String) : Drafting Unit := do
  let index ← onPool (Pool.classRef name)
  emit op
  emitU16 index

/-- Makes an instance of a class. -/
def newObject (name : String) : Drafting Unit := emitClass .new name

/-- Casts the top of the stack to a class. -/
def checkcast (name : String) : Drafting Unit := emitClass .checkcast name

/-- Reads or writes a field. -/
def accessField (access : FieldAccess) (field : MemberRef) : Drafting Unit := do
  let index ← onPool (Pool.fieldRef field)
  emit access.opcode
  emitU16 index

/-- Calls a method of a class. -/
def call (call : Call) (method : MemberRef) : Drafting Unit := do
  let index ← onPool (Pool.methodRef method)
  emit call.opcode
  emitU16 index

/-- Calls a method of an interface, with the slots of its arguments and its instance in a byte. -/
def callInterface (method : MemberRef) : Drafting (Except BuildError Unit) := do
  match Descriptor.argumentSlots? method.descriptor with
  | some slots =>
    let index ← onPool (Pool.interfaceMethodRef method)
    emit .invokeinterface
    emitU16 index
    emitU8 (slots + 1).toUInt8
    emitU8 0
    return .ok ()
  | none => return .error (.invalidDescriptor method.descriptor)

/-- Writes a branch that leads nowhere yet and returns its offset. -/
def branch (op : Opcode) : Drafting Nat := do
  let offset ← position
  emit op
  emitU16 0
  return offset

/-- Whether a branch with a 16-bit distance stands at an offset. -/
def isBranchAt (code : Array UInt8) (offset : Nat) : Bool :=
  match code[offset]?.bind Opcode.ofByte? with
  | some op => op.layout = .branch && offset + 3 ≤ code.size
  | none => false

/-- The code with a 16-bit word at an offset. -/
def overwrite (code : Array UInt8) (offset : Nat) (w : UInt16) : Array UInt8 :=
  (code.setIfInBounds offset (w.toNat / 256).toUInt8).setIfInBounds (offset + 1) w.toNat.toUInt8

/-- Lets the branch at `offset` lead to `target`. -/
def patchJump (offset target : Nat) : Drafting (Except BuildError Unit) := do
  let draft ← get
  if isBranchAt draft.code offset then
    let distance : Int := target - offset
    if -32768 ≤ distance ∧ distance ≤ 32767 then
      set { draft with code := overwrite draft.code (offset + 1) distance.toInt16.toUInt16 }
      return .ok ()
    else return .error (.jumpOutOfRange offset target)
  else return .error (.notABranch offset)

end Drafting

end ClassBench
