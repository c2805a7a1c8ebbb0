import ClassBench.Proofs.Descriptor.Grammar
import ClassBench.Proofs.Instruction.Jump
import ClassBench.Verify

/-! The rules that a class file is held to, as the format states them and without an order in which
they are looked at.  Entries are named by their kinds, descriptors by their grammar, jumps by the
words of the operands, and the row of a body's instructions by how they tile its code. -/

namespace ClassBench

/-! ### Entries of the pool -/

/-- An entry of one of these kinds stands at the index. -/
def Pool.Holds (pool : Pool) (kinds : List ConstantKind) (index : UInt16) : Prop :=
  ∃ c, pool.get? index = some c ∧ c.kind ∈ kinds

/-- The entry at the index is a class of this name. -/
def Pool.NamesClass (pool : Pool) (index : UInt16) (name : String) : Prop :=
  ∃ text, pool.get? index = some (.classRef text) ∧ pool.get? text = some (.utf8 name)

/-- What an entry refers to is of the kinds that its own kind requires. -/
def Constant.Linked (pool : Pool) : Constant → Prop
  | classRef name | moduleRef name | packageRef name => pool.Holds [.utf8] name
  | string text => pool.Holds [.utf8] text
  | methodType descriptor => pool.Holds [.utf8] descriptor
  | fieldRef owner signature | methodRef owner signature | interfaceMethodRef owner signature =>
    pool.Holds [.classRef] owner ∧ pool.Holds [.nameAndType] signature
  | nameAndType name descriptor => pool.Holds [.utf8] name ∧ pool.Holds [.utf8] descriptor
  | methodHandle _ member => pool.Holds [.fieldRef, .methodRef, .interfaceMethodRef] member
  | dynamic _ signature | invokeDynamic _ signature => pool.Holds [.nameAndType] signature
  | utf8 _ | integer _ | float _ | long _ | double _ => True

/-! ### Instructions -/

/-- The kinds of entries that an instruction with this opcode may name. -/
def Opcode.operandKinds : Opcode → List ConstantKind
  | ldc | ldc_w => [.integer, .float, .classRef, .string, .methodHandle, .methodType, .dynamic]
  | ldc2_w => [.long, .double]
  | getstatic | putstatic | getfield | putfield => [.fieldRef]
  | invokevirtual | invokespecial | invokestatic => [.methodRef, .interfaceMethodRef]
  | invokeinterface => [.interfaceMethodRef]
  | invokedynamic => [.invokeDynamic]
  | new | anewarray | checkcast | instanceof | multianewarray => [.classRef]
  | _ => []

/-- The local variable that a short form of load or store is for. -/
def Opcode.shortLocal? : Opcode → Option UInt16
  | iload_0 | lload_0 | fload_0 | dload_0 | aload_0 | istore_0 | lstore_0 | fstore_0 | dstore_0
  | astore_0 => some 0
  | iload_1 | lload_1 | fload_1 | dload_1 | aload_1 | istore_1 | lstore_1 | fstore_1 | dstore_1
  | astore_1 => some 1
  | iload_2 | lload_2 | fload_2 | dload_2 | aload_2 | istore_2 | lstore_2 | fstore_2 | dstore_2
  | astore_2 => some 2
  | iload_3 | lload_3 | fload_3 | dload_3 | aload_3 | istore_3 | lstore_3 | fstore_3 | dstore_3
  | astore_3 => some 3
  | _ => none

/-- The instruction is for this local variable, by its operands or by its opcode. -/
inductive Instruction.UsesLocal (i : Instruction) (index : UInt16) : Prop
  | operand (named : i.localIndex? = some index)
  | implied (short : i.opcode.shortLocal? = some index)

/-- The instructions of a body are sound in a pool and with so many local variables. -/
structure Instruction.SoundRow (pool : Pool) (maxLocals : UInt16) (is : List Instruction) :
    Prop where
  /-- Branches lead to instructions, and so do switches unless before the start of the code. -/
  jumps : ∀ i ∈ is, ∀ d, i.Leads d → i.opcode.isBranch = true ∨ 0 ≤ i.offset + d →
    ∃ target ∈ is, (target.offset : Int) = i.offset + d
  locals : ∀ i ∈ is, ∀ index, i.UsesLocal index → index < maxLocals
  entries : ∀ i ∈ is, ∀ index, i.poolIndex? = some index → pool.Holds i.opcode.operandKinds index
  ending : ∀ last, is.getLast? = some last → last.opcode.isTerminator = true

/-! ### Members -/

/-- A body is of an allowed length and a row of sound instructions. -/
structure Code.Sound (code : Code) (pool : Pool) : Prop where
  length : 1 ≤ code.code.length ∧ code.code.length ≤ 65535
  row : ∃ is, Instruction.Tiles 0 code.code is ∧ Instruction.SoundRow pool code.maxLocals is

/-- The name and the descriptor of a member are texts, and the descriptor gives a type. -/
def Member.Declares (m : Member) (pool : Pool) (type : List Char → Prop) : Prop :=
  ∃ name descriptor, pool.get? m.name = some (.utf8 name) ∧
    pool.get? m.descriptor = some (.utf8 descriptor) ∧ type descriptor.toList

/-- The name and the descriptor of a member together. -/
def Member.signature (m : Member) (pool : Pool) : Option String × Option String :=
  (m.name? pool, m.descriptor? pool)

/-- A method has a body unless it is abstract or native, and a body that it has is sound. -/
structure Member.SoundBody (m : Member) (pool : Pool) : Prop where
  present : Access.has m.access Access.isAbstract = true ∨
    Access.has m.access Access.isNative = true ↔ m.attribute? pool codeName = none
  sound : ∀ info, m.attribute? pool codeName = some info →
    ∃ code, Code.decode info = .ok code ∧ code.Sound pool

/-- A class file obeys all the rules. -/
structure ClassFile.Sound (c : ClassFile) : Prop where
  entries : ∀ e ∈ c.pool.entries, e.Linked c.pool
  thisClass : ∃ name, c.pool.NamesClass c.thisClass name
  superClass : (∃ name, c.pool.NamesClass c.superClass name) ∨
    c.superClass = 0 ∧ c.pool.NamesClass c.thisClass objectName
  interfaces : ∀ index ∈ c.interfaces, ∃ name, c.pool.NamesClass index name
  fields : ∀ m ∈ c.fields, m.Declares c.pool Descriptor.FieldType
  methods : ∀ m ∈ c.methods, m.Declares c.pool Descriptor.MethodType
  distinctFields : c.fields.Pairwise fun m m' => m.signature c.pool ≠ m'.signature c.pool
  distinctMethods : c.methods.Pairwise fun m m' => m.signature c.pool ≠ m'.signature c.pool
  bodies : ∀ m ∈ c.methods, m.SoundBody c.pool

end ClassBench
