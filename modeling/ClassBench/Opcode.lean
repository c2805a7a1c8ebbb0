/-! The instruction set.  Every opcode is one byte, and the defined bytes are those below `0xCA`.
The layout of the operands after the byte is fixed by the opcode; only for the two switches and
for `wide` does their length depend on the bytes that follow. -/

namespace ClassBench

/-- How the operands of an instruction are laid out. -/
inductive Layout where
  /-- No operands. -/
  | plain
  /-- A local variable in one byte. -/
  | localIndex
  /-- A signed byte. -/
  | signedByte
  /-- A signed 16-bit word. -/
  | signedShort
  /-- A pool index in one byte. -/
  | shortIndex
  /-- A pool index in two bytes. -/
  | poolIndex
  /-- A signed 16-bit distance to jump. -/
  | branch
  /-- A signed 32-bit distance to jump. -/
  | longBranch
  /-- A local variable and a signed byte to add to it. -/
  | increment
  /-- A pool index, a count of argument slots and a zero byte. -/
  | interfaceCall
  /-- A pool index and two zero bytes. -/
  | dynamicCall
  /-- A pool index and a number of dimensions. -/
  | arrayDimensions
  /-- The type of the elements in one byte. -/
  | elementType
  /-- A table of distances for consecutive keys, at a multiple of four. -/
  | tableSwitch
  /-- A list of keys with distances, at a multiple of four. -/
  | lookupSwitch
  /-- Another opcode with wider operands. -/
  | wide
  deriving DecidableEq, Repr

/-- The name of a layout in listings. -/
def Layout.name : Layout → String
  | plain => "None"
  | localIndex => "Local"
  | signedByte => "Byte"
  | signedShort => "Short"
  | shortIndex => "Constant8"
  | poolIndex => "Constant16"
  | branch => "Branch16"
  | longBranch => "Branch32"
  | increment => "Iinc"
  | interfaceCall => "InvokeInterface"
  | dynamicCall => "InvokeDynamic"
  | arrayDimensions => "MultiANewArray"
  | elementType => "NewArray"
  | tableSwitch => "TableSwitch"
  | lookupSwitch => "LookupSwitch"
  | wide => "Wide"

/-- The number of operand bytes, where the layout fixes it. -/
def Layout.size? : Layout → Option Nat
  | plain => some 0
  | localIndex | signedByte | shortIndex | elementType => some 1
  | signedShort | poolIndex | branch | increment => some 2
  | arrayDimensions => some 3
  | longBranch | interfaceCall | dynamicCall => some 4
  | tableSwitch | lookupSwitch | wide => none

/-- The opcodes in the order of their bytes. -/
inductive Opcode where
  | nop | aconst_null | iconst_m1 | iconst_0 | iconst_1 | iconst_2 | iconst_3 | iconst_4 | iconst_5
  | lconst_0 | lconst_1 | fconst_0 | fconst_1 | fconst_2 | dconst_0 | dconst_1 | bipush | sipush
  | ldc | ldc_w | ldc2_w | iload | lload | fload | dload | aload | iload_0 | iload_1 | iload_2
  | iload_3 | lload_0 | lload_1 | lload_2 | lload_3 | fload_0 | fload_1 | fload_2 | fload_3
  | dload_0 | dload_1 | dload_2 | dload_3 | aload_0 | aload_1 | aload_2 | aload_3 | iaload | laload
  | faload | daload | aaload | baload | caload | saload | istore | lstore | fstore | dstore | astore
  | istore_0 | istore_1 | istore_2 | istore_3 | lstore_0 | lstore_1 | lstore_2 | lstore_3 | fstore_0
  | fstore_1 | fstore_2 | fstore_3 | dstore_0 | dstore_1 | dstore_2 | dstore_3 | astore_0 | astore_1
  | astore_2 | astore_3 | iastore | lastore | fastore | dastore | aastore | bastore | castore
  | sastore | pop | pop2 | dup | dup_x1 | dup_x2 | dup2 | dup2_x1 | dup2_x2 | swap | iadd | ladd
  | fadd | dadd | isub | lsub | fsub | dsub | imul | lmul | fmul | dmul | idiv | ldiv | fdiv | ddiv
  | irem | lrem | frem | drem | ineg | lneg | fneg | dneg | ishl | lshl | ishr | lshr | iushr
  | lushr | iand | land | ior | lor | ixor | lxor | iinc | i2l | i2f | i2d | l2i | l2f | l2d | f2i
  | f2l | f2d | d2i | d2l | d2f | i2b | i2c | i2s | lcmp | fcmpl | fcmpg | dcmpl | dcmpg | ifeq
  | ifne | iflt | ifge | ifgt | ifle | if_icmpeq | if_icmpne | if_icmplt | if_icmpge | if_icmpgt
  | if_icmple | if_acmpeq | if_acmpne | goto | jsr | ret | tableswitch | lookupswitch | ireturn
  | lreturn | freturn | dreturn | areturn | return_ | getstatic | putstatic | getfield | putfield
  | invokevirtual | invokespecial | invokestatic | invokeinterface | invokedynamic | new | newarray
  | anewarray | arraylength | athrow | checkcast | instanceof | monitorenter | monitorexit | wide
  | multianewarray | ifnull | ifnonnull | goto_w | jsr_w
  deriving DecidableEq, Repr

namespace Opcode

/-- The number of opcodes. -/
def total : Nat := 202

/-- The byte of an opcode. -/
def byte (op : Opcode) : UInt8 := op.ctorIdx.toUInt8

/-- The opcode with this byte. -/
def ofByte? (b : UInt8) : Option Opcode := if b.toNat < total then some (ofNat b.toNat) else none

/-- The name of an opcode in listings. -/
def mnemonic : Opcode → String
  | nop => "nop"
  | aconst_null => "aconst_null"
  | iconst_m1 => "iconst_m1"
  | iconst_0 => "iconst_0"
  | iconst_1 => "iconst_1"
  | iconst_2 => "iconst_2"
  | iconst_3 => "iconst_3"
  | iconst_4 => "iconst_4"
  | iconst_5 => "iconst_5"
  | lconst_0 => "lconst_0"
  | lconst_1 => "lconst_1"
  | fconst_0 => "fconst_0"
  | fconst_1 => "fconst_1"
  | fconst_2 => "fconst_2"
  | dconst_0 => "dconst_0"
  | dconst_1 => "dconst_1"
  | bipush => "bipush"
  | sipush => "sipush"
  | ldc => "ldc"
  | ldc_w => "ldc_w"
  | ldc2_w => "ldc2_w"
  | iload => "iload"
  | lload => "lload"
  | fload => "fload"
  | dload => "dload"
  | aload => "aload"
  | iload_0 => "iload_0"
  | iload_1 => "iload_1"
  | iload_2 => "iload_2"
  | iload_3 => "iload_3"
  | lload_0 => "lload_0"
  | lload_1 => "lload_1"
  | lload_2 => "lload_2"
  | lload_3 => "lload_3"
  | fload_0 => "fload_0"
  | fload_1 => "fload_1"
  | fload_2 => "fload_2"
  | fload_3 => "fload_3"
  | dload_0 => "dload_0"
  | dload_1 => "dload_1"
  | dload_2 => "dload_2"
  | dload_3 => "dload_3"
  | aload_0 => "aload_0"
  | aload_1 => "aload_1"
  | aload_2 => "aload_2"
  | aload_3 => "aload_3"
  | iaload => "iaload"
  | laload => "laload"
  | faload => "faload"
  | daload => "daload"
  | aaload => "aaload"
  | baload => "baload"
  | caload => "caload"
  | saload => "saload"
  | istore => "istore"
  | lstore => "lstore"
  | fstore => "fstore"
  | dstore => "dstore"
  | astore => "astore"
  | istore_0 => "istore_0"
  | istore_1 => "istore_1"
  | istore_2 => "istore_2"
  | istore_3 => "istore_3"
  | lstore_0 => "lstore_0"
  | lstore_1 => "lstore_1"
  | lstore_2 => "lstore_2"
  | lstore_3 => "lstore_3"
  | fstore_0 => "fstore_0"
  | fstore_1 => "fstore_1"
  | fstore_2 => "fstore_2"
  | fstore_3 => "fstore_3"
  | dstore_0 => "dstore_0"
  | dstore_1 => "dstore_1"
  | dstore_2 => "dstore_2"
  | dstore_3 => "dstore_3"
  | astore_0 => "astore_0"
  | astore_1 => "astore_1"
  | astore_2 => "astore_2"
  | astore_3 => "astore_3"
  | iastore => "iastore"
  | lastore => "lastore"
  | fastore => "fastore"
  | dastore => "dastore"
  | aastore => "aastore"
  | bastore => "bastore"
  | castore => "castore"
  | sastore => "sastore"
  | pop => "pop"
  | pop2 => "pop2"
  | dup => "dup"
  | dup_x1 => "dup_x1"
  | dup_x2 => "dup_x2"
  | dup2 => "dup2"
  | dup2_x1 => "dup2_x1"
  | dup2_x2 => "dup2_x2"
  | swap => "swap"
  | iadd => "iadd"
  | ladd => "ladd"
  | fadd => "fadd"
  | dadd => "dadd"
  | isub => "isub"
  | lsub => "lsub"
  | fsub => "fsub"
  | dsub => "dsub"
  | imul => "imul"
  | lmul => "lmul"
  | fmul => "fmul"
  | dmul => "dmul"
  | idiv => "idiv"
  | ldiv => "ldiv"
  | fdiv => "fdiv"
  | ddiv => "ddiv"
  | irem => "irem"
  | lrem => "lrem"
  | frem => "frem"
  | drem => "drem"
  | ineg => "ineg"
  | lneg => "lneg"
  | fneg => "fneg"
  | dneg => "dneg"
  | ishl => "ishl"
  | lshl => "lshl"
  | ishr => "ishr"
  | lshr => "lshr"
  | iushr => "iushr"
  | lushr => "lushr"
  | iand => "iand"
  | land => "land"
  | ior => "ior"
  | lor => "lor"
  | ixor => "ixor"
  | lxor => "lxor"
  | iinc => "iinc"
  | i2l => "i2l"
  | i2f => "i2f"
  | i2d => "i2d"
  | l2i => "l2i"
  | l2f => "l2f"
  | l2d => "l2d"
  | f2i => "f2i"
  | f2l => "f2l"
  | f2d => "f2d"
  | d2i => "d2i"
  | d2l => "d2l"
  | d2f => "d2f"
  | i2b => "i2b"
  | i2c => "i2c"
  | i2s => "i2s"
  | lcmp => "lcmp"
  | fcmpl => "fcmpl"
  | fcmpg => "fcmpg"
  | dcmpl => "dcmpl"
  | dcmpg => "dcmpg"
  | ifeq => "ifeq"
  | ifne => "ifne"
  | iflt => "iflt"
  | ifge => "ifge"
  | ifgt => "ifgt"
  | ifle => "ifle"
  | if_icmpeq => "if_icmpeq"
  | if_icmpne => "if_icmpne"
  | if_icmplt => "if_icmplt"
  | if_icmpge => "if_icmpge"
  | if_icmpgt => "if_icmpgt"
  | if_icmple => "if_icmple"
  | if_acmpeq => "if_acmpeq"
  | if_acmpne => "if_acmpne"
  | goto => "goto"
  | jsr => "jsr"
  | ret => "ret"
  | tableswitch => "tableswitch"
  | lookupswitch => "lookupswitch"
  | ireturn => "ireturn"
  | lreturn => "lreturn"
  | freturn => "freturn"
  | dreturn => "dreturn"
  | areturn => "areturn"
  | return_ => "return"
  | getstatic => "getstatic"
  | putstatic => "putstatic"
  | getfield => "getfield"
  | putfield => "putfield"
  | invokevirtual => "invokevirtual"
  | invokespecial => "invokespecial"
  | invokestatic => "invokestatic"
  | invokeinterface => "invokeinterface"
  | invokedynamic => "invokedynamic"
  | new => "new"
  | newarray => "newarray"
  | anewarray => "anewarray"
  | arraylength => "arraylength"
  | athrow => "athrow"
  | checkcast => "checkcast"
  | instanceof => "instanceof"
  | monitorenter => "monitorenter"
  | monitorexit => "monitorexit"
  | wide => "wide"
  | multianewarray => "multianewarray"
  | ifnull => "ifnull"
  | ifnonnull => "ifnonnull"
  | goto_w => "goto_w"
  | jsr_w => "jsr_w"

/-- The layout of the operands. -/
def layout : Opcode → Layout
  | bipush => .signedByte
  | sipush => .signedShort
  | ldc => .shortIndex
  | ldc_w | ldc2_w | getstatic | putstatic | getfield | putfield | invokevirtual | invokespecial
  | invokestatic | new | anewarray | checkcast | instanceof => .poolIndex
  | iload | lload | fload | dload | aload | istore | lstore | fstore | dstore | astore | ret
    => .localIndex
  | iinc => .increment
  | ifeq | ifne | iflt | ifge | ifgt | ifle | if_icmpeq | if_icmpne | if_icmplt | if_icmpge
  | if_icmpgt | if_icmple | if_acmpeq | if_acmpne | goto | jsr | ifnull | ifnonnull => .branch
  | tableswitch => .tableSwitch
  | lookupswitch => .lookupSwitch
  | invokeinterface => .interfaceCall
  | invokedynamic => .dynamicCall
  | newarray => .elementType
  | wide => .wide
  | multianewarray => .arrayDimensions
  | goto_w | jsr_w => .longBranch
  | _ => .plain

/-- Returns from the method. -/
def isReturn : Opcode → Bool
  | ireturn | lreturn | freturn | dreturn | areturn | return_ => true
  | _ => false

/-- Jumps by a distance in its operands. -/
def isBranch (op : Opcode) : Bool := op.layout = .branch || op.layout = .longBranch

/-- Never passes control to the instruction after it. -/
def isTerminator : Opcode → Bool
  | athrow | goto | goto_w | ret | tableswitch | lookupswitch => true
  | op => op.isReturn

/-- Calls a method. -/
def isInvoke : Opcode → Bool
  | invokevirtual | invokespecial | invokestatic | invokeinterface | invokedynamic => true
  | _ => false

/-- A jump to one of several targets. -/
def isSwitch (op : Opcode) : Bool := op = tableswitch || op = lookupswitch

end Opcode

end ClassBench
