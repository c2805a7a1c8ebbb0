import ClassBench.Instruction.Split

/-! Why a constructor cannot be run. -/

namespace ClassBench

/-- The causes that stop a constructor. -/
inductive ConstructError where
  /-- The type has no constructor with a body. -/
  | missingBody (typeName : String)
  /-- The body is no row of instructions. -/
  | malformed (text : String)
  /-- An instruction that constructors of fixtures do not need. -/
  | unsupported (opcode : Opcode) (offset : Nat)
  /-- An instruction finds too few operands. -/
  | stackUnderflow (offset : Nat)
  /-- A store or a call on something other than the instance under construction. -/
  | notThis (offset : Nat)
  /-- A pool entry that does not stand for what the instruction needs. -/
  | badConstant (index : UInt16) (offset : Nat)
  /-- A store to a field that the type does not declare. -/
  | unknownField (owner name : String)
  /-- A call of something other than the constructor of the super type. -/
  | invalidSuperCall (owner name descriptor : String)
  /-- A second call of the super constructor. -/
  | duplicateSuperCall (typeName : String)
  /-- A return before the super constructor was called. -/
  | missingSuperCall (typeName : String)
  /-- The super type, which has no body here, has no constructor without parameters. -/
  | noDefaultConstructor (superName : String)
  /-- The body ends without a return. -/
  | noReturn (typeName : String)
  /-- The super types of a type go round in a circle. -/
  | endlessChain (typeName : String)
  deriving DecidableEq, Repr

/-- The name of the cause. -/
def ConstructError.kind : ConstructError → String
  | missingBody .. => "MissingBody"
  | malformed .. => "Malformed"
  | unsupported .. => "Unsupported"
  | stackUnderflow .. => "StackUnderflow"
  | notThis .. => "NotThis"
  | badConstant .. => "BadConstant"
  | unknownField .. => "UnknownField"
  | invalidSuperCall .. => "InvalidSuperCall"
  | duplicateSuperCall .. => "DuplicateSuperCall"
  | missingSuperCall .. => "MissingSuperCall"
  | noDefaultConstructor .. => "NoDefaultConstructor"
  | noReturn .. => "NoReturn"
  | endlessChain .. => "EndlessChain"

/-- The text of an error. -/
def ConstructError.message : ConstructError → String
  | missingBody typeName => s!"No constructor body in {typeName}"
  | malformed text => s!"Malformed constructor: {text}"
  | unsupported opcode offset => s!"Unsupported instruction {opcode.mnemonic} at offset {offset}"
  | stackUnderflow offset => s!"Operand stack underflow at offset {offset}"
  | notThis offset => s!"Receiver is not this at offset {offset}"
  | badConstant index offset => s!"Unusable constant #{index} at offset {offset}"
  | unknownField owner name => s!"Unknown field {owner}.{name}"
  | invalidSuperCall owner name descriptor =>
    s!"Invalid constructor call {owner}.{name}{descriptor}"
  | duplicateSuperCall typeName => s!"Super constructor called twice in {typeName}"
  | missingSuperCall typeName => s!"Constructor of {typeName} returned without calling super"
  | noDefaultConstructor superName => s!"Super type {superName} has no default constructor"
  | noReturn typeName => s!"Constructor of {typeName} does not return"
  | endlessChain typeName => s!"Super types of {typeName} do not end"

end ClassBench
