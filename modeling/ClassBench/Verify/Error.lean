import ClassBench.DecodeError
import ClassBench.Instruction.Split
import ClassBench.Text.Quoted
import ClassBench.Verify.Role

/-! Why a class file is not sound.  A method is called by its name and descriptor together. -/

namespace ClassBench

/-- The causes that make the verifier refuse a class. -/
inductive VerifyError where
  /-- No entry at `index` plays the role. -/
  | invalidConstantRef (index : UInt16) (role : Role)
  /-- A class without super class that is not the one above all others. -/
  | missingSuperType (name : String)
  /-- A text that is no descriptor of its kind of member. -/
  | invalidDescriptor (text : String)
  /-- Two fields or two methods with one name and descriptor. -/
  | duplicateMember (name descriptor : String)
  /-- A method that needs a body and has none. -/
  | missingCode (method : String)
  /-- A method that has a body and must not. -/
  | unexpectedCode (method : String)
  /-- A body that cannot be read. -/
  | malformedCode (method : String) (source : DecodeError)
  /-- Code that is empty or too long. -/
  | invalidCodeLength (method : String) (length : Nat)
  /-- Code that is no row of instructions. -/
  | invalidInstruction (method : String) (source : CodeError)
  /-- A jump to an offset where no instruction begins. -/
  | invalidJumpTarget (method : String) (target offset : Nat)
  /-- A local variable beyond those of the body. -/
  | invalidLocalRef (method : String) (index max : UInt16) (offset : Nat)
  /-- An instruction whose pool entry does not play its role. -/
  | invalidOperandRef (method : String) (opcode : Opcode) (index : UInt16) (offset : Nat)
  /-- The last instruction passes control on. -/
  | fallOffEnd (method : String) (offset : Nat)
  deriving DecidableEq, Repr

/-- The name of the cause. -/
def VerifyError.kind : VerifyError → String
  | invalidConstantRef .. => "InvalidConstantRef"
  | missingSuperType .. => "MissingSuperType"
  | invalidDescriptor .. => "InvalidDescriptor"
  | duplicateMember .. => "DuplicateMember"
  | missingCode .. => "MissingCode"
  | unexpectedCode .. => "UnexpectedCode"
  | malformedCode .. => "MalformedCode"
  | invalidCodeLength .. => "InvalidCodeLength"
  | invalidInstruction .. => "InvalidInstruction"
  | invalidJumpTarget .. => "InvalidJumpTarget"
  | invalidLocalRef .. => "InvalidLocalRef"
  | invalidOperandRef .. => "InvalidOperandRef"
  | fallOffEnd .. => "FallOffEnd"

/-- The text of an error. -/
def VerifyError.message : VerifyError → String
  | invalidConstantRef index role =>
    s!"Invalid constant pool reference #{index}: expected {role.label}"
  | missingSuperType name => s!"Missing super type for {name}"
  | invalidDescriptor text => s!"Invalid descriptor {quoted text}"
  | duplicateMember name descriptor => s!"Duplicate member {name}{descriptor}"
  | missingCode method => s!"Method {method} has no Code attribute"
  | unexpectedCode method => s!"Method {method} is abstract or native but has a Code attribute"
  | malformedCode method source => s!"Malformed Code attribute in {method}: {source.message}"
  | invalidCodeLength method length => s!"Invalid code length {length} in {method}"
  | invalidInstruction method source => s!"Invalid instruction in {method}: {source.message}"
  | invalidJumpTarget method target offset =>
    s!"Invalid jump target {target} at offset {offset} in {method}"
  | invalidLocalRef method index max offset =>
    s!"Invalid local variable {index} (max {max}) at offset {offset} in {method}"
  | invalidOperandRef method opcode index offset =>
    s!"Instruction {opcode.mnemonic} at offset {offset} in {method} references #{index}, " ++
      s!"expected {(Role.ofOpcode opcode).label}"
  | fallOffEnd method offset => s!"Execution falls off end of {method} at offset {offset}"

end ClassBench
