import ClassBench.Text.Quoted

/-! Why a step of assembling a class is refused. -/

namespace ClassBench

/-- The causes that make the assembler refuse a step. -/
inductive BuildError where
  /-- The distance between the two offsets does not fit in 16 bits. -/
  | jumpOutOfRange (first target : Nat)
  /-- No branch with a 16-bit distance stands at the offset. -/
  | notABranch (offset : Nat)
  /-- The code of a method is longer than a class file allows. -/
  | codeTooLarge (length : Nat)
  /-- The parameters of a method descriptor cannot be counted. -/
  | invalidDescriptor (text : String)
  deriving DecidableEq, Repr

/-- The name of the cause. -/
def BuildError.kind : BuildError → String
  | jumpOutOfRange .. => "JumpOutOfRange"
  | notABranch .. => "NotABranch"
  | codeTooLarge .. => "CodeTooLarge"
  | invalidDescriptor .. => "InvalidDescriptor"

/-- The text of an error. -/
def BuildError.message : BuildError → String
  | jumpOutOfRange first target =>
    s!"Jump from {first} to {target} does not fit in a 16-bit offset"
  | notABranch offset => s!"No branch instruction at offset {offset}"
  | codeTooLarge length => s!"Code too large: {length} bytes"
  | invalidDescriptor text => s!"Invalid method descriptor {quoted text}"

end ClassBench
