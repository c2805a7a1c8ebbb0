import ClassBench.ClassFile.Codec
import ClassBench.World

/-! Transformations of class files.  A transformation may look up the types that a class refers
to, and fails if it cannot make sense of the class. -/

namespace ClassBench

/-- Why a transformation fails. -/
inductive TransformError where
  | analysis (message : String)
  deriving DecidableEq, Repr

/-- The text of an error. -/
def TransformError.message : TransformError → String
  | analysis message => s!"Analysis failed: {message}"

/-- A transformation of class files, given the scope of the types that it may look up. -/
abbrev Transform := World → ScopeId → Bytes → Except TransformError Bytes

namespace Transform

/-- Leaves every class as it is. -/
def identity : Transform := fun _ _ input => .ok input

/-- Makes sense of no class. -/
def failing (message : String) : Transform := fun _ _ _ => .error (.analysis message)

/-- Gives the same bytes for every class. -/
def constant (output : Bytes) : Transform := fun _ _ _ => .ok output

/-- Adds bytes at the end. -/
def appending (suffix : Bytes) : Transform := fun _ _ input => .ok (input ++ suffix)

/-- Sets the major version. -/
def settingMajor (version : UInt16) : Transform := fun _ _ input =>
  match ClassFile.decode input with
  | .ok c => .ok { c with major := version }.encode
  | .error e => .error (.analysis e.message)

/-- Leaves every class as it is, if the scope sees a type. -/
def needing (name : String) : Transform := fun w scope input =>
  match w.handle scope name with
  | .ok _ => .ok input
  | .error e => .error (.analysis e.message)

end Transform

end ClassBench
