import ClassBench.DecodeError
import ClassBench.Transform

/-! Why a debug run stops. -/

namespace ClassBench

/-- The causes that stop a debug run. -/
inductive DebugError where
  /-- A file or directory cannot be written or read. -/
  | io (path : String)
  /-- The input is no class file. -/
  | decode (source : DecodeError)
  /-- The output is no class file. -/
  | invalidOutput (source : DecodeError)
  /-- The transformation failed. -/
  | transform (source : TransformError)
  /-- No root holds a class of that name. -/
  | classNotFound (name : String) (searched : Nat)
  /-- The class has no name that resolves. -/
  | unnamed
  deriving DecidableEq, Repr

/-- The name of the cause. -/
def DebugError.kind : DebugError → String
  | io .. => "Io"
  | decode .. => "Decode"
  | invalidOutput .. => "InvalidOutput"
  | transform .. => "Transform"
  | classNotFound .. => "ClassNotFound"
  | unnamed => "Unnamed"

/-- The text of an error. -/
def DebugError.message : DebugError → String
  | io path => s!"I/O error on {path}"
  | decode source => s!"Invalid input class: {source.message}"
  | invalidOutput source => s!"Transformer produced an invalid class: {source.message}"
  | transform source => s!"Transform failed: {source.message}"
  | classNotFound name searched =>
    s!"Class {name} not found on class path ({searched} roots searched)"
  | unnamed => "Class has no resolvable name"

end ClassBench
