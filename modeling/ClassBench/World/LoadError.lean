import ClassBench.Constructor.Error
import ClassBench.Verify.Error
import ClassBench.World.ScopeError

/-! Why a class file cannot be loaded or its type not be instantiated. -/

namespace ClassBench

/-- The causes that stop a load. -/
inductive LoadError where
  /-- The bytes are no class file. -/
  | decode (source : DecodeError)
  /-- The class file is not sound. -/
  | verify (source : VerifyError)
  /-- The super type or an interface cannot be used. -/
  | resolve (source : ScopeError)
  /-- The name is visible from the scope already. -/
  | duplicateDefinition (name : String)
  /-- No type of that name was loaded in the scope. -/
  | unknownType (name : String)
  /-- An interface or an abstract class. -/
  | notInstantiable (name : String)
  /-- A class without a constructor that takes no parameters. -/
  | missingConstructor (name : String)
  /-- The constructor failed. -/
  | constructor (typeName : String) (source : ConstructError)
  /-- The instance is not of the type asked for. -/
  | notAssignable (name target : String)
  deriving DecidableEq, Repr

/-- The name of the cause. -/
def LoadError.kind : LoadError → String
  | decode .. => "Decode"
  | verify .. => "Verify"
  | resolve .. => "Resolve"
  | constructor .. => "Constructor"
  | duplicateDefinition .. => "DuplicateDefinition"
  | unknownType .. => "UnknownType"
  | notInstantiable .. => "NotInstantiable"
  | missingConstructor .. => "MissingConstructor"
  | notAssignable .. => "NotAssignable"

/-- The text of an error. -/
def LoadError.message : LoadError → String
  | decode source => s!"Decode error: {source.message}"
  | verify source => s!"Verification failed: {source.message}"
  | resolve source => s!"Resolution failed: {source.message}"
  | duplicateDefinition name => s!"Duplicate definition of {name}"
  | unknownType name => s!"Type {name} is not defined in this context"
  | notInstantiable name => s!"Type {name} cannot be instantiated"
  | missingConstructor name => s!"Type {name} has no no-argument constructor"
  | constructor typeName source => s!"Constructor of {typeName} failed: {source.message}"
  | notAssignable name target => s!"{name} is not assignable to {target}"

end ClassBench
