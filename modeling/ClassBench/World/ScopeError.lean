import ClassBench.TypeDef

/-! Why a definition cannot enter a scope. -/

namespace ClassBench

/-- The causes that keep a type out of a scope. -/
inductive ScopeError where
  /-- The name is visible from the scope already. -/
  | duplicateType (name : String)
  /-- A type that is referred to is not visible from the scope. -/
  | unresolvedType (name referencedBy : String)
  /-- The super type is an interface. -/
  | notAClass (name referencedBy : String)
  /-- A type listed as an interface is a class. -/
  | notAnInterface (name referencedBy : String)
  /-- A class without super type that is not the one above all others. -/
  | missingSuperType (name : String)
  deriving DecidableEq, Repr

/-- The name of the cause. -/
def ScopeError.kind : ScopeError → String
  | duplicateType .. => "DuplicateType"
  | unresolvedType .. => "UnresolvedType"
  | notAClass .. => "NotAClass"
  | notAnInterface .. => "NotAnInterface"
  | missingSuperType .. => "MissingSuperType"

/-- The text of an error. -/
def ScopeError.message : ScopeError → String
  | duplicateType name => s!"Type {name} is already defined"
  | unresolvedType name referencedBy => s!"Type {referencedBy} refers to unknown type {name}"
  | notAClass name referencedBy => s!"Type {referencedBy} extends interface {name}"
  | notAnInterface name referencedBy => s!"Type {referencedBy} implements class {name}"
  | missingSuperType name => s!"Class {name} has no super type"

end ClassBench
