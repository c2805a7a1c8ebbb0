import ClassBench.World.Load

/-! Histories of a world.  A world starts without scopes, and only the operations below change it:
making scopes, registering types in them and defining the types of class files in isolated ones.  An
operation that fails changes nothing, and so does one on a scope that was never made. -/

namespace ClassBench

/-- An operation that may change a world. -/
inductive Operation where
  /-- Makes a scope without parent. -/
  | root (name : String)
  /-- Makes a scope without parent that defines the class above all others. -/
  | bootstrap
  /-- Makes a scope within another. -/
  | child (parent : ScopeId) (name : String)
  /-- Makes an isolated scope within another. -/
  | isolated (parent : ScopeId)
  /-- Defines a type in a scope. -/
  | register (scope : ScopeId) (d : TypeDef)
  /-- Defines the type of a class file in an isolated scope. -/
  | define (scope : ScopeId) (bytes : Bytes)
  deriving DecidableEq, Repr

namespace World

/-- Whether a scope was made. -/
def has (w : World) (id : ScopeId) : Bool := (w.scope? id).isSome

/-- Whether a scope was made to hold the types of class files. -/
def isContext (w : World) (id : ScopeId) : Bool := (w.scope? id).any Scope.isolated

/-- The world after an operation. -/
def perform (w : World) : Operation → World
  | .root name => (w.addRoot name).2
  | .bootstrap => w.addBootstrap.2
  | .child parent name => if w.has parent then (w.addChild parent name).2 else w
  | .isolated parent => if w.has parent then (w.addIsolated parent).2 else w
  | .register id d =>
    if w.has id then
      match w.register id d with
      | .ok (_, w) => w
      | .error _ => w
    else w
  | .define id bytes =>
    if w.isContext id then
      match w.define id bytes with
      | .ok (_, w) => w
      | .error _ => w
    else w

/-- The world after operations in a row. -/
def performAll (w : World) (operations : List Operation) : World := operations.foldl perform w

/-- The world with this history. -/
def after (operations : List Operation) : World := empty.performAll operations

end World

end ClassBench
