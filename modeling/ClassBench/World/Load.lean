import ClassBench.Constructor
import ClassBench.Verify
import ClassBench.World.LoadError

/-! Loading class files into isolated scopes.  A load defines the type in a new scope within that
of the super type, where nothing else sees it, so that the same bytes can be loaded any number of
times.  A load that fails leaves the world as it was. -/

namespace ClassBench

/-- An instance of a type that was loaded in a scope. -/
structure Instance where
  scope : ScopeId
  type : LoadedType
  fields : Fields

/-- The error of a definition that a scope refuses. -/
def LoadError.ofScope : ScopeError → LoadError
  | .duplicateType name => .duplicateDefinition name
  | error => .resolve error

namespace World

/-- Defines the type of a class file in a scope. -/
def define (w : World) (id : ScopeId) (bytes : Bytes) : Except LoadError (LoadedType × World) := do
  let c ← (ClassFile.decode bytes).mapError .decode
  c.verify.mapError .verify
  match c.name? with
  | none => throw (.verify (.invalidConstantRef c.thisClass .classRef))
  | some name =>
    if (w.loaded? id name).isSome then throw (.duplicateDefinition name)
    let (handle, w) ← (w.register id (TypeDef.ofClassFile name c)).mapError LoadError.ofScope
    let t : LoadedType := { type := handle.type, classFile := c, bytes }
    return (t, w.modifyScope id fun s => { s with loaded := s.loaded ++ [t] })

/-- A new instance of a type loaded in a scope. -/
def instantiate (w : World) (id : ScopeId) (name : String) : Except LoadError Instance := do
  match w.loaded? id name with
  | none => throw (.unknownType name)
  | some t =>
    if Access.has t.classFile.access (Access.isInterface ||| Access.isAbstract) then
      throw (.notInstantiable name)
    if t.classFile.constructor?.isNone then throw (.missingConstructor name)
    let fields ← (w.construct id t).mapError (.constructor name)
    return ⟨id, t, fields⟩

/-- Whether an instance can stand where `target` is expected. -/
def isInstanceOf (w : World) (i : Instance) (target : String) : Bool :=
  w.isAssignable i.scope i.type.name target

/-- Loads a class file into a new scope within that of the super type, and makes an instance of it,
which must be of the super type. -/
def load (w : World) (super : TypeHandle) (bytes : Bytes) :
    Except LoadError (Instance × World) := do
  let (id, w) := w.addIsolated super.scope
  let (t, w) ← w.define id bytes
  let i ← w.instantiate id t.name
  if !w.isInstanceOf i super.type.name then throw (.notAssignable t.name super.type.name)
  return (i, w)

end World

end ClassBench
