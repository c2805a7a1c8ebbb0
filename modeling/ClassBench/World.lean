import ClassBench.Text.Quoted
import ClassBench.World.ScopeError

/-! A world of scopes.  A scope is a named table of types; scopes form a forest, and a name is
looked up from the outermost ancestor inwards, so that a scope sees all that its ancestors define
and can never shadow it.  An isolated scope is one made to hold the types of a single load: apart
from its name it is a scope like any other, and its loaded types keep the class files that defined
them. -/

namespace ClassBench

/-- A scope of a world, by its number in order of creation. -/
structure ScopeId where
  index : Nat
  deriving DecidableEq, Repr

/-- A type that was defined by the bytes of a class file. -/
structure LoadedType where
  type : TypeDef
  classFile : ClassFile
  bytes : Bytes

/-- The name of a loaded type. -/
def LoadedType.name (t : LoadedType) : String := t.type.name

/-- A table of types.  The ancestors go from the outermost to the parent, and the types stand in the
order in which they were defined. -/
structure Scope where
  name : String
  ancestors : List ScopeId := []
  types : List TypeDef := []
  loaded : List LoadedType := []
  isolated : Bool := false

/-- The scope around a scope. -/
def Scope.parent? (s : Scope) : Option ScopeId := s.ancestors.getLast?

/-- The names of the types that the scope itself defines, sorted. -/
def Scope.localNames (s : Scope) : List String := (s.types.map TypeDef.name).mergeSort

/-- A type together with the scope that defines it. -/
structure TypeHandle where
  type : TypeDef
  scope : ScopeId
  deriving DecidableEq, Repr

/-- The scopes made so far. -/
structure World where
  scopes : Array Scope := #[]

namespace World

/-- The world without scopes. -/
def empty : World := {}

/-- The scope with a number. -/
def scope? (w : World) (id : ScopeId) : Option Scope := w.scopes[id.index]?

/-- A scope and its ancestors, the outermost first. -/
def lineage (w : World) (id : ScopeId) : List ScopeId :=
  match w.scope? id with
  | some scope => scope.ancestors ++ [id]
  | none => []

/-- The type that the scope itself defines by this name. -/
def local? (w : World) (id : ScopeId) (name : String) : Option TypeDef := do
  (← w.scope? id).types.find? (·.name == name)

/-- The type that a name stands for in a scope, asking the outermost ancestor first. -/
def resolve? (w : World) (id : ScopeId) (name : String) : Option TypeHandle :=
  (w.lineage id).findSome? fun scope => (w.local? scope name).map (⟨·, scope⟩)

/-- The loaded type that the scope itself holds by this name. -/
def loaded? (w : World) (id : ScopeId) (name : String) : Option LoadedType := do
  (← w.scope? id).loaded.find? (·.name == name)

/-- Adds a scope. -/
def add (w : World) (scope : Scope) : ScopeId × World :=
  (⟨w.scopes.size⟩, { w with scopes := w.scopes.push scope })

/-- Adds an empty scope without parent. -/
def addRoot (w : World) (name : String) : ScopeId × World := w.add { name }

/-- Adds a scope without parent that defines the class above all others. -/
def addBootstrap (w : World) : ScopeId × World :=
  w.add { name := "bootstrap", types := [TypeDef.object] }

/-- Adds an empty scope within another. -/
def addChild (w : World) (parent : ScopeId) (name : String) : ScopeId × World :=
  w.add { name, ancestors := w.lineage parent }

/-- Adds an isolated scope within another.  Its name tells how many there were before. -/
def addIsolated (w : World) (parent : ScopeId) : ScopeId × World :=
  let count := w.scopes.countP Scope.isolated
  w.add { name := s!"isolation-{count}", ancestors := w.lineage parent, isolated := true }

/-- Changes a scope. -/
def modifyScope (w : World) (id : ScopeId) (change : Scope → Scope) : World :=
  { w with scopes := w.scopes.modify id.index change }

/-- The type that a name stands for, where it must stand for one. -/
def require (w : World) (id : ScopeId) (name referencedBy : String) :
    Except ScopeError TypeHandle :=
  match w.resolve? id name with
  | some handle => .ok handle
  | none => .error (.unresolvedType name referencedBy)

/-- The type that a name stands for; the scope answers for a name that stands for none. -/
def handle (w : World) (id : ScopeId) (name : String) : Except ScopeError TypeHandle :=
  w.require id name (((w.scope? id).map Scope.name).getD "")

/-- Fails unless the super type of a definition is a class; only the class above all others and
interfaces do without one. -/
def checkSuper (w : World) (id : ScopeId) (d : TypeDef) : Except ScopeError Unit := do
  match d.superName with
  | some superName =>
    let parent ← w.require id superName d.name
    if parent.type.isInterface then throw (.notAClass superName d.name)
  | none =>
    if d.kind = .classKind ∧ d.name ≠ objectName then throw (.missingSuperType d.name)

/-- Fails unless the listed interfaces are interfaces. -/
def checkInterfaces (w : World) (id : ScopeId) (d : TypeDef) : Except ScopeError Unit :=
  d.interfaces.forM fun name => do
    let parent ← w.require id name d.name
    if !parent.type.isInterface then throw (.notAnInterface name d.name)

/-- Defines a type in a scope.  Its name must be new to the scope, and what it builds on must be
visible there and of the right kind. -/
def register (w : World) (id : ScopeId) (d : TypeDef) : Except ScopeError (TypeHandle × World) := do
  if (w.resolve? id d.name).isSome then throw (.duplicateType d.name)
  w.checkSuper id d
  w.checkInterfaces id d
  return (⟨d, id⟩, w.modifyScope id fun s => { s with types := s.types ++ [d] })

/-- The types that a scope sees. -/
def visible (w : World) (id : ScopeId) : List TypeDef :=
  (w.lineage id).flatMap fun scope => ((w.scope? scope).map Scope.types).getD []

/-- Whether `target` is reached from a name in fewer than `fuel` steps to what a type builds on. -/
def reaches (w : World) (id : ScopeId) (target : String) : (fuel : Nat) → String → Bool
  | 0, _ => false
  | fuel + 1, name =>
    match w.resolve? id name with
    | none => false
    | some handle =>
      name == target || target == objectName || handle.type.parents.any (w.reaches id target fuel)

/-- Whether a value of type `name` can stand where `target` is expected.  Every name is looked up
from the scope that asks, and a chain of distinct visible types is no longer than there are any. -/
def isAssignable (w : World) (id : ScopeId) (name target : String) : Bool :=
  w.reaches id target ((w.visible id).length + 1) name

end World

/-- The description of a scope: its name, its types and the name of its parent. -/
def World.describe (w : World) (s : Scope) : String :=
  let parent :=
    match s.parent?.bind w.scope? with
    | some parent => s!"Some({quoted parent.name})"
    | none => "None"
  let types := ", ".intercalate (s.localNames.map quoted)
  s!"TypeScope \x7b name: {quoted s.name}, types: [{types}], parent: {parent} \x7d"

end ClassBench
