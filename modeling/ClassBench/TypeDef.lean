import ClassBench.ClassFile

/-! What is known of a type without its class file: its name, its kind, and the names of the types
that it builds on. -/

namespace ClassBench

/-- The kinds of types. -/
inductive TypeKind where
  | classKind | interfaceKind
  deriving DecidableEq, Repr

/-- The name of a kind in listings. -/
def TypeKind.name : TypeKind → String
  | classKind => "Class"
  | interfaceKind => "Interface"

/-- A definition of a type. -/
structure TypeDef where
  name : String
  kind : TypeKind
  superName : Option String := none
  interfaces : List String := []
  hasDefaultConstructor : Bool := true
  deriving DecidableEq, Repr

namespace TypeDef

/-- Whether the type is an interface. -/
def isInterface (d : TypeDef) : Bool := d.kind == .interfaceKind

/-- The names of the types that the definition builds on: the super type, then the interfaces. -/
def parents (d : TypeDef) : List String := d.superName.toList ++ d.interfaces

/-- The definition of the class above all others. -/
def object : TypeDef := { name := objectName, kind := .classKind }

/-- A class with a super class and a constructor without parameters. -/
def extending (name superName : String) : TypeDef :=
  { name, kind := .classKind, superName := some superName }

/-- What a class file called `name` says of its type.  An interface builds on its interfaces
alone. -/
def ofClassFile (name : String) (c : ClassFile) : TypeDef where
  name := name
  kind := if c.isInterface then .interfaceKind else .classKind
  superName := if c.isInterface then none else c.superName?
  interfaces := c.interfaceNames
  hasDefaultConstructor := c.constructor?.isSome

end TypeDef

end ClassBench
