import ClassBench.Access
import ClassBench.Pool

/-! Class files.  A class refers to its names through its constant pool, and everything beyond its
members is an attribute: a name with raw bytes, among them the code of the methods. -/

namespace ClassBench

/-- An attribute, whose bytes are read only where their meaning is needed. -/
structure Attribute where
  name : UInt16
  info : Bytes
  deriving DecidableEq, Repr

/-- A field or a method. -/
structure Member where
  access : UInt16
  name : UInt16
  descriptor : UInt16
  attributes : List Attribute := []
  deriving DecidableEq, Repr

/-- A range of code, where its exceptions are handled, and the class of exceptions or 0 for all. -/
structure Handler where
  first : UInt16
  last : UInt16
  target : UInt16
  caught : UInt16
  deriving DecidableEq, Repr

/-- The body of a method. -/
structure Code where
  maxStack : UInt16
  maxLocals : UInt16
  code : Bytes
  handlers : List Handler := []
  attributes : List Attribute := []
  deriving DecidableEq, Repr

/-- A class file. -/
structure ClassFile where
  minor : UInt16 := 0
  major : UInt16 := 52
  pool : Pool
  access : UInt16 := Access.isPublic ||| Access.callsSuper
  thisClass : UInt16
  superClass : UInt16
  interfaces : List UInt16 := []
  fields : List Member := []
  methods : List Member := []
  attributes : List Attribute := []
  deriving DecidableEq

/-- The name of the class above all others. -/
def objectName : String := "java/lang/Object"

/-- The name of constructors. -/
def constructorName : String := "<init>"

/-- The descriptor of a method without parameters and result. -/
def plainDescriptor : String := "()V"

/-- The name of the attribute that holds a body. -/
def codeName : String := "Code"

/-- The name of a member. -/
def Member.name? (member : Member) (pool : Pool) : Option String := pool.utf8? member.name

/-- The descriptor of a member. -/
def Member.descriptor? (member : Member) (pool : Pool) : Option String :=
  pool.utf8? member.descriptor

/-- The bytes of the first attribute with a name. -/
def Member.attribute? (member : Member) (pool : Pool) (name : String) : Option Bytes :=
  (member.attributes.find? fun a => pool.utf8? a.name == some name).map Attribute.info

/-- Whether a member has this name and this descriptor. -/
def Member.isNamed (member : Member) (pool : Pool) (name descriptor : String) : Bool :=
  member.name? pool == some name && member.descriptor? pool == some descriptor

namespace ClassFile

/-- A class without members. -/
def new (name superName : String) : ClassFile :=
  let make : StateM Pool (UInt16 × UInt16) := do
    let this ← Pool.classRef name
    let super ← Pool.classRef superName
    return (this, super)
  let ((this, super), pool) := make Pool.empty
  { pool, thisClass := this, superClass := super }

/-- The name of the class. -/
def name? (c : ClassFile) : Option String := c.pool.className? c.thisClass

/-- The name of the super class. -/
def superName? (c : ClassFile) : Option String := c.pool.className? c.superClass

/-- The names of the interfaces, as far as they have one. -/
def interfaceNames (c : ClassFile) : List String := c.interfaces.filterMap c.pool.className?

/-- Whether the class is an interface. -/
def isInterface (c : ClassFile) : Bool := Access.has c.access Access.isInterface

/-- The place of the first method with this name and descriptor. -/
def methodIndex? (c : ClassFile) (name descriptor : String) : Option Nat :=
  c.methods.findIdx? (·.isNamed c.pool name descriptor)

/-- The first method with this name and descriptor. -/
def method? (c : ClassFile) (name descriptor : String) : Option Member :=
  c.methods.find? (·.isNamed c.pool name descriptor)

/-- The constructor without parameters. -/
def constructor? (c : ClassFile) : Option Member := c.method? constructorName plainDescriptor

end ClassFile

end ClassBench
