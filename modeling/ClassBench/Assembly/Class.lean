import ClassBench.Assembly.Error
import ClassBench.ClassFile.Codec

/-! Assembling a class file.  Each step changes the class in hand and interns the names that it
mentions, in the order in which it mentions them. -/

namespace ClassBench

/-- A step that changes the class in hand. -/
abbrev Assembly := StateM ClassFile

namespace Assembly

/-- Works on the pool of the class. -/
def onPool (step : StateM Pool α) : Assembly α := fun c =>
  let pool := c.pool
  let (value, pool) := step pool
  (value, { c with pool })

/-- The name of the class, or nothing if it has none. -/
def name : Assembly String := do return (← get).name?.getD ""

/-- Sets the access flags of the class. -/
def setAccess (flags : UInt16) : Assembly Unit := modify fun c => { c with access := flags }

/-- Sets the major version of the class. -/
def setMajor (version : UInt16) : Assembly Unit := modify fun c => { c with major := version }

/-- Declares an interface, unless it is declared already. -/
def addInterface (name : String) : Assembly Unit := do
  let index ← onPool (Pool.classRef name)
  modify fun c =>
    if c.interfaces.contains index then c
    else { c with interfaces := c.interfaces ++ [index] }

/-- Declares a field. -/
def addField (access : UInt16) (name descriptor : String) : Assembly Unit := do
  let name ← onPool (Pool.utf8 name)
  let descriptor ← onPool (Pool.utf8 descriptor)
  modify fun c => { c with fields := c.fields ++ [{ access, name, descriptor }] }

/-- Declares a method without a body. -/
def addAbstractMethod (access : UInt16) (name descriptor : String) : Assembly Unit := do
  let name ← onPool (Pool.utf8 name)
  let descriptor ← onPool (Pool.utf8 descriptor)
  let access := access ||| Access.isAbstract
  modify fun c => { c with methods := c.methods ++ [{ access, name, descriptor }] }

/-- Declares a method with a body. -/
def addMethod (access : UInt16) (name descriptor : String) (code : Code) : Assembly Unit := do
  let name ← onPool (Pool.utf8 name)
  let descriptor ← onPool (Pool.utf8 descriptor)
  let codeName ← onPool (Pool.utf8 codeName)
  let attributes := [{ name := codeName, info := code.encode }]
  modify fun c => { c with methods := c.methods ++ [{ access, name, descriptor, attributes }] }

/-- Whether a method with this name and descriptor is declared. -/
def hasMethod (name descriptor : String) : Assembly Bool := do
  return ((← get).method? name descriptor).isSome

/-- Names the source file of the class, in place of the one named before. -/
def setSourceFile (file : String) : Assembly Unit := do
  let name ← onPool (Pool.utf8 "SourceFile")
  let value ← onPool (Pool.utf8 file)
  modify fun c =>
    let kept := c.attributes.filter fun a => a.name != name
    { c with attributes := kept ++ [{ name, info := Bytes.ofUInt16 value }] }

/-- The index of the class entry with a name. -/
def classRef (name : String) : Assembly UInt16 := onPool (Pool.classRef name)

end Assembly

end ClassBench
