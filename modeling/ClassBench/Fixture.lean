import ClassBench.Assembly.Class
import ClassBench.Text.Quoted
import ClassBench.Text.Uppercase
import ClassBench.World.Load

/-! Fixtures: classes made on request below a given type.  A fixture is nested in an owner, has a
name of its own, and has a public constructor without parameters that calls the one of the super
type; a request may add members before the constructor. -/

namespace ClassBench

/-- Where a fixture is requested. -/
structure CallSite where
  method : String
  line : UInt32
  deriving DecidableEq, Repr

/-- How fixtures are named: after the place of the request, or by their number. -/
inductive Naming where
  | callSite
  | sequential (next : UInt32)
  deriving DecidableEq, Repr

/-- A word with its first letter in upper case. -/
def capitalized (word : String) : String :=
  match word.toList with
  | [] => ""
  | first :: rest => String.ofList (Text.uppercase first ++ rest)

/-- The simple name of the next fixture, and how those after it are named. -/
def Naming.fixtureName (site : CallSite) : Naming → String × Naming
  | callSite => (s!"Experiment{capitalized site.method}{site.line}", callSite)
  | sequential next => (s!"Experiment{next}", sequential (next + 1))

/-- A maker of fixtures. -/
structure Synthesizer where
  owner : String
  naming : Naming := .callSite
  deriving DecidableEq, Repr

namespace Synthesizer

/-- The description of a maker of fixtures. -/
def describe (s : Synthesizer) : String :=
  s!"ModuleSynthesizer \x7b owner: {quoted s.owner}, .. \x7d"

/-- The name of the next fixture. -/
def fixtureName (site : CallSite) : StateM Synthesizer String := do
  let s ← get
  let (simple, naming) := s.naming.fixtureName site
  set { s with naming }
  return s!"{s.owner}${simple}"

/-- The super class of fixtures below a type. -/
def superName (super : TypeHandle) : String :=
  if super.type.isInterface then objectName else super.type.name

/-- Declares the constructor of a fixture. -/
def addConstructor (superName : String) : Assembly Unit := do
  let init ← Assembly.onPool (Pool.methodRef ⟨superName, constructorName, plainDescriptor⟩)
  let code : Bytes :=
    [Opcode.aload_0.byte, Opcode.invokespecial.byte] ++ Bytes.ofUInt16 init ++
      [Opcode.return_.byte]
  Assembly.addMethod Access.isPublic constructorName plainDescriptor
    { maxStack := 1, maxLocals := 1, code }

/-- Makes a fixture below a type, with the members that `populate` adds. -/
def assemble (super : TypeHandle) (populate : Assembly α) : Assembly α := do
  Assembly.setAccess (Access.isPublic ||| Access.callsSuper)
  if super.type.isInterface then Assembly.addInterface super.type.name
  let answer ← populate
  addConstructor (superName super)
  return answer

/-- Makes the class file of a fixture below a type. -/
def synthesize (super : TypeHandle) (site : CallSite) (populate : Assembly α) :
    StateM Synthesizer (α × ClassFile) := do
  let name ← fixtureName site
  return assemble super populate (ClassFile.new name (superName super))

end Synthesizer

/-- Loads a new fixture below a type. -/
def World.create (w : World) (super : TypeHandle) (site : CallSite) (populate : Assembly α) :
    StateM Synthesizer (α × Except LoadError (Instance × World)) := do
  let (answer, c) ← Synthesizer.synthesize super site populate
  return (answer, w.load super c.encode)

end ClassBench
