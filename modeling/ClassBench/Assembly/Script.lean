import ClassBench.Assembly.Method
import ClassBench.Pool.Codec

/-! Scripts: the steps of assembling pools, methods and classes as data, and what each step
answers.  Running a script is running its steps one after the other; a step that is refused
changes nothing but what it says, and the steps after it still run. -/

namespace ClassBench

/-- A step on a constant pool. -/
inductive PoolStep where
  | push (entry : Constant)
  | pushMany (entry : Constant) (count : Nat)
  | utf8 (text : String)
  | classRef (name : String)
  | string (text : String)
  | integer (value : Int32)
  | nameAndType (name descriptor : String)
  | fieldRef (member : MemberRef)
  | methodRef (member : MemberRef)
  | interfaceMethodRef (member : MemberRef)
  | entryAt (index : UInt16)
  | textAt (index : UInt16)
  | classNameAt (index : UInt16)
  | nameAndTypeAt (index : UInt16)
  | memberAt (index : UInt16)
  | slotCount
  | encoded
  | listing
  deriving DecidableEq, Repr

/-- What a step on a pool answers. -/
inductive PoolAnswer where
  | index (index : Option UInt16)
  | entry (entry : Option Constant)
  | text (text : Option String)
  | signature (signature : Option (String × String))
  | member (member : Option MemberRef)
  | bytes (bytes : Bytes)
  | entries (entries : List (UInt16 × Constant))

/-- Adds an entry `count` times; the answer is the index of the last, or `last` if there is none. -/
def Pool.pushMany (entry : Constant) (last : Option UInt16) : Nat → StateM Pool (Option UInt16)
  | 0 => return last
  | count + 1 => do
    let index ← push entry
    pushMany entry (some index) count

/-- Runs a step on a pool. -/
def PoolStep.run : PoolStep → StateM Pool PoolAnswer
  | push entry => return .index (← Pool.push entry)
  | pushMany entry count => return .index (← Pool.pushMany entry none count)
  | utf8 text => return .index (← Pool.utf8 text)
  | classRef name => return .index (← Pool.classRef name)
  | string text => return .index (← Pool.string text)
  | integer value => return .index (← Pool.integer value)
  | nameAndType name descriptor => return .index (← Pool.nameAndType name descriptor)
  | fieldRef member => return .index (← Pool.fieldRef member)
  | methodRef member => return .index (← Pool.methodRef member)
  | interfaceMethodRef member => return .index (← Pool.interfaceMethodRef member)
  | entryAt index => return .entry ((← get).get? index)
  | textAt index => return .text ((← get).utf8? index)
  | classNameAt index => return .text ((← get).className? index)
  | nameAndTypeAt index => return .signature ((← get).nameAndType? index)
  | memberAt index => return .member ((← get).member? index)
  | slotCount => return .index (← get).count
  | encoded => return .bytes (← get).encode
  | listing => return .entries (← get).indexed

/-- A step on the body of a method. -/
inductive MethodStep where
  | emit (op : Opcode)
  | emitMany (op : Opcode) (count : Nat)
  | emitU8 (value : UInt8)
  | emitU16 (value : UInt16)
  | emitI16 (value : Int16)
  | setMaxStack (depth : UInt16)
  | reserveLocals (count : UInt16)
  | lineNumber (line : UInt16)
  | accessLocal (access : LocalAccess) (index : UInt16)
  | iconst (value : Int32)
  | ldcString (text : String)
  | newObject (name : String)
  | checkcast (name : String)
  | accessField (access : FieldAccess) (field : MemberRef)
  | call (call : Call) (method : MemberRef)
  | callInterface (method : MemberRef)
  | branch (op : Opcode)
  | patchJump (offset target : Nat)
  deriving DecidableEq, Repr

/-- What a step on a body answers. -/
inductive MethodAnswer where
  /-- The offset after the step. -/
  | position (offset : Nat)
  /-- The offset of the branch written. -/
  | branch (offset : Nat)
  | done
  | refused (error : BuildError)

/-- Runs a step that always succeeds and answers the offset after it. -/
def Drafting.positionAfter (step : Drafting Unit) : Drafting MethodAnswer := do
  step
  return .position (← position)

/-- Runs a step on a body. -/
def MethodStep.run : MethodStep → Drafting MethodAnswer
  | emit op => (Drafting.emit op).positionAfter
  | emitMany op count => (Drafting.emitMany op count).positionAfter
  | emitU8 value => (Drafting.emitU8 value).positionAfter
  | emitU16 value => (Drafting.emitU16 value).positionAfter
  | emitI16 value => (Drafting.emitI16 value).positionAfter
  | setMaxStack depth => (Drafting.setMaxStack depth).positionAfter
  | reserveLocals count => (Drafting.reserveLocals count).positionAfter
  | lineNumber line => (Drafting.lineNumber line).positionAfter
  | accessLocal access index => (Drafting.accessLocal access index).positionAfter
  | iconst value => (Drafting.iconst value).positionAfter
  | ldcString text => (Drafting.ldcString text).positionAfter
  | newObject name => (Drafting.newObject name).positionAfter
  | checkcast name => (Drafting.checkcast name).positionAfter
  | accessField access field => (Drafting.accessField access field).positionAfter
  | call kind method => (Drafting.call kind method).positionAfter
  | callInterface method => do
    match ← Drafting.callInterface method with
    | .ok () => return .position (← Drafting.position)
    | .error error => return .refused error
  | branch op => return .branch (← Drafting.branch op)
  | patchJump offset target => do
    match ← Drafting.patchJump offset target with
    | .ok () => return .done
    | .error error => return .refused error

/-- A step on a class. -/
inductive ClassStep where
  | setAccess (flags : UInt16)
  | setMajor (version : UInt16)
  | addInterface (name : String)
  | addField (access : UInt16) (name descriptor : String)
  | addAbstractMethod (access : UInt16) (name descriptor : String)
  | addMethod (access : UInt16) (name descriptor : String) (code : Code)
  | hasMethod (name descriptor : String)
  | setSourceFile (file : String)
  | classRef (name : String)
  | currentName
  | pool (step : PoolStep)
  /-- Writes a method step by step, and then adds it unless it is dropped. -/
  | method (access : UInt16) (name descriptor : String) (steps : List MethodStep) (dropped : Bool)
  deriving DecidableEq, Repr

/-- What becomes of a method after its steps. -/
inductive Finish where
  | added
  | dropped
  | refused (error : BuildError)

/-- What a step on a class answers. -/
inductive ClassAnswer where
  | nothing
  | flag (value : Bool)
  | index (index : UInt16)
  | text (text : String)
  | pool (answer : PoolAnswer)
  | refused (error : BuildError)
  | method (body : List MethodAnswer) (finish : Finish)

/-- Writes a method step by step. -/
def Assembly.writeMethod (access : UInt16) (name descriptor : String) (steps : List MethodStep)
    (dropped : Bool) : Assembly ClassAnswer := do
  match MethodDraft.start (← get) access name descriptor with
  | .error error => return .refused error
  | .ok draft =>
    let (body, draft) := steps.mapM MethodStep.run draft
    if dropped then
      set draft.owner
      return .method body .dropped
    else
      let (result, owner) := draft.finish
      set owner
      match result with
      | .ok () => return .method body .added
      | .error error => return .method body (.refused error)

/-- Runs a step that answers nothing. -/
def Assembly.silently (step : Assembly Unit) : Assembly ClassAnswer := do
  step
  return .nothing

/-- Runs a step on a class. -/
def ClassStep.run : ClassStep → Assembly ClassAnswer
  | setAccess flags => (Assembly.setAccess flags).silently
  | setMajor version => (Assembly.setMajor version).silently
  | addInterface name => (Assembly.addInterface name).silently
  | addField access name descriptor => (Assembly.addField access name descriptor).silently
  | addAbstractMethod access name descriptor =>
    (Assembly.addAbstractMethod access name descriptor).silently
  | addMethod access name descriptor code =>
    (Assembly.addMethod access name descriptor code).silently
  | hasMethod name descriptor => return .flag (← Assembly.hasMethod name descriptor)
  | setSourceFile file => (Assembly.setSourceFile file).silently
  | classRef name => return .index (← Assembly.classRef name)
  | currentName => return .text (← Assembly.name)
  | pool step => return .pool (← Assembly.onPool step.run)
  | method access name descriptor steps dropped =>
    Assembly.writeMethod access name descriptor steps dropped

/-- Runs the steps of a script and collects the answers. -/
def Assembly.runSteps (steps : List ClassStep) : Assembly (List ClassAnswer) :=
  steps.mapM ClassStep.run

/-- The class that a script assembles. -/
def ClassFile.assembled (name superName : String) (steps : List ClassStep) : ClassFile :=
  (Assembly.runSteps steps (ClassFile.new name superName)).2

end ClassBench
