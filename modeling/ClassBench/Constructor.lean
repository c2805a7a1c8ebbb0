import ClassBench.ClassFile.Codec
import ClassBench.Constructor.Error
import ClassBench.Constructor.Value
import ClassBench.World

/-! Running constructors.  The constructors of fixtures push constants, store them in fields of
the instance and call the constructor of the super type; any other instruction stops them.  A
super type that was loaded in the same scope has its own constructor run, on the same fields; of
any other super type it is only asked whether it has a constructor without parameters. -/

namespace ClassBench

/-- What a body has done so far: the operand stack, whether the super constructor was called, and
the fields of the instance. -/
structure Frame where
  stack : List Value := []
  superCalled : Bool := false
  fields : Fields

/-- A step of a body. -/
abbrev Execution := StateT Frame (Except ConstructError)

namespace Execution

/-- Puts a value on the stack. -/
def push (value : Value) : Execution Unit :=
  modify fun frame => { frame with stack := value :: frame.stack }

/-- Takes the topmost value from the stack. -/
def pop (offset : Nat) : Execution Value := do
  let frame ← get
  match frame.stack with
  | [] => throw (.stackUnderflow offset)
  | value :: rest =>
    set { frame with stack := rest }
    return value

/-- Takes the instance under construction from the stack. -/
def popThis (offset : Nat) : Execution Unit := do
  if (← pop offset) ≠ .this then throw (.notThis offset)

/-- What a lookup by the pool index of an instruction finds. -/
def constant (i : Instruction) (find : UInt16 → Option α) : Execution α :=
  match i.poolIndex?.bind find with
  | some found => return found
  | none => throw (.badConstant (i.poolIndex?.getD 0) i.offset)

end Execution

namespace LoadedType

/-- Whether the type declares a field. -/
def declares (t : LoadedType) (field : MemberRef) : Bool :=
  field.owner == t.name &&
    t.classFile.fields.any (·.isNamed t.classFile.pool field.name field.descriptor)

/-- Whether a method is the constructor of the super type. -/
def isSuperConstructor (t : LoadedType) (method : MemberRef) : Bool :=
  method.name == constructorName && method.descriptor == plainDescriptor &&
    t.classFile.superName? == some method.owner

/-- The instructions of the constructor without parameters. -/
def constructorBody (t : LoadedType) : Except ConstructError (List Instruction) :=
  match t.classFile.constructor? with
  | none => .error (.missingBody t.name)
  | some method =>
    match method.code? t.classFile.pool with
    | .error e => .error (.malformed e.message)
    | .ok none => .error (.missingBody t.name)
    | .ok (some code) => (Instruction.split code.code).mapError (.malformed ·.message)

/-- Executes an instruction of the constructor; the answer is whether it returns.  `callSuper`
runs the constructor of the super type on the fields of the instance. -/
def execute (t : LoadedType) (callSuper : String → Fields → Except ConstructError Fields)
    (i : Instruction) : Execution Bool := do
  match i.opcode with
  | .aload_0 => Execution.push .this
  | .aconst_null => Execution.push .null
  | .iconst_m1 => Execution.push (.int (-1))
  | .iconst_0 => Execution.push (.int 0)
  | .iconst_1 => Execution.push (.int 1)
  | .iconst_2 => Execution.push (.int 2)
  | .iconst_3 => Execution.push (.int 3)
  | .iconst_4 => Execution.push (.int 4)
  | .iconst_5 => Execution.push (.int 5)
  | .bipush | .sipush =>
    match i.immediate? with
    | some value => Execution.push (.int (Int32.ofInt value))
    | none => throw (.malformed s!"missing immediate at offset {i.offset}")
  | .ldc | .ldc_w | .ldc2_w =>
    Execution.push (← Execution.constant i (Value.ofConstant? t.classFile.pool))
  | .dup =>
    let top ← Execution.pop i.offset
    Execution.push top
    Execution.push top
  | .pop => discard (Execution.pop i.offset)
  | .putfield =>
    let value ← Execution.pop i.offset
    Execution.popThis i.offset
    let field ← Execution.constant i t.classFile.pool.member?
    if !t.declares field then throw (.unknownField field.owner field.name)
    modify fun frame => { frame with fields := frame.fields.store field.name value }
  | .invokespecial =>
    Execution.popThis i.offset
    if (← get).superCalled then throw (.duplicateSuperCall t.name)
    let method ← Execution.constant i t.classFile.pool.member?
    if !t.isSuperConstructor method then
      throw (.invalidSuperCall method.owner method.name method.descriptor)
    let fields ← callSuper method.owner (← get).fields
    modify fun frame => { frame with superCalled := true, fields }
  | .return_ =>
    if !(← get).superCalled then throw (.missingSuperCall t.name)
    return true
  | op => throw (.unsupported op i.offset)
  return false

/-- Executes instructions up to the return. -/
def executeAll (t : LoadedType) (callSuper : String → Fields → Except ConstructError Fields) :
    List Instruction → Execution Unit
  | [] => throw (.noReturn t.name)
  | i :: rest => do
    if !(← t.execute callSuper i) then t.executeAll callSuper rest

end LoadedType

namespace World

/-- Runs the constructor of a type loaded in a scope on the fields of an instance, along a chain of
fewer than `fuel` loaded types. -/
def runChain (w : World) (id : ScopeId) :
    (fuel : Nat) → LoadedType → Fields → Except ConstructError Fields
  | 0, t, _ => .error (.endlessChain t.name)
  | fuel + 1, t, fields => do
    let body ← t.constructorBody
    let callSuper (owner : String) (fields : Fields) : Except ConstructError Fields :=
      match w.loaded? id owner with
      | some parent => w.runChain id fuel parent fields
      | none =>
        match w.resolve? id owner with
        | some host =>
          if host.type.hasDefaultConstructor then .ok fields
          else .error (.noDefaultConstructor owner)
        | none => .error (.noDefaultConstructor owner)
    let ((), frame) ← t.executeAll callSuper body |>.run { fields }
    return frame.fields

/-- The fields of a new instance of a type loaded in a scope.  A chain of distinct loaded types is
no longer than there are any. -/
def construct (w : World) (id : ScopeId) (t : LoadedType) : Except ConstructError Fields :=
  let loaded := ((w.scope? id).map (·.loaded.length)).getD 0
  w.runChain id (loaded + 1) t []

end World

end ClassBench
