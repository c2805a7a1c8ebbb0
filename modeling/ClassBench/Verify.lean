import ClassBench.ClassFile.Codec
import ClassBench.Descriptor
import ClassBench.Verify.Error

/-! The verifier.  It checks that the references of the pool and of the class lead to entries in
their roles, that descriptors are well formed and members distinct, and that the body of a method
is whole instructions whose jumps, local variables and pool entries exist and whose last one does
not pass control on.  The first fault in the order of the file is the one reported, and a body is
checked for each kind of fault in turn.  The types on the operand stack are not followed. -/

namespace ClassBench

/-- A check that either passes with a value or refuses the class. -/
abbrev Check := Except VerifyError

namespace Pool

/-- The entry at `index` is of a kind that plays the role. -/
def expect (pool : Pool) (role : Role) (index : UInt16) : Check Unit :=
  match pool.get? index with
  | some c => if role.accepts c.kind then .ok () else .error (.invalidConstantRef index role)
  | none => .error (.invalidConstantRef index role)

/-- The text at `index`. -/
def expectUtf8 (pool : Pool) (index : UInt16) : Check String :=
  match pool.utf8? index with
  | some text => .ok text
  | none => .error (.invalidConstantRef index .utf8)

/-- The name of the class at `index`. -/
def expectClass (pool : Pool) (index : UInt16) : Check String :=
  match pool.className? index with
  | some name => .ok name
  | none => .error (.invalidConstantRef index .classRef)

/-- Every entry refers to entries in their roles. -/
def verify (pool : Pool) : Check Unit :=
  pool.entries.forM fun c => c.references.forM fun (role, index) => pool.expect role index

end Pool

namespace Verify

/-- The targets of one instruction are among the offsets of instructions, and a branch has one. -/
def jumps (method : String) (offsets : List Nat) (i : Instruction) : Check Unit := do
  let targets := if i.opcode.isBranch then i.branchTarget?.toList else i.switchTargets
  targets.forM fun target =>
    if offsets.contains target then .ok ()
    else .error (.invalidJumpTarget method target i.offset)
  if i.opcode.isBranch && i.branchTarget?.isNone then
    throw (.invalidJumpTarget method 0 i.offset)

/-- The local variable of one instruction, if it has one, is below `max`. -/
def locals (method : String) (max : UInt16) (i : Instruction) : Check Unit :=
  match i.localIndex?.or (Instruction.impliedLocal? i.opcode) with
  | some index =>
    if index < max then .ok () else .error (.invalidLocalRef method index max i.offset)
  | none => .ok ()

/-- The pool entry of one instruction, if it uses one, plays its role. -/
def operand (method : String) (pool : Pool) (i : Instruction) : Check Unit :=
  match i.poolIndex? with
  | some index =>
    if (pool.get? index).any fun c => (Role.ofOpcode i.opcode).accepts c.kind then .ok ()
    else .error (.invalidOperandRef method i.opcode index i.offset)
  | none => .ok ()

/-- The last instruction does not pass control on. -/
def ending (method : String) (instructions : List Instruction) : Check Unit :=
  match instructions.getLast? with
  | some last =>
    if last.opcode.isTerminator then .ok () else .error (.fallOffEnd method last.offset)
  | none => .ok ()

/-- The instructions of a body hold no fault. -/
def instructions (method : String) (pool : Pool) (maxLocals : UInt16)
    (is : List Instruction) : Check Unit := do
  let offsets := is.map Instruction.offset
  is.forM (jumps method offsets)
  is.forM (locals method maxLocals)
  is.forM (operand method pool)
  ending method is

/-- A body holds no fault. -/
def body (method : String) (pool : Pool) (code : Code) : Check Unit := do
  if code.code.isEmpty || 65535 < code.code.length then
    throw (.invalidCodeLength method code.code.length)
  match Instruction.split code.code with
  | .ok is => instructions method pool code.maxLocals is
  | .error error => throw (.invalidInstruction method error)

/-- A method has a sound body, or is abstract or native and has none. -/
def method (label : String) (pool : Pool) (m : Member) : Check Unit :=
  let hasBody := !Access.has m.access (Access.isAbstract ||| Access.isNative)
  match m.code? pool with
  | .error error => .error (.malformedCode label error)
  | .ok (some code) => if hasBody then body label pool code else .error (.unexpectedCode label)
  | .ok none => if hasBody then .error (.missingCode label) else .ok ()

/-- The name and descriptor of a member, which are new among `seen`. -/
def signature (pool : Pool) (valid : String → Bool) (seen : List (String × String)) (m : Member) :
    Check (String × String) := do
  let name ← pool.expectUtf8 m.name
  let descriptor ← pool.expectUtf8 m.descriptor
  if !valid descriptor then throw (.invalidDescriptor descriptor)
  if seen.contains (name, descriptor) then throw (.duplicateMember name descriptor)
  return (name, descriptor)

/-- Fields have distinct names and field types, after the fields `seen`. -/
def fields (pool : Pool) (seen : List (String × String)) : List Member → Check Unit
  | [] => .ok ()
  | m :: rest => do
    let found ← signature pool Descriptor.isField seen m
    fields pool (found :: seen) rest

/-- Methods have distinct names and method descriptors and are sound, after the methods `seen`. -/
def methods (pool : Pool) (seen : List (String × String)) : List Member → Check Unit
  | [] => .ok ()
  | m :: rest => do
    let found ← signature pool Descriptor.isMethod seen m
    method (found.1 ++ found.2) pool m
    methods pool (found :: seen) rest

end Verify

namespace ClassFile

/-- The class has a super class, or is the one above all others and has none. -/
def verifySuper (c : ClassFile) (name : String) : Check Unit := do
  if c.superClass = 0 then
    if name ≠ objectName then throw (.missingSuperType name)
  else
    let _ ← c.pool.expectClass c.superClass

/-- The class is sound. -/
def verify (c : ClassFile) : Check Unit := do
  c.pool.verify
  let name ← c.pool.expectClass c.thisClass
  c.verifySuper name
  c.interfaces.forM fun index => do
    let _ ← c.pool.expectClass index
  Verify.fields c.pool [] c.fields
  Verify.methods c.pool [] c.methods

end ClassFile

end ClassBench
