import ClassBench.Proofs.Assembly.Drafts
import ClassBench.Proofs.Descriptor.Slots

/-! The slots of parameters where the assembler writes them down: the local variables that a method
starts with are a 16-bit word, and the arguments of a call through an interface a byte.  No method
descriptor is refused for having too many.  The remainder is written, so the number is exact as long
as it fits. -/

namespace ClassBench

/-- The slot of the instance that a method is called on, if it has one. -/
def receiverSlots (access : UInt16) : Nat := if Access.has access Access.isStatic then 0 else 1

section

open Descriptor (Signature slotCount)

variable {parameters : List (List Char)} {result : List Char}

theorem MethodDraft.start_of_signature {text : String}
    (signature : Signature text.toList parameters result) (owner : ClassFile) (access : UInt16)
    (name : String) : start owner access name text = .ok
      { owner, access, name, descriptor := text,
        maxLocals := (slotCount parameters + receiverSlots access).toUInt16 } := by
  -- The slots are cut to a word before the receiver is added, which makes no difference.
  have sum : (slotCount parameters).toUInt16 + (if Access.has access Access.isStatic then 0 else 1)
      = (slotCount parameters + receiverSlots access).toUInt16 := by
    show UInt16.ofNat _ + _ = UInt16.ofNat _
    rw [UInt16.ofNat_add, receiverSlots]
    split <;> rfl
  rw [start, signature.argumentSlots?_eq]
  simp only [sum]

theorem Drafting.callInterface_of_signature (method : MemberRef)
    (signature : Signature method.descriptor.toList parameters result) (d : MethodDraft) :
    (callInterface method d).1 = .ok () ∧ (callInterface method d).2.code.toList =
      d.code.toList ++ Opcode.invokeinterface.byte ::
        (Bytes.ofUInt16 (Pool.interfaceMethodRef method d.owner.pool).1 ++
          [(slotCount parameters + 1).toUInt8, 0]) := by
  have counted := signature.argumentSlots?_eq
  have count : ((slotCount parameters).toUInt16 + 1).toUInt8 =
      (slotCount parameters + 1).toUInt8 := by
    apply UInt8.toNat_inj.mp
    simp
  obtain ⟨code, draft, written⟩ := MethodStep.callInterface_eq counted d
  rw [draft, ← count]
  refine ⟨?_, written⟩
  unfold callInterface
  rw [counted]
  rfl

/-- With every method descriptor a method starts and a call through an interface is written.  The
method has the slots of the parameters and of its instance as local variables, modulo 65536, and the
call has one more than the slots of the parameters as its count, modulo 256. -/
theorem slots_written_modulo (text : String) (parameters : List (List Char)) (result : List Char)
    (signature : Signature text.toList parameters result) :
    (∀ owner access name, ∃ d, MethodDraft.start owner access name text = .ok d ∧
      d.code = #[] ∧
      d.maxLocals.toNat = (slotCount parameters + receiverSlots access) % 65536) ∧
    ∀ owner name d, ∃ (index : UInt16) (count : UInt8),
      (Drafting.callInterface ⟨owner, name, text⟩ d).1 = .ok () ∧
      (Drafting.callInterface ⟨owner, name, text⟩ d).2.code.toList =
        d.code.toList ++ Opcode.invokeinterface.byte :: (Bytes.ofUInt16 index ++ [count, 0]) ∧
      count.toNat = (slotCount parameters + 1) % 256 := by
  constructor
  · intro owner access name
    exact ⟨_, MethodDraft.start_of_signature signature owner access name, rfl, UInt16.toNat_ofNat'⟩
  · intro owner name d
    obtain ⟨answer, written⟩ :=
      Drafting.callInterface_of_signature ⟨owner, name, text⟩ signature d
    exact ⟨_, _, answer, written, UInt8.toNat_ofNat'⟩

/-- Wide parameters take two slots each, and the instance one more. -/
theorem slots_written_modulo_wide :
    let owner : ClassFile := { pool := Pool.empty, thisClass := 0, superClass := 0 }
    Signature "(JD)V".toList [['J'], ['D']] ['V'] ∧
    ∃ d, MethodDraft.start owner Access.isPublic "put" "(JD)V" = .ok d ∧ d.maxLocals = 5 ∧
      ∃ index : UInt16, (Drafting.callInterface ⟨"app/Sink", "put", "(JD)V"⟩ d).1 = .ok () ∧
        (Drafting.callInterface ⟨"app/Sink", "put", "(JD)V"⟩ d).2.code.toList =
          Opcode.invokeinterface.byte :: (Bytes.ofUInt16 index ++ [5, 0]) := by
  intro owner
  have signature : Signature "(JD)V".toList [['J'], ['D']] ['V'] := by
    refine ⟨by decide, ?_, .inl rfl⟩
    simp only [List.forall_mem_cons, List.not_mem_nil, false_implies, implies_true, and_true]
    exact ⟨.primitive (by decide), .primitive (by decide)⟩
  obtain ⟨starts, calls⟩ := slots_written_modulo "(JD)V" _ _ signature
  obtain ⟨d, started, empty, slots⟩ := starts owner Access.isPublic "put"
  obtain ⟨index, count, answer, written, told⟩ := calls "app/Sink" "put" d
  have locals : d.maxLocals = 5 := UInt16.toNat_inj.mp slots
  obtain rfl : count = 5 := UInt8.toNat_inj.mp told
  refine ⟨signature, d, started, locals, index, answer, ?_⟩
  rw [written, empty]
  rfl

/-- The descriptor of a method with this many integers as its parameters. -/
def intDescriptor (n : Nat) : String := String.ofList ('(' :: (List.replicate n 'I' ++ [')', 'V']))

theorem signature_intDescriptor (n : Nat) :
    Signature (intDescriptor n).toList (List.replicate n ['I']) ['V'] := by
  refine ⟨?_, fun p member => ?_, .inl rfl⟩
  · rw [intDescriptor, String.toList_ofList, List.flatten_replicate_singleton]
  · rw [(List.mem_replicate.mp member).2]
    exact .primitive (by decide)

theorem slotCount_ints (n : Nat) : slotCount (List.replicate n ['I']) = n := by
  simp [slotCount, List.countP_replicate, Descriptor.isWide]

theorem MethodDraft.start_intDescriptor {n : Nat} (lost : n % 65536 = 0) (owner : ClassFile)
    (name : String) : ∃ d, start owner Access.isStatic name (intDescriptor n) = .ok d ∧
      d.maxLocals = 0 := by
  refine ⟨_, start_of_signature (signature_intDescriptor n) owner Access.isStatic name, ?_⟩
  rw [slotCount_ints]
  apply UInt16.toNat_inj.mp
  exact UInt16.toNat_ofNat'.trans lost

theorem Drafting.callInterface_intDescriptor {n : Nat} (lost : (n + 1) % 256 = 0)
    (owner name : String) (d : MethodDraft) : ∃ index : UInt16,
      (callInterface ⟨owner, name, intDescriptor n⟩ d).1 = .ok () ∧
      (callInterface ⟨owner, name, intDescriptor n⟩ d).2.code.toList =
        d.code.toList ++ Opcode.invokeinterface.byte :: (Bytes.ofUInt16 index ++ [0, 0]) := by
  obtain ⟨answer, written⟩ :=
    callInterface_of_signature ⟨owner, name, intDescriptor n⟩ (signature_intDescriptor n) d
  have count : (n + 1).toUInt8 = 0 := by
    apply UInt8.toNat_inj.mp
    exact UInt8.toNat_ofNat'.trans lost
  rw [slotCount_ints, count] at written
  exact ⟨_, answer, written⟩

/-- A static method of 65536 integers starts without local variables, and a call with 255 integers
is written with the count zero. -/
theorem slots_lost :
    let owner : ClassFile := { pool := Pool.empty, thisClass := 0, superClass := 0 }
    let word := List.replicate 65536 ['I']
    let byte := List.replicate 255 ['I']
    (Signature (intDescriptor 65536).toList word ['V'] ∧ slotCount word = 65536 ∧
      ∃ d, MethodDraft.start owner Access.isStatic "many" (intDescriptor 65536) = .ok d ∧
        d.maxLocals = 0) ∧
    (Signature (intDescriptor 255).toList byte ['V'] ∧ slotCount byte = 255 ∧
      ∀ d, ∃ index : UInt16, (Drafting.callInterface ⟨"I", "m", intDescriptor 255⟩ d).1 = .ok () ∧
        (Drafting.callInterface ⟨"I", "m", intDescriptor 255⟩ d).2.code.toList =
          d.code.toList ++ Opcode.invokeinterface.byte :: (Bytes.ofUInt16 index ++ [0, 0])) := by
  intro owner word byte
  refine ⟨⟨signature_intDescriptor _, slotCount_ints _, ?_⟩, signature_intDescriptor _,
    slotCount_ints _, ?_⟩
  · exact MethodDraft.start_intDescriptor rfl owner "many"
  · exact Drafting.callInterface_intDescriptor rfl "I" "m"

end

end ClassBench
