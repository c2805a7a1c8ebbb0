import ClassBench.Proofs.Verify.ControlFlow

/-! Which local variables the bodies that the verifier accepts touch.  The first one that an
instruction names is there in every form of the instructions, but a long or a double also takes the
one after it, and that one is not looked at: it may be the first that the body does not have. -/

namespace ClassBench

/-- The number of local variables that a load or a store takes from the one that it names. -/
def Opcode.localWidth : Opcode → Nat
  | lload | lload_0 | lload_1 | lload_2 | lload_3 | dload | dload_0 | dload_1 | dload_2 | dload_3
  | lstore | lstore_0 | lstore_1 | lstore_2 | lstore_3 | dstore | dstore_0 | dstore_1 | dstore_2
  | dstore_3 => 2
  | _ => 1

namespace Instruction

variable {pool : Pool} {maxLocals : UInt16} {is : List Instruction} {i : Instruction} {op : Opcode}
  {index slot : Nat}

/-- The instruction does what the opcode does with the local variable at the index.  The opcode is
its own, or for `wide` the one that is made wider. -/
inductive Accesses (i : Instruction) : Opcode → Nat → Prop
  | short {index : UInt16} (implied : i.opcode.shortLocal? = some index) :
      Accesses i i.opcode index.toNat
  | named {b : UInt8} (layout : i.opcode.layout = .localIndex ∨ i.opcode.layout = .increment)
      (operand : i.operands.head? = some b) : Accesses i i.opcode b.toNat
  | wide {op : Opcode} {high low : UInt8} {rest : Bytes} (opcode : i.opcode = .wide)
      (operands : i.operands = op.byte :: high :: low :: rest) :
      Accesses i op (high.toNat * 256 + low.toNat)

/-- The local variable is one of those that the instruction reads or writes. -/
def Touches (i : Instruction) (slot : Nat) : Prop :=
  ∃ op index, i.Accesses op index ∧ index ≤ slot ∧ slot < index + op.localWidth

theorem localWidth_le (op : Opcode) : op.localWidth ≤ 2 := by
  unfold Opcode.localWidth
  split <;> decide

/-- The local variable that the format gives to an instruction is the one that the verifier sees. -/
theorem Accesses.usesLocal (accesses : i.Accesses op index) :
    ∃ seen : UInt16, i.UsesLocal seen ∧ seen.toNat = index := by
  cases accesses with
  | short implied => exact ⟨_, .implied implied, rfl⟩
  | @named b layout operand =>
    refine ⟨b.toUInt16, .operand ?_, by simp⟩
    have first : i.operands.u8At? 0 = some b := by
      rw [Bytes.u8At?, ← List.head?_eq_getElem?, operand]
    rcases layout with layout | layout <;> simp only [localIndex?, layout, first, Option.map_some]
  | @wide op high low rest opcode operands =>
    refine ⟨Word.u16 high low, .operand ?_, ?_⟩
    · simp only [localIndex?, opcode, Opcode.layout, operands]
      rfl
    · have := high.toNat_lt
      have := low.toNat_lt
      simp only [Word.u16, Nat.toUInt16_eq, UInt16.toNat_ofNat']
      omega

namespace SoundRow

theorem accesses (sound : SoundRow pool maxLocals is) (member : i ∈ is)
    (accesses : i.Accesses op index) : index < maxLocals.toNat := by
  obtain ⟨seen, uses, rfl⟩ := accesses.usesLocal
  exact sound.locals i member seen uses

/-- What lies outside the local variables of a body is touched only as the second half of a long or
a double in the last one. -/
theorem touches (sound : SoundRow pool maxLocals is) (member : i ∈ is) (touched : i.Touches slot) :
    slot < maxLocals.toNat ∨ slot = maxLocals.toNat ∧
      ∃ op index, i.Accesses op index ∧ op.localWidth = 2 ∧ index + 1 = slot := by
  obtain ⟨op, index, accesses, first, last⟩ := touched
  have below := sound.accesses member accesses
  have width := localWidth_le op
  by_cases inside : slot < maxLocals.toNat
  · exact .inl inside
  · exact .inr ⟨by omega, op, index, accesses, by omega, by omega⟩

end SoundRow

end Instruction

namespace ClassFile

/-- In the body of a method of an accepted class every local variable that an instruction names is
there, and so is every one that it touches, unless it is the second one of a long or a double in the
last local variable. -/
theorem verified_locals_stay {c : ClassFile} {m : Member} {code : Code}
    (verified : c.verify = .ok ()) (member : m ∈ c.methods)
    (body : m.code? c.pool = .ok (some code)) :
    ∃ is, Instruction.split code.code = .ok is ∧
      (∀ i ∈ is, ∀ op index, i.Accesses op index → index < code.maxLocals.toNat) ∧
      ∀ i ∈ is, ∀ slot, i.Touches slot →
        slot < code.maxLocals.toNat ∨ slot = code.maxLocals.toNat ∧
          ∃ op index, i.Accesses op index ∧ op.localWidth = 2 ∧ index + 1 = slot := by
  obtain ⟨-, is, tiles, sound⟩ := ((sound_of_verify verified).bodies m member).sound_code body
  exact ⟨is, Instruction.split_eq_ok.mpr tiles, fun i member op index => sound.accesses member,
    fun i member slot => sound.touches member⟩

/-- A long stored in the last of two local variables, by way of `wide`. -/
theorem verified_locals_stay_wide :
    let code : Code := { maxStack := 2, maxLocals := 2, code := [0x09, 0xC4, 0x37, 0, 1, 0xB1] }
    (around code).verify = .ok () ∧ onlyMethod code ∈ (around code).methods ∧
      (onlyMethod code).code? (around code).pool = .ok (some code) ∧
      ∃ is, Instruction.split code.code = .ok is ∧
        (∀ i ∈ is, ∀ op index, i.Accesses op index → index < code.maxLocals.toNat) ∧
        ∀ i ∈ is, ∀ slot, i.Touches slot →
          slot < code.maxLocals.toNat ∨ slot = code.maxLocals.toNat ∧
            ∃ op index, i.Accesses op index ∧ op.localWidth = 2 ∧ index + 1 = slot := by
  intro code
  have verified : (around code).verify = .ok () := by decide +kernel
  have member : onlyMethod code ∈ (around code).methods := List.mem_singleton_self _
  have body : (onlyMethod code).code? (around code).pool = .ok (some code) := by decide +kernel
  exact ⟨verified, member, body, verified_locals_stay verified member body⟩

/-- A body with one local variable that stores a long in it. -/
theorem long_leaves_locals :
    let code : Code := { maxStack := 2, maxLocals := 1, code := [0x09, 0x3F, 0xB1] }
    (around code).verify = .ok () ∧ onlyMethod code ∈ (around code).methods ∧
      (onlyMethod code).code? (around code).pool = .ok (some code) ∧
      ∃ is, Instruction.split code.code = .ok is ∧
        ∃ i ∈ is, i.Touches 1 ∧ ¬1 < code.maxLocals.toNat := by
  intro code
  have verified : (around code).verify = .ok () := by decide +kernel
  have body : (onlyMethod code).code? (around code).pool = .ok (some code) := by decide +kernel
  let store : Instruction := ⟨1, .lstore_0, []⟩
  have split : Instruction.split code.code =
      .ok [⟨0, .lconst_0, []⟩, store, ⟨2, .return_, []⟩] := by
    decide +kernel
  have short : store.opcode.shortLocal? = some 0 := rfl
  have accesses : store.Accesses .lstore_0 0 := .short short
  have touched : store.Touches 1 := ⟨.lstore_0, 0, accesses, by decide, by decide⟩
  exact ⟨verified, List.mem_singleton_self _, body, _, split, store, by simp, touched, by decide⟩

end ClassFile

end ClassBench
