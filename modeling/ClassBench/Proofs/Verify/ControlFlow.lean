import ClassBench.Proofs.Verify.Sound

/-! Where control goes in the bodies that the verifier accepts.  It stays on their instructions but
for one way out: the distances of a switch that lead before the start of the code have no offset and
are not checked, while a branch with such a distance is refused. -/

namespace ClassBench

namespace Instruction

variable {is : List Instruction} {code : Bytes} {i : Instruction} {z : Int}

/-- The places that control comes to in a row of instructions, from the start of the code on and
as long as no exception is thrown. -/
inductive Reaches (is : List Instruction) : Int → Prop
  | start : Reaches is 0
  | step {i : Instruction} {z : Int} (here : Reaches is i.offset) (member : i ∈ is)
      (next : i.Successor z) : Reaches is z

namespace SoundRow

variable {pool : Pool} {maxLocals : UInt16}

/-- After an instruction of a sound row control goes on at an instruction, unless a switch leads it
before the start of the code. -/
theorem successor (sound : SoundRow pool maxLocals is) (tiles : Tiles 0 code is) (member : i ∈ is)
    (next : i.Successor z) :
    (∃ j ∈ is, (j.offset : Int) = z) ∨ i.opcode.isSwitch = true ∧ z < 0 := by
  cases next with
  | @jump d leads =>
    by_cases checked : i.opcode.isBranch = true ∨ 0 ≤ i.offset + d
    · exact .inl (sound.jumps i member d leads checked)
    · -- What is left unchecked leads before the start, and only branches and switches lead anywhere.
      rw [not_or, Bool.not_eq_true, Int.not_le] at checked
      obtain ⟨noBranch, before⟩ := checked
      refine .inr ⟨?_, before⟩
      by_contra noSwitch
      exact leads_of_other noBranch (Bool.eq_false_iff.mpr noSwitch) leads
  | next goesOn =>
    rcases tiles.next_mem member with inside | last
    · obtain ⟨j, memberJ, follows⟩ := List.mem_map.mp inside
      exact .inl ⟨j, memberJ, congrArg Nat.cast follows⟩
    · -- Nothing follows the last instruction, but it does not go on.
      rw [sound.ending i last] at goesOn
      cases goesOn

/-- A run of a sound row stands on an instruction, or has left it by a switch that leads before the
start of the code. -/
theorem reaches (sound : SoundRow pool maxLocals is) (tiles : Tiles 0 code is) (some : code ≠ [])
    (reached : Reaches is z) :
    (∃ j ∈ is, (j.offset : Int) = z) ∨
      ∃ i ∈ is, i.opcode.isSwitch = true ∧ i.Successor z ∧ z < 0 := by
  cases reached with
  | start =>
    obtain ⟨i, member, first⟩ := tiles.starts some
    exact .inl ⟨i, member, congrArg Nat.cast first⟩
  | step here member next =>
    rcases sound.successor tiles member next with inside | ⟨switch, before⟩
    · exact .inl inside
    · exact .inr ⟨_, member, switch, next, before⟩

end SoundRow

end Instruction

namespace ClassFile

/-- In the body of a method of an accepted class control goes on at instructions only, after each
of them and in every run from the start, unless a switch leads it before the start of the code. -/
theorem verified_control_stays {c : ClassFile} {m : Member} {code : Code}
    (verified : c.verify = .ok ()) (member : m ∈ c.methods)
    (body : m.code? c.pool = .ok (some code)) :
    ∃ is, Instruction.split code.code = .ok is ∧
      (∀ i ∈ is, ∀ z, i.Successor z →
        (∃ j ∈ is, (j.offset : Int) = z) ∨ i.opcode.isSwitch = true ∧ z < 0) ∧
      ∀ z, Instruction.Reaches is z → (∃ j ∈ is, (j.offset : Int) = z) ∨
        ∃ i ∈ is, i.opcode.isSwitch = true ∧ i.Successor z ∧ z < 0 := by
  have methods := (sound_of_verify verified).bodies
  obtain ⟨⟨some, -⟩, is, tiles, sound⟩ := (methods m member).sound_code body
  have nonempty : code.code ≠ [] := List.ne_nil_of_length_pos some
  exact ⟨is, Instruction.split_eq_ok.mpr tiles, fun i member z => sound.successor tiles member,
    fun z => sound.reaches tiles nonempty⟩

/-- A static method `m()V` with this body. -/
def onlyMethod (code : Code) : Member :=
  { access := Access.isPublic ||| Access.isStatic, name := 5, descriptor := 6
    attributes := [{ name := 7, info := code.encode }] }

/-- A class with this method and no other member. -/
def around (code : Code) : ClassFile :=
  let pool := ((do
    let _ ← Pool.classRef "A"
    let _ ← Pool.classRef objectName
    let _ ← Pool.utf8 "m"
    let _ ← Pool.utf8 plainDescriptor
    Pool.utf8 codeName : StateM Pool UInt16) Pool.empty).2
  { pool, thisClass := 2, superClass := 4, methods := [onlyMethod code] }

/-- A switch on the constant 0 with a case that returns and a default that leads 8 bytes before the
start of the code. -/
theorem verified_control_stays_switch :
    let code : Code := {
      maxStack := 1, maxLocals := 0
      code := [
        0x03, 0xAB, 0, 0, 0xFF, 0xFF, 0xFF, 0xF7, 0, 0, 0, 1, 0, 0, 0, 0, 0, 0, 0, 19, 0xB1] }
    (around code).verify = .ok () ∧ onlyMethod code ∈ (around code).methods ∧
      (onlyMethod code).code? (around code).pool = .ok (some code) ∧
      ∃ is, Instruction.split code.code = .ok is ∧
        (∀ i ∈ is, ∀ z, i.Successor z →
          (∃ j ∈ is, (j.offset : Int) = z) ∨ i.opcode.isSwitch = true ∧ z < 0) ∧
        ∀ z, Instruction.Reaches is z → (∃ j ∈ is, (j.offset : Int) = z) ∨
          ∃ i ∈ is, i.opcode.isSwitch = true ∧ i.Successor z ∧ z < 0 := by
  intro code
  have verified : (around code).verify = .ok () := by decide +kernel
  have member : onlyMethod code ∈ (around code).methods := List.mem_singleton_self _
  have body : (onlyMethod code).code? (around code).pool = .ok (some code) := by decide +kernel
  exact ⟨verified, member, body, verified_control_stays verified member body⟩

/-- A body that is one switch without cases, whose default leads one byte before the start of the
code. -/
theorem switch_leads_before_start :
    let code : Code := {
      maxStack := 1, maxLocals := 0, code := [0xAB, 0, 0, 0, 0xFF, 0xFF, 0xFF, 0xFF, 0, 0, 0, 0] }
    (around code).verify = .ok () ∧ onlyMethod code ∈ (around code).methods ∧
      (onlyMethod code).code? (around code).pool = .ok (some code) ∧
      ∃ is, Instruction.split code.code = .ok is ∧
        ∃ i ∈ is, i.Successor (-1) ∧ ¬∃ j ∈ is, (j.offset : Int) = -1 := by
  intro code
  have verified : (around code).verify = .ok () := by decide +kernel
  have body : (onlyMethod code).code? (around code).pool = .ok (some code) := by decide +kernel
  let i : Instruction := ⟨0, .lookupswitch, code.code.tail⟩
  have split : Instruction.split code.code = .ok [i] := by decide +kernel
  have leads : i.Leads (-1) := .fallback (d := -1) rfl (by decide)
  refine ⟨verified, List.mem_singleton_self _, body, [i], split, i, List.mem_singleton_self i,
    .jump leads, ?_⟩
  rintro ⟨j, -, before⟩
  omega

end ClassFile

end ClassBench
