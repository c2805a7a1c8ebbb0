import ClassBench.Proofs.Assembly.Drafting
import ClassBench.Proofs.Instruction.Accessors

/-! Setting the target of a branch in code that is written.  The two bytes of the distance are all
that changes, and if the branch is one of the instructions that the code splits into, the code
splits afterwards into the same instructions around the branch with its new target. -/

namespace ClassBench

open Instruction (Tiles)

namespace Drafting

variable {code : Array UInt8} {offset target : Nat}

/-- A branch with a 16-bit distance stands at an offset. -/
def BranchAt (code : Array UInt8) (offset : Nat) : Prop :=
  (∃ op : Opcode, code[offset]? = some op.byte ∧ op.layout = .branch) ∧ offset + 3 ≤ code.size

theorem isBranchAt_iff : isBranchAt code offset = true ↔ BranchAt code offset := by
  unfold isBranchAt BranchAt
  split
  · next op found =>
    obtain ⟨b, here, known⟩ := Option.bind_eq_some_iff.mp found
    obtain rfl := Opcode.byte_ofByte? known
    rw [Bool.and_eq_true, decide_eq_true_eq, decide_eq_true_eq]
    refine and_congr_left fun _ => ⟨fun layout => ⟨op, here, layout⟩, ?_⟩
    rintro ⟨op', here', layout⟩
    rw [here', Option.bind_some, Opcode.ofByte?_byte] at found
    exact Option.some.inj found ▸ layout
  · next nowhere =>
    refine iff_of_false (by decide) ?_
    rintro ⟨⟨op, here, -⟩, -⟩
    rw [here, Option.bind_some, Opcode.ofByte?_byte] at nowhere
    contradiction

/-! ### The bytes of the distance -/

theorem size_overwrite (w : UInt16) : (overwrite code offset w).size = code.size := by
  simp [overwrite]

theorem getElem?_overwrite (w : UInt16) {k : Nat} (first : k ≠ offset) (second : k ≠ offset + 1) :
    (overwrite code offset w)[k]? = code[k]? := by
  rw [overwrite, Array.getElem?_setIfInBounds_ne second.symm,
    Array.getElem?_setIfInBounds_ne first.symm]

/-- The code with a word in the place of the operands of an instruction. -/
theorem toList_overwrite {front back : Bytes} {byte x y : UInt8}
    (parts : code.toList = front ++ byte :: x :: y :: back) (w : UInt16) :
    (overwrite code (front.length + 1) w).toList =
      front ++ byte :: (Bytes.ofUInt16 w ++ back) := by
  simp [overwrite, parts, Bytes.ofUInt16, Nat.add_assoc]

/-- The operands that lead from an offset to a target. -/
def towards (offset target : Nat) : Bytes :=
  Bytes.ofUInt16 ((target : Int) - offset).toInt16.toUInt16

theorem Near.branches {i : Instruction} (near : Near i.offset target)
    (layout : i.opcode.layout = .branch) :
    Instruction.Branches { i with operands := towards i.offset target }
      (target - i.offset) := by
  have distance : ((target : Int) - i.offset).toInt16.toUInt16.toInt16.toInt =
      target - i.offset := by
    rw [Int16.toInt16_toUInt16]
    exact Int16.toInt_ofInt_of_le near.1 (by have := near.2; omega)
  have set : Instruction.Branches { i with operands := towards i.offset target } _ :=
    .short layout rfl
  rwa [distance] at set

theorem Near.branchTarget? {i : Instruction} (near : Near i.offset target)
    (layout : i.opcode.layout = .branch) :
    Instruction.branchTarget? { i with operands := towards i.offset target } = some target := by
  rw [(near.branches layout).branchTarget?, Instruction.at?_eq_some]
  show (i.offset : Int) + (target - i.offset) = target
  omega

end Drafting

/-! ### The instructions around a branch -/

namespace Instruction

variable {code : Array UInt8} {before after : List Instruction} {i : Instruction}

/-- The distance is all the operands of a branch, so a row of instructions stays one. -/
theorem Tiles.overwrite (tiles : Tiles 0 code.toList (before ++ i :: after))
    (layout : i.opcode.layout = .branch) (w : UInt16) :
    Tiles 0 (Drafting.overwrite code (i.offset + 1) w).toList
      (before ++ { i with operands := Bytes.ofUInt16 w } :: after) := by
  obtain ⟨front, back, parts, earlier, here, whole, later⟩ := tiles.around
  rw [Nat.zero_add] at here
  have size : i.operands.length = 2 := whole.length_eq (by rw [layout]; rfl)
  obtain ⟨x, y, operands⟩ := List.length_eq_two.mp size
  let set : Instruction := { i with operands := Bytes.ofUInt16 w }
  have written : (Drafting.overwrite code (i.offset + 1) w).toList =
      front ++ (set.bytes ++ back) := by
    rw [bytes, operands] at parts
    rw [here]
    exact Drafting.toList_overwrite parts w
  have whole' : set.Whole := .fixed (by rw [layout]; rfl)
  have next : set.next = i.next := by simp only [Instruction.next, set, size, Bytes.length_ofUInt16]
  rw [written]
  exact earlier.append (.cons ((Nat.zero_add _).symm ▸ here) whole' (next ▸ later))

theorem Tiles.getElem?_offset (tiles : Tiles 0 code.toList (before ++ i :: after)) :
    code[i.offset]? = some i.opcode.byte := by
  obtain ⟨front, back, parts, -, here, -, -⟩ := tiles.around
  rw [Nat.zero_add] at here
  rw [← Array.getElem?_toList, parts, here, List.getElem?_append_right (Nat.le_refl _),
    Nat.sub_self]
  rfl

/-- A branch that stands at the offset of an instruction of the row is that instruction. -/
theorem Tiles.layout_eq_branch (tiles : Tiles 0 code.toList (before ++ i :: after))
    (isBranch : Drafting.BranchAt code i.offset) : i.opcode.layout = .branch := by
  obtain ⟨⟨op, here, layout⟩, -⟩ := isBranch
  have same : op.byte = i.opcode.byte := Option.some.inj (here.symm.trans tiles.getElem?_offset)
  have known := Opcode.ofByte?_byte op
  rw [same, Opcode.ofByte?_byte] at known
  rwa [Option.some.inj known]

end Instruction

namespace Drafting

open Instruction (split)

/-- A branch is set exactly if one stands at the offset and the target is near enough; otherwise
the error says which of the two fails and the draft is as it was.  What is set are the two bytes
behind the opcode, and code that splits into instructions, one of them at the offset, then splits
into the same ones but for the target of that one. -/
theorem patching_is_exact_and_atomic (offset target : Nat) (d : MethodDraft) :
    ((patchJump offset target d).1 = .ok () ↔ BranchAt d.code offset ∧ Near offset target) ∧
    (¬BranchAt d.code offset →
      patchJump offset target d = (.error (.notABranch offset), d)) ∧
    (BranchAt d.code offset → ¬Near offset target →
      patchJump offset target d = (.error (.jumpOutOfRange offset target), d)) ∧
    (BranchAt d.code offset → Near offset target → ∃ code,
      patchJump offset target d = (.ok (), { d with code }) ∧ code.size = d.code.size ∧
      (∀ k, k ≠ offset + 1 → k ≠ offset + 2 → code[k]? = d.code[k]?) ∧
      ∀ before i after, split d.code.toList = .ok (before ++ i :: after) → i.offset = offset →
        ∃ operands, split code.toList = .ok (before ++ { i with operands } :: after) ∧
          Instruction.branchTarget? { i with operands } = some target) := by
  have other (none : ¬BranchAt d.code offset) :
      patchJump offset target d = (.error (.notABranch offset), d) :=
    patchJump_other (Bool.eq_false_iff.mpr (mt isBranchAt_iff.mp none))
  have far (isBranch : BranchAt d.code offset) (far : ¬Near offset target) :
      patchJump offset target d = (.error (.jumpOutOfRange offset target), d) :=
    patchJump_far (isBranchAt_iff.mpr isBranch) far
  refine ⟨⟨fun set => ?_, ?_⟩, other, far, ?_⟩
  · by_cases isBranch : BranchAt d.code offset
    · by_cases near : Near offset target
      · exact ⟨isBranch, near⟩
      · rw [far isBranch near] at set
        contradiction
    · rw [other isBranch] at set
      contradiction
  · rintro ⟨isBranch, near⟩
    rw [patchJump_near (isBranchAt_iff.mpr isBranch) near]
  · intro isBranch near
    refine ⟨_, patchJump_near (isBranchAt_iff.mpr isBranch) near, size_overwrite _,
      fun k => getElem?_overwrite _, ?_⟩
    rintro before i after found rfl
    have tiles := Instruction.split_eq_ok.mp found
    have layout := tiles.layout_eq_branch isBranch
    exact ⟨_, Instruction.split_eq_ok.mpr (tiles.overwrite layout _), near.branchTarget? layout⟩

/-- A branch between two other instructions is led back to the first of them. -/
theorem patching_is_exact_and_atomic_back :
    let d : MethodDraft :=
      { owner := .new "A" "java/lang/Object", access := 9, name := "m", descriptor := "()V",
        maxLocals := 0, code := #[0x00, 0xA7, 0, 0, 0xB1] }
    let first : Instruction := ⟨0, .nop, []⟩
    let branch : Instruction := ⟨1, .goto, [0, 0]⟩
    let last : Instruction := ⟨4, .return_, []⟩
    split d.code.toList = .ok ([first] ++ branch :: [last]) ∧ BranchAt d.code branch.offset ∧
      Near branch.offset 0 ∧ ∃ code operands,
        patchJump branch.offset 0 d = (.ok (), { d with code }) ∧
        split code.toList = .ok ([first] ++ { branch with operands } :: [last]) ∧
        Instruction.branchTarget? { branch with operands } = some 0 := by
  intro d first branch last
  have tiles : Tiles 0 (first.bytes ++ (branch.bytes ++ last.bytes)) [first, branch, last] :=
    .cons rfl (.fixed rfl) (.cons rfl (.fixed rfl) (.single rfl (.fixed rfl)))
  have found : split d.code.toList = .ok ([first] ++ branch :: [last]) :=
    Instruction.split_eq_ok.mpr tiles
  have isBranch : BranchAt d.code branch.offset := ⟨⟨.goto, rfl, rfl⟩, by decide⟩
  have near : Near branch.offset 0 := ⟨by decide, by decide⟩
  obtain ⟨-, -, -, set⟩ := patching_is_exact_and_atomic branch.offset 0 d
  obtain ⟨code, patched, -, -, around⟩ := set isBranch near
  obtain ⟨operands, splits, leads⟩ := around [first] branch [last] found rfl
  exact ⟨found, isBranch, near, code, operands, patched, splits, leads⟩

end Drafting

end ClassBench
