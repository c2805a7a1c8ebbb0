import ClassBench.Proofs.Instruction.Told
import ClassBench.Proofs.Text.Words
import ClassBench.Proofs.Verify.ControlFlow
import ClassBench.Trace

/-! Which changes of a body a listing shows.  A line begins with the offset and the mnemonic of an
instruction, and its operands follow in a fixed order, each behind a blank.  So a line can be read
back to what the accessors tell, whatever follows it, and two listings of one class with different
code agree exactly if the accessors tell the same of both. -/

namespace ClassBench

/-! ### Words of a listing -/

namespace Opcode

theorem exists_ofNat (op : Opcode) : ∃ n < total, ofNat n = op := by
  have found := ofByte?_byte op
  unfold ofByte? at found
  split at found
  · next defined => exact ⟨_, defined, Option.some.inj found⟩
  · cases found

/-- The letters of a mnemonic as the digits of a number. -/
def letters (op : Opcode) : Nat := op.mnemonic.toList.foldl (fun n c => 128 * n + c.toNat) 0

/-- The last of the first `n` opcodes with some letters. -/
def spelled? (word : Nat) : Nat → Option Nat
  | 0 => none
  | n + 1 => bif Nat.beq (ofNat n).letters word then some n else spelled? word n

/-- No two opcodes have the same mnemonic, and none has a blank in it. -/
theorem words_mnemonic : Text.Words mnemonic := by
  have table : ∀ n < total, spelled? (ofNat n).letters total = some n ∧
      (ofNat n).mnemonic.toList.all (!Text.isBlank ·) = true := by decide +kernel
  constructor
  · intro op
    obtain ⟨n, defined, rfl⟩ := exists_ofNat op
    simpa using (table n defined).2
  · intro a b same
    obtain ⟨m, defined, rfl⟩ := exists_ofNat a
    obtain ⟨n, defined', rfl⟩ := exists_ofNat b
    have letters : (ofNat m).letters = (ofNat n).letters := by rw [Opcode.letters, same]; rfl
    have here := (table m defined).1
    rw [letters, (table n defined').1] at here
    rw [Option.some.inj here]

end Opcode

namespace Trace

open Text (isBlank Words)

variable {α : Type} {f : α → String} {rest rest' : List Char}

/-- A blank and a word, if there is one. -/
def optional (f : α → String) (value : Option α) : List Char :=
  value.elim [] fun a => ' ' :: (f a).toList

theorem toList_spaced [ToString α] (value : Option α) :
    (spaced value).toList = optional toString value := by
  cases value with
  | none => rfl
  | some a =>
    show (" " ++ toString a).toList = _
    rw [String.toList_append]
    rfl

theorem head_optional {value : Option α} (stops : ∀ c ∈ rest.head?, isBlank c = true) :
    ∀ c ∈ (optional f value ++ rest).head?, isBlank c = true := by
  cases value with
  | none => exact stops
  | some a => simp [optional, isBlank]

/-- Words that are both there or both missing are told by the text. -/
theorem optional_append_inj (words : Words f) {value value' : Option α}
    (alike : value.isSome = value'.isSome) (stops : ∀ c ∈ rest.head?, isBlank c = true)
    (stops' : ∀ c ∈ rest'.head?, isBlank c = true)
    (same : optional f value ++ rest = optional f value' ++ rest') :
    value = value' ∧ rest = rest' := by
  cases value with
  | none =>
    cases value' with
    | none => exact ⟨rfl, same⟩
    | some b => cases alike
  | some a =>
    cases value' with
    | none => cases alike
    | some b =>
      obtain ⟨rfl, behind⟩ := words.append_inj stops stops' (List.cons.inj same).2
      exact ⟨rfl, behind⟩

/-! ### Targets -/

/-- Offsets, each behind a comma. -/
def further (ns : List Nat) : List Char := ns.flatMap fun n => ',' :: ' ' :: (toString n).toList

theorem head_further (ns : List Nat) :
    ∀ c ∈ (further ns ++ ']' :: rest).head?, c.isDigit = false := by
  cases ns <;> simp [further]

theorem further_append_inj {ns ns' : List Nat}
    (same : further ns ++ ']' :: rest = further ns' ++ ']' :: rest') : ns = ns' ∧ rest = rest' := by
  induction ns generalizing ns' with
  | nil =>
    cases ns' with
    | nil => exact ⟨rfl, (List.cons.inj same).2⟩
    | cons n' ns' => simp [further] at same
  | cons n ns ih =>
    cases ns' with
    | nil => simp [further] at same
    | cons n' ns' =>
      simp only [further, List.flatMap_cons, List.cons_append, List.append_assoc,
        List.cons.injEq, true_and] at same
      obtain ⟨rfl, behind⟩ := Text.digits_append_inj (head_further ns) (head_further ns') same
      obtain ⟨rfl, last⟩ := ih behind
      exact ⟨rfl, last⟩

/-- Offsets with commas between them. -/
def row : List Nat → List Char
  | [] => []
  | n :: ns => (toString n).toList ++ further ns

theorem toList_intercalate (ns : List Nat) :
    (", ".intercalate (ns.map toString)).toList = row ns := by
  induction ns with
  | nil => rfl
  | cons n ns ih =>
    cases ns with
    | nil => simp [row, further]
    | cons m ns =>
      rw [List.map_cons, List.map_cons, String.intercalate_cons_cons, ← List.map_cons,
        String.toList_append, String.toList_append, ih]
      simp [row, further]

/-- Offsets are told by the text before the bracket that closes it. -/
theorem row_append_inj {ns ns' : List Nat}
    (same : row ns ++ ']' :: rest = row ns' ++ ']' :: rest') : ns = ns' ∧ rest = rest' := by
  have opens (n : Nat) (ns : List Nat) (rest rest' : List Char) :
      row (n :: ns) ++ ']' :: rest ≠ ']' :: rest' := by
    obtain ⟨c, more, spelled, digit⟩ := Text.exists_digits n
    rw [row, spelled, List.cons_append, List.cons_append]
    intro same
    rw [(List.cons.inj same).1] at digit
    cases digit
  cases ns with
  | nil =>
    cases ns' with
    | nil => exact ⟨rfl, (List.cons.inj same).2⟩
    | cons n' ns' => exact absurd same.symm (opens n' ns' _ _)
  | cons n ns =>
    cases ns' with
    | nil => exact absurd same (opens n ns _ _)
    | cons n' ns' =>
      simp only [row, List.append_assoc] at same
      obtain ⟨rfl, behind⟩ := Text.digits_append_inj (head_further ns) (head_further ns') same
      obtain ⟨rfl, last⟩ := further_append_inj behind
      exact ⟨rfl, last⟩

/-! ### Lines -/

variable {marks : Placeholders} {pool : Pool} {i i' : Instruction}

/-- The targets of a switch. -/
def targets (i : Instruction) : List Char :=
  if i.opcode.isSwitch then ' ' :: '[' :: (row i.switchTargets ++ [']']) else []

/-- The operands of an instruction without a pool index. -/
def loose (i : Instruction) : List Char :=
  optional toString i.localIndex? ++ (optional toString i.immediate? ++
    (optional toString i.branchTarget? ++ (targets i ++ optional Opcode.mnemonic i.widened?)))

theorem toList_operands (i : Instruction) : (operands i).toList = loose i := by
  have listed : (if i.opcode.isSwitch then
      " [" ++ ", ".intercalate (i.switchTargets.map toString) ++ "]" else "").toList =
      targets i := by
    unfold targets
    split
    · rw [String.toList_append, String.toList_append, toList_intercalate]
      rfl
    · rfl
  have wider : (if i.opcode.layout = .wide then
      spaced (((i.operands.u8At? 0).bind Opcode.ofByte?).map Opcode.mnemonic) else "").toList =
      optional Opcode.mnemonic i.widened? := by
    unfold Instruction.widened?
    split
    · rw [toList_spaced]
      cases (i.operands.u8At? 0).bind Opcode.ofByte? <;> rfl
    · rfl
  unfold operands loose
  simp only [String.toList_append, toList_spaced, List.append_assoc]
  rw [listed, wider]

/-- What stands behind the mnemonic. -/
def behind (marks : Placeholders) (pool : Pool) (i : Instruction) : List Char :=
  match i.poolIndex? with
  | some index => ' ' :: '#' :: ((toString index).toList ++ (comment marks pool index).toList)
  | none => loose i

theorem toList_instruction (i : Instruction) : (instruction marks pool i).toList =
    (toString i.offset).toList ++
      ':' :: ' ' :: (i.opcode.mnemonic.toList ++ behind marks pool i) := by
  have front : s!"{i.offset}: {i.opcode.mnemonic}".toList =
      (toString i.offset).toList ++ ':' :: ' ' :: i.opcode.mnemonic.toList := by
    show (toString i.offset ++ ": " ++ i.opcode.mnemonic).toList = _
    simp
  unfold instruction behind
  rw [String.toList_append, front]
  cases i.poolIndex? with
  | none => simp [toList_operands]
  | some index =>
    have marked : s!" #{index}".toList = ' ' :: '#' :: (toString index).toList := by
      show (" #" ++ toString index).toList = _
      simp
    simp [marked]

theorem head_comment (index : UInt16) (rest : List Char) :
    ∀ c ∈ ((comment marks pool index).toList ++ '\n' :: rest).head?, isBlank c = true := by
  have opens (text : String) :
      ∀ c ∈ ((" // " ++ text).toList ++ '\n' :: rest).head?, isBlank c = true := by simp [isBlank]
  have ends : ∀ c ∈ ("".toList ++ '\n' :: rest).head?, isBlank c = true := by simp [isBlank]
  unfold comment
  split
  · exact opens _
  · exact opens _
  · exact opens _
  · split
    · next name descriptor _ =>
      have text : s!" // {name}{descriptor}" = " // " ++ (name ++ descriptor) :=
        String.append_assoc ..
      rw [text]
      exact opens _
    · exact ends
  · split
    · exact opens _
    · exact ends
  · exact opens _

/-- A word before the end of a line is told also where there need not be one. -/
theorem optional_end_inj (words : Words f) {value value' : Option α}
    (same : optional f value ++ '\n' :: rest = optional f value' ++ '\n' :: rest') :
    value = value' ∧ rest = rest' := by
  have ends (rest : List Char) : ∀ c ∈ ('\n' :: rest).head?, isBlank c = true := by simp [isBlank]
  have alike : value.isSome = value'.isSome := by
    cases value <;> cases value' <;> simp_all [optional]
  obtain ⟨told, line⟩ := optional_append_inj words alike (ends rest) (ends rest') same
  exact ⟨told, (List.cons.inj line).2⟩

/-- What stands behind the number, for one opcode. -/
def following (i : Instruction) (rest : List Char) : List Char :=
  optional toString i.branchTarget? ++
    (targets i ++ (optional Opcode.mnemonic i.widened? ++ '\n' :: rest))

theorem head_following (i : Instruction) (rest : List Char) :
    ∀ c ∈ (following i rest).head?, isBlank c = true := by
  refine head_optional ?_
  unfold targets
  split
  · simp [isBlank]
  · exact head_optional (by simp [isBlank])

/-- A branch has its target only. -/
theorem following_of_branch (branch : i.opcode.isBranch = true) (rest : List Char) :
    following i rest = optional toString i.branchTarget? ++ '\n' :: rest ∧ i.switchTargets = [] ∧
      i.widened? = none := by
  have other := Instruction.isSwitch_of_isBranch branch
  have widened : i.widened? = none := by
    refine if_neg fun layout => ?_
    rw [Opcode.eq_wide layout] at branch
    cases branch
  refine ⟨?_, by rw [Instruction.switchTargets, Instruction.switchDistances_other other]; rfl,
    widened⟩
  rw [following, targets, other, widened]
  rfl

theorem following_of_other (other : i.opcode.isBranch = false) (rest : List Char) :
    following i rest = targets i ++ (optional Opcode.mnemonic i.widened? ++ '\n' :: rest) ∧
      i.branchTarget? = none := by
  have nowhere : i.branchTarget? = none := by
    rw [Instruction.branchTarget?, Instruction.distance?_eq_none other, Option.bind_none]
  refine ⟨?_, nowhere⟩
  rw [following, nowhere]
  rfl

theorem targets_append_inj (opcode : i.opcode = i'.opcode)
    (same : targets i ++ rest = targets i' ++ rest') :
    i.switchTargets = i'.switchTargets ∧ rest = rest' := by
  unfold targets at same
  cases switch : i.opcode.isSwitch with
  | true =>
    rw [← opcode, switch] at same
    simp only [if_true, List.cons_append, List.append_assoc, List.nil_append, List.cons.injEq,
      true_and] at same
    exact row_append_inj same
  | false =>
    have none {i : Instruction} (other : i.opcode.isSwitch = false) : i.switchTargets = [] := by
      rw [Instruction.switchTargets, Instruction.switchDistances_other other]
      rfl
    rw [← opcode, switch] at same
    exact ⟨(none switch).trans (none (opcode ▸ switch)).symm, same⟩

theorem following_inj (opcode : i.opcode = i'.opcode)
    (same : following i rest = following i' rest') :
    i.branchTarget? = i'.branchTarget? ∧ i.switchTargets = i'.switchTargets ∧
      i.widened? = i'.widened? ∧ rest = rest' := by
  cases branch : i.opcode.isBranch with
  | true =>
    obtain ⟨text, noTargets, noOpcode⟩ := following_of_branch branch rest
    obtain ⟨text', noTargets', noOpcode'⟩ := following_of_branch (opcode ▸ branch) rest'
    rw [text, text'] at same
    obtain ⟨target, line⟩ := optional_end_inj Text.words_nat same
    exact ⟨target, noTargets.trans noTargets'.symm, noOpcode.trans noOpcode'.symm, line⟩
  | false =>
    obtain ⟨text, nowhere⟩ := following_of_other branch rest
    obtain ⟨text', nowhere'⟩ := following_of_other (opcode ▸ branch) rest'
    rw [text, text'] at same
    obtain ⟨listed, same⟩ := targets_append_inj opcode same
    obtain ⟨widened, line⟩ := optional_end_inj Opcode.words_mnemonic same
    exact ⟨nowhere.trans nowhere'.symm, listed, widened, line⟩

theorem loose_append (i : Instruction) (rest : List Char) : loose i ++ '\n' :: rest =
    optional toString i.localIndex? ++ (optional toString i.immediate? ++ following i rest) := by
  simp only [loose, following, List.append_assoc]

/-- The operands of one opcode are told by the text before the end of the line. -/
theorem loose_append_inj (whole : i.Whole) (whole' : i'.Whole) (opcode : i.opcode = i'.opcode)
    (same : loose i ++ '\n' :: rest = loose i' ++ '\n' :: rest') :
    i.localIndex? = i'.localIndex? ∧ i.immediate? = i'.immediate? ∧
      i.branchTarget? = i'.branchTarget? ∧ i.switchTargets = i'.switchTargets ∧
      i.widened? = i'.widened? ∧ rest = rest' := by
  rw [loose_append, loose_append] at same
  obtain ⟨index, same⟩ := optional_append_inj Text.words_index
    (Bool.eq_iff_iff.mpr (whole.isSome_localIndex?.trans (opcode ▸ whole'.isSome_localIndex?.symm)))
    (head_optional (head_following i rest)) (head_optional (head_following i' rest')) same
  obtain ⟨number, same⟩ := optional_append_inj Text.words_int
    (Bool.eq_iff_iff.mpr (whole.isSome_immediate?.trans (opcode ▸ whole'.isSome_immediate?.symm)))
    (head_following i rest) (head_following i' rest') same
  exact ⟨index, number, following_inj opcode same⟩

/-- What an instruction with a pool index tells beside it is in its opcode. -/
theorem told_of_poolIndex? {index : UInt16} (used : i.poolIndex? = some index) :
    i.told = { offset := i.offset, opcode := i.opcode, poolIndex := some index, localIndex := none
               immediate := none, branchTarget := none, switchTargets := [], widened := none } := by
  have noSwitch : i.opcode.isSwitch = false := by
    cases switch : i.opcode.isSwitch with
    | false => rfl
    | true => rcases Instruction.isSwitch_iff.mp switch with opcode | opcode <;>
        simp [Instruction.poolIndex?, opcode, Opcode.layout] at used
  have noTargets : i.switchTargets = [] := by
    rw [Instruction.switchTargets, Instruction.switchDistances_other noSwitch]
    rfl
  have found := used
  unfold Instruction.poolIndex? at used
  split at used
  all_goals first
    | cases used
    | next layout =>
      simp [Instruction.told, found, noTargets, Instruction.localIndex?, Instruction.immediate?,
        Instruction.branchTarget?, Instruction.distance?, Instruction.widened?, layout]

theorem head_behind (i : Instruction) (rest : List Char) :
    ∀ c ∈ (behind marks pool i ++ '\n' :: rest).head?, isBlank c = true := by
  unfold behind
  split
  · simp [isBlank]
  · rw [loose_append]
    exact head_optional (head_optional (head_following i rest))

/-- A line is told, whatever follows it. -/
theorem line_append_inj (whole : i.Whole) (whole' : i'.Whole)
    (same : (instruction marks pool i).toList ++ '\n' :: rest =
      (instruction marks pool i').toList ++ '\n' :: rest') : i.told = i'.told ∧ rest = rest' := by
  simp only [toList_instruction, List.append_assoc, List.cons_append] at same
  obtain ⟨offset, same⟩ := Text.digits_append_inj (by simp) (by simp) same
  simp only [List.cons.injEq, true_and] at same
  obtain ⟨opcode, same⟩ := Opcode.words_mnemonic.append_inj (head_behind i rest)
    (head_behind i' rest') same
  have alike : i.poolIndex?.isSome = i'.poolIndex?.isSome := Bool.eq_iff_iff.mpr
    (whole.isSome_poolIndex?.trans (opcode ▸ whole'.isSome_poolIndex?.symm))
  unfold behind at same
  cases used : i.poolIndex? with
  | none =>
    cases used' : i'.poolIndex? with
    | some => simp [used, used'] at alike
    | none =>
      rw [used, used'] at same
      obtain ⟨index, number, target, listed, widened, line⟩ :=
        loose_append_inj whole whole' opcode same
      refine ⟨?_, line⟩
      simp only [Instruction.told, offset, opcode, used, used', index, number, target, listed,
        widened]
  | some index =>
    cases used' : i'.poolIndex? with
    | none => simp [used, used'] at alike
    | some index' =>
      rw [used, used'] at same
      simp only [List.cons_append, List.append_assoc, List.cons.injEq, true_and] at same
      obtain ⟨rfl, same⟩ := Text.words_index.append_inj (head_comment index rest)
        (head_comment index' rest') same
      rw [told_of_poolIndex? used, told_of_poolIndex? used', offset, opcode]
      exact ⟨rfl, (List.cons.inj (List.append_cancel_left same)).2⟩

/-- A line says nothing that is not told. -/
theorem instruction_congr (same : i.told = i'.told) :
    instruction marks pool i = instruction marks pool i' := by
  obtain ⟨offset, opcode, poolIndex, localIndex, immediate, target, listed, widened⟩ :=
    Instruction.Told.mk.inj same
  refine String.toList_injective ?_
  rw [toList_instruction, toList_instruction, offset, opcode, behind, behind, poolIndex, loose,
    loose, targets, targets, localIndex, immediate, target, listed, widened, opcode]

/-- The line of an instruction in the text of a listing. -/
def line (marks : Placeholders) (pool : Pool) (i : Instruction) : List Char :=
  (("    " ++ instruction marks pool i) ++ "\n").toList

/-- The lines of two bodies are the same exactly if the accessors tell the same of both. -/
theorem flatMap_line_eq_iff (marks : Placeholders) (pool : Pool) {is is' : List Instruction}
    (whole : ∀ i ∈ is, i.Whole) (whole' : ∀ i ∈ is', i.Whole) :
    is.flatMap (line marks pool) = is'.flatMap (line marks pool) ↔
      is.map Instruction.told = is'.map Instruction.told := by
  constructor
  · refine List.map_eq_of_flatMap_eq (fun i => by simp [line]) ?_
    intro i member i' member' rest rest' same
    have behind : (instruction marks pool i).toList ++ '\n' :: rest =
        (instruction marks pool i').toList ++ '\n' :: rest' := by
      simpa [line] using same
    exact line_append_inj (whole i member) (whole' i' member') behind
  · intro same
    have rows : List.Forall₂ (fun i i' => i.told = i'.told) is is' := by
      rwa [← List.forall₂_eq_eq_eq, List.forall₂_map_left_iff, List.forall₂_map_right_iff] at same
    clear same whole whole'
    induction rows with
    | nil => rfl
    | cons here _ ih =>
      rw [List.flatMap_cons, List.flatMap_cons, line, line, instruction_congr here, ih]

end Trace

/-! ### Bodies with other instructions -/

/-- The methods are the same but for the bytes of the instructions, which are these. -/
structure Member.Recoded (pool : Pool) (m m' : Member) (code code' : Bytes) : Prop where
  access : m.access = m'.access
  name : m.name = m'.name
  descriptor : m.descriptor = m'.descriptor
  body : ∃ body : Code, m.code? pool = .ok (some { body with code }) ∧
    m'.code? pool = .ok (some { body with code := code' })

/-- The classes are the same but for the bytes of the instructions of one method. -/
def ClassFile.Recoded (c c' : ClassFile) (code code' : Bytes) : Prop :=
  ∃ front m m' back, c.methods = front ++ m :: back ∧
    c' = { c with methods := front ++ m' :: back } ∧ m.Recoded c.pool m' code code'

namespace Trace

/-- The methods of a class stand in its listing behind what does not depend on them. -/
theorem exists_opening (marks : Placeholders) (c : ClassFile) : ∃ opening, ∀ methods,
    lines marks { c with methods } = opening ++
      (methods.flatMap fun m => member marks c.pool "" m ++ Trace.body marks c.pool m) ++
        ["\x7d"] :=
  ⟨[s!"// class version {c.major}.{c.minor}", "// access flags " ++ Hex.marked c.access.toNat,
      declaration marks c, "", s!"  // constant pool ({c.pool.count} slots)"] ++
    (c.pool.indexed.map fun row => entryLine marks c.pool row.1 row.2) ++
    c.fields.flatMap (member marks c.pool " "), fun _ => rfl⟩

theorem body_recoded {pool : Pool} {m : Member} {body : Code} {code : Bytes}
    {is : List Instruction} (read : m.code? pool = .ok (some { body with code }))
    (found : Instruction.split code = .ok is) : Trace.body {} pool m =
      is.map (fun i => "    " ++ instruction {} pool i) ++
        (body.handlers.map (handlerLine {} pool) ++
          [s!"    MAXSTACK = {body.maxStack}", s!"    MAXLOCALS = {body.maxLocals}"]) := by
  simp only [Trace.body, read, Trace.code, found, List.append_assoc]

/-- The listings have the lines of the instructions between the same texts. -/
theorem exists_around {c c' : ClassFile} {code code' : Bytes} {is is' : List Instruction}
    (recoded : c.Recoded c' code code') (found : Instruction.split code = .ok is)
    (found' : Instruction.split code' = .ok is') : ∃ above below : List Char,
      c.trace.toList = above ++ (is.flatMap (line {} c.pool) ++ below) ∧
      c'.trace.toList = above ++ (is'.flatMap (line {} c.pool) ++ below) := by
  obtain ⟨front, m, m', back, methods, rfl, same⟩ := recoded
  obtain ⟨body, read, read'⟩ := same.body
  obtain ⟨opening, listing⟩ := exists_opening {} c
  have declared : member {} c.pool "" m' = member {} c.pool "" m := by
    simp only [member, Member.name?, Member.descriptor?, same.access, same.name, same.descriptor]
  have whole : lines {} c = _ := listing c.methods
  rw [methods, List.flatMap_append, List.flatMap_cons, body_recoded read found] at whole
  have whole' := listing (front ++ m' :: back)
  rw [List.flatMap_append, List.flatMap_cons, declared, body_recoded read' found'] at whole'
  have written (c : ClassFile) : c.trace.toList =
      (lines {} c).flatMap fun l => (l ++ "\n").toList := by
    rw [ClassFile.trace, ClassFile.traceWith, String.toList_join, List.flatMap_map]
  rw [written, written, whole, whole']
  let text (ls : List String) : List Char := ls.flatMap fun l => (l ++ "\n").toList
  let lists (m : Member) : List String := member {} c.pool "" m ++ Trace.body {} c.pool m
  refine ⟨text (opening ++ (front.flatMap lists ++ member {} c.pool "" m)),
    text (body.handlers.map (handlerLine {} c.pool) ++
      ([s!"    MAXSTACK = {body.maxStack}", s!"    MAXLOCALS = {body.maxLocals}"] ++
        (back.flatMap lists ++ ["\x7d"]))), ?_, ?_⟩
  all_goals
    simp only [text, lists, List.flatMap_append, List.flatMap_map, List.append_assoc]
    rfl

/-- The traces of classes that differ in the instructions of one method agree exactly if the
accessors tell the same of these. -/
theorem traces_agree_iff {c c' : ClassFile} {code code' : Bytes} {is is' : List Instruction}
    (recoded : c.Recoded c' code code') (found : Instruction.split code = .ok is)
    (found' : Instruction.split code' = .ok is') :
    c.trace = c'.trace ↔ is.map Instruction.told = is'.map Instruction.told := by
  obtain ⟨above, below, text, text'⟩ := exists_around recoded found found'
  rw [← flatMap_line_eq_iff {} c.pool (Instruction.split_eq_ok.mp found).whole
    (Instruction.split_eq_ok.mp found').whole, ← String.toList_inj, text, text',
    List.append_cancel_left_eq, List.append_cancel_right_eq]

end Trace

namespace ClassFile

/-- The traces of two classes that are the same but for the instructions of one method, where these
can be split, agree exactly if the accessors tell the same of the one row of instructions and the
other.  So every change of the code is seen as long as nothing in it is without an accessor. -/
theorem trace_shows_what_is_told (c c' : ClassFile) (code code' : Bytes) (is is' : List Instruction)
    (recoded : c.Recoded c' code code') (found : Instruction.split code = .ok is)
    (found' : Instruction.split code' = .ok is') :
    (c.trace = c'.trace ↔ is.map Instruction.told = is'.map Instruction.told) ∧
    ((∀ i ∈ is, i.isToldInFull = true) → code ≠ code' → c.trace ≠ c'.trace) := by
  have agree := Trace.traces_agree_iff recoded found found'
  refine ⟨agree, fun full differ same => differ ?_⟩
  have tiles := Instruction.split_eq_ok.mp found
  have tiles' := Instruction.split_eq_ok.mp found'
  rw [← tiles.flatMap_bytes, ← tiles'.flatMap_bytes,
    Instruction.eq_of_map_told tiles.whole tiles'.whole full (agree.mp same)]

theorem recoded_around {body : Code} {code' : Bytes}
    (read : (onlyMethod body).code? (around body).pool = .ok (some body))
    (read' : (onlyMethod { body with code := code' }).code? (around body).pool =
      .ok (some { body with code := code' })) :
    (around body).Recoded (around { body with code := code' }) body.code code' :=
  ⟨[], _, _, [], rfl, rfl, ⟨rfl, rfl, rfl, body, read, read'⟩⟩

/-- Two numbers to push, before a wide access to a local variable. -/
theorem trace_shows_what_is_told_number :
    let code : Bytes := [0x10, 5, 0xC4, 0x36, 1, 0, 0xB1]
    let code' : Bytes := [0x10, 6, 0xC4, 0x36, 1, 0, 0xB1]
    let body : Code := { maxStack := 1, maxLocals := 257, code }
    let c := around body
    let c' := around { body with code := code' }
    c.Recoded c' code code' ∧ code ≠ code' ∧ c.trace ≠ c'.trace := by
  intro code code' body c c'
  have recoded : c.Recoded c' code code' :=
    recoded_around (by decide +kernel) (by decide +kernel)
  let is : List Instruction := [⟨0, .bipush, [5]⟩, ⟨2, .wide, [0x36, 1, 0]⟩, ⟨6, .return_, []⟩]
  let is' : List Instruction := [⟨0, .bipush, [6]⟩, ⟨2, .wide, [0x36, 1, 0]⟩, ⟨6, .return_, []⟩]
  have found : Instruction.split code = .ok is := by decide +kernel
  have found' : Instruction.split code' = .ok is' := by decide +kernel
  have differ : code ≠ code' := by decide
  exact ⟨recoded, differ, (trace_shows_what_is_told c c' code code' is is' recoded found found').2
    (by decide) differ⟩

/-- Arrays of booleans and arrays of integers are made by instructions that are listed alike. -/
theorem trace_hides_element_type :
    let code : Bytes := [0x03, 0xBC, 4, 0x57, 0xB1]
    let code' : Bytes := [0x03, 0xBC, 10, 0x57, 0xB1]
    let body : Code := { maxStack := 1, maxLocals := 0, code }
    let c := around body
    let c' := around { body with code := code' }
    c.Recoded c' code code' ∧ code ≠ code' ∧
      (∃ is, Instruction.split code = .ok is) ∧ (∃ is', Instruction.split code' = .ok is') ∧
      c.trace = c'.trace := by
  intro code code' body c c'
  have recoded : c.Recoded c' code code' :=
    recoded_around (by decide +kernel) (by decide +kernel)
  let is (type : UInt8) : List Instruction :=
    [⟨0, .iconst_0, []⟩, ⟨1, .newarray, [type]⟩, ⟨3, .pop, []⟩, ⟨4, .return_, []⟩]
  have found : Instruction.split code = .ok (is 4) := by decide +kernel
  have found' : Instruction.split code' = .ok (is 10) := by decide +kernel
  exact ⟨recoded, by decide, ⟨_, found⟩, ⟨_, found'⟩,
    (Trace.traces_agree_iff recoded found found').mpr (by decide)⟩

end ClassFile

end ClassBench
