import ClassBench.Proofs.Instruction.Accessors

/-! What the accessors tell of an instruction, taken together, and where that is all of it.  Some
operands have no accessor: the type of the elements and the dimensions of an array, the counts and
zeros behind the index of a call, the keys of a switch, and what a wide increment adds.  All others
are told back to their bytes. -/

namespace ClassBench

namespace Instruction

/-- All that the accessors tell of an instruction. -/
structure Told where
  offset : Nat
  opcode : Opcode
  poolIndex : Option UInt16
  localIndex : Option UInt16
  immediate : Option Int
  branchTarget : Option Nat
  switchTargets : List Nat
  /-- The opcode that is made wider. -/
  widened : Option Opcode
  deriving DecidableEq

/-- The opcode that the instruction makes wider, if it does. -/
def widened? (i : Instruction) : Option Opcode :=
  if i.opcode.layout = .wide then (i.operands.u8At? 0).bind Opcode.ofByte? else none

/-- What the accessors tell of the instruction. -/
def told (i : Instruction) : Told :=
  { offset := i.offset
    opcode := i.opcode
    poolIndex := i.poolIndex?
    localIndex := i.localIndex?
    immediate := i.immediate?
    branchTarget := i.branchTarget?
    switchTargets := i.switchTargets
    widened := i.widened? }

/-- No operand of the instruction is without an accessor, and a branch leads somewhere. -/
def isToldInFull (i : Instruction) : Bool :=
  match i.opcode.layout with
  | .plain | .localIndex | .signedByte | .signedShort | .shortIndex | .poolIndex | .increment =>
    true
  | .branch | .longBranch => i.branchTarget?.isSome
  | .wide => i.operands.head? != some Opcode.iinc.byte
  | .interfaceCall | .dynamicCall | .arrayDimensions | .elementType | .tableSwitch
  | .lookupSwitch => false

/-! ### Operands back from what is told -/

section Bytes

variable {a b : Bytes}

theorem byte_inj (length : a.length = 1) (length' : b.length = 1)
    (same : a.u8At? 0 = b.u8At? 0) : a = b := by
  obtain ⟨x, rfl⟩ := List.length_eq_one_iff.mp length
  obtain ⟨y, rfl⟩ := List.length_eq_one_iff.mp length'
  exact congrArg (fun z => [z]) (Option.some.inj same)

theorem word_inj (length : a.length = 2) (length' : b.length = 2)
    (same : a.u16At? 0 = b.u16At? 0) : a = b := by
  obtain ⟨v, rfl⟩ := Bytes.exists_ofUInt16 length
  obtain ⟨w, rfl⟩ := Bytes.exists_ofUInt16 length'
  have word (w : UInt16) : (Bytes.ofUInt16 w).u16At? 0 = some w := Bytes.u16At?_length [] [] w
  rw [word, word] at same
  exact congrArg Bytes.ofUInt16 (Option.some.inj same)

theorem signedByte_injective : Function.Injective fun b : UInt8 => b.toInt8.toInt :=
  fun _ _ same => by simpa using congrArg Int8.toUInt8 (Int8.toInt_inj.mp same)

theorem signedWord_injective : Function.Injective fun w : UInt16 => w.toInt16.toInt :=
  fun _ _ same => by simpa using congrArg Int16.toUInt16 (Int16.toInt_inj.mp same)

theorem index_injective : Function.Injective UInt8.toUInt16 :=
  fun _ _ same => UInt8.toNat_inj.mp (by simpa using congrArg UInt16.toNat same)

end Bytes

variable {i i' : Instruction}

/-- Branches at one place that lead to one place have the same distance. -/
theorem Branches.eq_of_target {d d' : Int} (branches : i.Branches d) (branches' : i'.Branches d')
    (offset : i.offset = i'.offset) (leads : i.branchTarget?.isSome = true)
    (same : i.branchTarget? = i'.branchTarget?) : d = d' := by
  obtain ⟨target, here⟩ := Option.isSome_iff_exists.mp leads
  have there := same.symm.trans here
  rw [branches.branchTarget?, at?_eq_some] at here
  rw [branches'.branchTarget?, at?_eq_some] at there
  omega

theorem Branches.operands_eq {d d' : Int} (branches : i.Branches d) (branches' : i'.Branches d')
    (opcode : i.opcode = i'.opcode) (same : d = d') : i.operands = i'.operands := by
  cases branches with
  | short layout spelled =>
    cases branches' with
    | short layout' spelled' => rw [spelled, spelled', signedWord_injective same]
    | long layout' =>
      rw [opcode, layout'] at layout
      cases layout
  | long layout spelled =>
    cases branches' with
    | short layout' =>
      rw [opcode, layout'] at layout
      cases layout
    | long layout' spelled' => rw [spelled, spelled', Int32.toInt_inj.mp same]

/-- The wide form of an access to a local variable is told by the opcode and the variable. -/
theorem Whole.operands_wide (whole : i.Whole) (layout : i.opcode.layout = .wide)
    (access : i.operands.head? ≠ some Opcode.iinc.byte) : ∃ modified index,
      i.operands = modified.byte :: Bytes.ofUInt16 index ∧ i.widened? = some modified ∧
        i.localIndex? = some index := by
  have opcode := Opcode.eq_wide layout
  cases whole_iff_fills.mp whole with
  | fixed sized =>
    rw [layout] at sized
    cases sized
  | table other | lookup other =>
    rw [opcode] at other
    cases other
  | wideIncrement _ increment => exact absurd increment access
  | @wideAccess modified _ first _ length =>
    obtain ⟨rest, spelled⟩ := List.head?_eq_some_iff.mp first
    rw [spelled, List.length_cons] at length
    have left : rest.length = 2 := by omega
    obtain ⟨index, rfl⟩ := Bytes.exists_ofUInt16 left
    refine ⟨modified, index, spelled, ?_, ?_⟩
    · rw [widened?, if_pos layout, spelled]
      exact Opcode.ofByte?_byte modified
    · simp only [Instruction.localIndex?, layout, spelled]
      exact Bytes.u16At?_length [modified.byte] [] index

theorem Whole.operands_eq_of_wide (whole : i.Whole) (whole' : i'.Whole)
    (opcode : i.opcode = i'.opcode) (layout : i.opcode.layout = .wide)
    (access : i.operands.head? ≠ some Opcode.iinc.byte) (index : i.localIndex? = i'.localIndex?)
    (widened : i.widened? = i'.widened?) : i.operands = i'.operands := by
  obtain ⟨modified, place, spelled, wider, here⟩ := whole.operands_wide layout access
  have layout' := opcode ▸ layout
  have access' : i'.operands.head? ≠ some Opcode.iinc.byte := by
    intro increment
    obtain ⟨rest, spelled'⟩ := List.head?_eq_some_iff.mp increment
    have wider' : i'.widened? = some .iinc := by
      rw [widened?, if_pos layout', spelled']
      rfl
    obtain rfl : modified = .iinc := by simpa [wider, wider'] using widened
    exact access (by rw [spelled]; rfl)
  obtain ⟨modified', place', spelled', wider', there⟩ := whole'.operands_wide layout' access'
  obtain rfl : modified = modified' := by simpa [wider, wider'] using widened
  obtain rfl : place = place' := by simpa [here, there] using index
  rw [spelled, spelled']

/-- Where nothing is without an accessor, the operands are told. -/
theorem operands_eq_of_told (whole : i.Whole) (whole' : i'.Whole) (full : i.isToldInFull = true)
    (same : i.told = i'.told) : i.operands = i'.operands := by
  simp only [told, Told.mk.injEq] at same
  obtain ⟨offset, opcode, poolIndex, localIndex, immediate, target, -, widened⟩ := same
  have size {n : Nat} (fixed : i.opcode.layout.size? = some n) : i.operands.length = n :=
    whole.length_eq fixed
  have size' {n : Nat} (fixed : i.opcode.layout.size? = some n) : i'.operands.length = n :=
    whole'.length_eq (opcode ▸ fixed)
  have branch (isBranch : i.opcode.isBranch = true) (leads : i.branchTarget?.isSome = true) :
      i.operands = i'.operands := by
    obtain ⟨d, branches⟩ := whole.exists_branches isBranch
    obtain ⟨d', branches'⟩ := whole'.exists_branches (opcode ▸ isBranch)
    exact branches.operands_eq branches' opcode
      (branches.eq_of_target branches' offset leads target)
  cases layout : i.opcode.layout with
  | plain =>
    rw [layout] at size size'
    rw [List.eq_nil_of_length_eq_zero (size rfl), List.eq_nil_of_length_eq_zero (size' rfl)]
  | localIndex =>
    rw [layout] at size size'
    simp only [Instruction.localIndex?, ← opcode, layout] at localIndex
    exact byte_inj (size rfl) (size' rfl) (Option.map_injective index_injective localIndex)
  | signedByte =>
    rw [layout] at size size'
    simp only [Instruction.immediate?, ← opcode, layout] at immediate
    exact byte_inj (size rfl) (size' rfl) (Option.map_injective signedByte_injective immediate)
  | signedShort =>
    rw [layout] at size size'
    simp only [Instruction.immediate?, ← opcode, layout] at immediate
    exact word_inj (size rfl) (size' rfl) (Option.map_injective signedWord_injective immediate)
  | shortIndex =>
    rw [layout] at size size'
    simp only [Instruction.poolIndex?, ← opcode, layout] at poolIndex
    exact byte_inj (size rfl) (size' rfl) (Option.map_injective index_injective poolIndex)
  | poolIndex =>
    rw [layout] at size size'
    simp only [Instruction.poolIndex?, ← opcode, layout] at poolIndex
    exact word_inj (size rfl) (size' rfl) poolIndex
  | increment =>
    rw [layout] at size size'
    simp only [Instruction.localIndex?, Instruction.immediate?, ← opcode, layout]
      at localIndex immediate
    obtain ⟨a, b, spelled⟩ := List.length_eq_two.mp (size rfl)
    obtain ⟨a', b', spelled'⟩ := List.length_eq_two.mp (size' rfl)
    rw [spelled, spelled'] at localIndex immediate ⊢
    rw [index_injective (Option.some.inj localIndex),
      signedByte_injective (Option.some.inj immediate)]
  | branch | longBranch =>
    simp only [isToldInFull, layout] at full
    exact branch (by simp [Opcode.isBranch, layout]) full
  | wide =>
    simp only [isToldInFull, layout, bne_iff_ne] at full
    exact whole.operands_eq_of_wide whole' opcode layout full localIndex widened
  | interfaceCall | dynamicCall | arrayDimensions | elementType | tableSwitch | lookupSwitch =>
    simp only [isToldInFull, layout] at full
    cases full

/-- Rows of which the accessors tell the same are the same, where nothing is without an accessor. -/
theorem eq_of_map_told {is is' : List Instruction} (whole : ∀ i ∈ is, i.Whole)
    (whole' : ∀ i ∈ is', i.Whole) (full : ∀ i ∈ is, i.isToldInFull = true)
    (same : is.map told = is'.map told) : is = is' := by
  induction is generalizing is' with
  | nil => exact (List.map_eq_nil_iff.mp same.symm).symm
  | cons i is ih =>
    obtain ⟨i', is', rfl, here, behind⟩ := List.map_eq_cons_iff.mp same.symm
    obtain ⟨wholeHere, wholeBehind⟩ := List.forall_mem_cons.mp whole
    obtain ⟨wholeHere', wholeBehind'⟩ := List.forall_mem_cons.mp whole'
    obtain ⟨fullHere, fullBehind⟩ := List.forall_mem_cons.mp full
    have operands := operands_eq_of_told wholeHere wholeHere' fullHere here.symm
    have offset : i'.offset = i.offset := congrArg Told.offset here
    have opcode : i'.opcode = i.opcode := congrArg Told.opcode here
    rw [ih wholeBehind wholeBehind' fullBehind behind.symm]
    cases i
    cases i'
    cases operands
    cases offset
    cases opcode
    rfl

end Instruction

end ClassBench
