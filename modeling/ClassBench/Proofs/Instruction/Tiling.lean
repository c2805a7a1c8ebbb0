import ClassBench.Instruction.Split
import ClassBench.Proofs.Bytes
import Mathlib.Tactic.Common

/-! Which rows of instructions a code array is.  `Whole` says that an instruction has the operands
that its layout asks for, which for the switches and for `wide` the operands themselves tell, and
`Tiles` that instructions follow each other through the code without a gap.  Splitting the code
finds the row that tiles it if there is one, and there is no other. -/

namespace ClassBench

/-! ### Opcodes by their bytes -/

namespace Opcode

theorem ofByte?_byte (op : Opcode) : ofByte? op.byte = some op := by
  cases op <;> rfl

theorem byte_ofByte? {b : UInt8} {op : Opcode} (known : ofByte? b = some op) : op.byte = b := by
  unfold ofByte? at known
  split at known
  · next defined =>
    obtain rfl := Option.some.inj known
    have index : ∀ n : Fin total, (ofNat n).ctorIdx = n := by decide +kernel
    rw [byte, show (ofNat b.toNat).ctorIdx = b.toNat from index ⟨b.toNat, defined⟩]
    simp
  · contradiction

theorem eq_tableswitch {op : Opcode} (layout : op.layout = .tableSwitch) : op = .tableswitch := by
  cases op <;> first | rfl | cases layout

theorem eq_lookupswitch {op : Opcode} (layout : op.layout = .lookupSwitch) :
    op = .lookupswitch := by
  cases op <;> first | rfl | cases layout

theorem eq_wide {op : Opcode} (layout : op.layout = .wide) : op = .wide := by
  cases op <;> first | rfl | cases layout

end Opcode

namespace Instruction

/-! ### Whole instructions -/

/-- The number of cases of a switch over the keys from `low` to `high`. -/
def caseCount (low high : Int32) : Nat := (high.toInt - low.toInt + 1).toNat

/-- The operands are as many as the layout asks for. -/
inductive Whole (i : Instruction) : Prop
  | fixed (layout : i.opcode.layout.size? = some i.operands.length)
  | table {low high : Int32} (opcode : i.opcode = .tableswitch)
      (first : i.operands.i32At? (padding i.offset + 4) = some low)
      (last : i.operands.i32At? (padding i.offset + 8) = some high) (ordered : low ≤ high)
      (length : i.operands.length = padding i.offset + 12 + caseCount low high * 4)
  | lookup {pairs : Int32} (opcode : i.opcode = .lookupswitch)
      (count : i.operands.i32At? (padding i.offset + 4) = some pairs) (ordered : 0 ≤ pairs)
      (length : i.operands.length = padding i.offset + 8 + pairs.toInt.toNat * 8)
  | wide {modified : Opcode} (opcode : i.opcode = .wide)
      (first : i.operands.head? = some modified.byte)
      (form : wideLength? modified = some i.operands.length)

/-- An instruction has as many operands as its layout fixes. -/
theorem Whole.length_eq {i : Instruction} {size : Nat} (whole : i.Whole)
    (fixed : i.opcode.layout.size? = some size) : i.operands.length = size := by
  cases whole with
  | fixed layout => exact Option.some.inj (layout.symm.trans fixed)
  | table opcode | lookup opcode | wide opcode =>
    rw [opcode] at fixed
    cases fixed

variable {op : Opcode} {offset : Nat} {operands : Bytes}

theorem tableOperands_eq_ok (after : Bytes) :
    tableOperands offset (operands ++ after) = .ok operands.length ↔
      Whole ⟨offset, .tableswitch, operands⟩ := by
  constructor
  · intro sized
    unfold tableOperands at sized
    simp only at sized
    split at sized
    · next low high first last =>
      split at sized
      · contradiction
      · next ordered =>
        have length := (Except.ok.inj sized).symm
        rw [Bytes.i32At?_append after (by omega)] at first last
        exact .table rfl first last (Int32.not_lt.mp ordered) length
    · contradiction
  · intro whole
    cases whole with
    | fixed layout => cases layout
    | table _ first last ordered length =>
      simp only at first last length
      rw [← Bytes.i32At?_append after (by omega)] at first last
      simp only [tableOperands, first, last, if_neg (Int32.not_lt.mpr ordered)]
      rw [length]
      rfl
    | lookup opcode => cases opcode
    | wide opcode => cases opcode

theorem lookupOperands_eq_ok (after : Bytes) :
    lookupOperands offset (operands ++ after) = .ok operands.length ↔
      Whole ⟨offset, .lookupswitch, operands⟩ := by
  constructor
  · intro sized
    unfold lookupOperands at sized
    simp only at sized
    split at sized
    · next pairs count =>
      split at sized
      · contradiction
      · next ordered =>
        have length := (Except.ok.inj sized).symm
        rw [Bytes.i32At?_append after (by omega)] at count
        exact .lookup rfl count (Int32.not_lt.mp ordered) length
    · contradiction
  · intro whole
    cases whole with
    | fixed layout => cases layout
    | table opcode => cases opcode
    | lookup _ count ordered length =>
      simp only at count length
      rw [← Bytes.i32At?_append after (by omega)] at count
      simp only [lookupOperands, count, if_neg (Int32.not_lt.mpr ordered)]
      rw [length]
    | wide opcode => cases opcode

theorem wideLength?_pos {modified : Opcode} {length : Nat}
    (form : wideLength? modified = some length) : 0 < length := by
  unfold wideLength? at form
  split at form <;> simp_all <;> omega

theorem wideOperands_eq_ok (after : Bytes) :
    wideOperands offset (operands ++ after) = .ok operands.length ↔
      Whole ⟨offset, .wide, operands⟩ := by
  constructor
  · intro sized
    unfold wideOperands at sized
    split at sized
    · contradiction
    · next b rest front =>
      split at sized
      · next length found =>
        obtain ⟨modified, known, form⟩ := Option.bind_eq_some_iff.mp found
        obtain rfl := Except.ok.inj sized
        obtain rfl := Opcode.byte_ofByte? known
        have some := wideLength?_pos form
        refine .wide rfl ?_ form
        cases operands with
        | nil => simp at some
        | cons c operands =>
          rw [List.cons_append, List.cons.injEq] at front
          exact congrArg Option.some front.1
      · contradiction
  · intro whole
    cases whole with
    | fixed layout => cases layout
    | table opcode => cases opcode
    | lookup opcode => cases opcode
    | @wide modified _ first form =>
      cases operands with
      | nil => cases first
      | cons c operands =>
        obtain rfl := Option.some.inj first
        rw [List.cons_append, wideOperands]
        simp only [Opcode.ofByte?_byte, Option.bind_some, form]

/-- The operands at the front of the bytes are as many as are asked for exactly if they make a whole
instruction, whatever follows them. -/
theorem operandLength_eq_ok (after : Bytes) :
    operandLength op offset (operands ++ after) = .ok operands.length ↔
      Whole ⟨offset, op, operands⟩ := by
  unfold operandLength
  split
  · next size layout =>
    rw [Except.ok.injEq]
    constructor
    · rintro rfl
      exact .fixed layout
    · intro whole
      exact (whole.length_eq layout).symm
  · next layout =>
    split
    · next table =>
      obtain rfl := Opcode.eq_tableswitch table
      exact tableOperands_eq_ok after
    · next lookup =>
      obtain rfl := Opcode.eq_lookupswitch lookup
      exact lookupOperands_eq_ok after
    · next notTable notLookup =>
      have wide : op.layout = .wide := by
        cases h : op.layout <;> simp_all [Layout.size?]
      obtain rfl := Opcode.eq_wide wide
      exact wideOperands_eq_ok after

/-! ### Rows of instructions -/

/-- From `offset` on the code is these instructions, each beginning where the last one ended. -/
inductive Tiles : Nat → Bytes → List Instruction → Prop
  | nil {offset : Nat} : Tiles offset [] []
  | cons {offset : Nat} {i : Instruction} {code : Bytes} {is : List Instruction}
      (start : i.offset = offset) (whole : i.Whole) (more : Tiles i.next code is) :
      Tiles offset (i.bytes ++ code) (i :: is)

variable {code : Bytes} {is : List Instruction} {i : Instruction}

theorem splitInto_of_tiles (tiles : Tiles offset code is) (found : List Instruction) :
    splitInto offset found code = .ok (found.reverse ++ is) := by
  induction tiles generalizing found with
  | nil => simp [splitInto]
  | @cons offset i code is start whole more ih =>
    obtain ⟨_, op, operands⟩ := i
    obtain rfl : _ = offset := start
    rw [bytes, List.cons_append, splitInto]
    simp only [Opcode.ofByte?_byte, (operandLength_eq_ok code).mpr whole, List.take_left,
      List.drop_left, if_true]
    rw [show _ + 1 + operands.length = next ⟨_, op, operands⟩ from rfl, ih]
    simp

/-- Bytes that begin with an opcode and go on with all the operands that it asks for are a whole
instruction and what follows it. -/
theorem exists_front {b : UInt8} {rest : Bytes} {length : Nat}
    (known : Opcode.ofByte? b = some op) (asked : operandLength op offset rest = .ok length)
    (full : (rest.take length).length = length) :
    b :: rest = bytes ⟨offset, op, rest.take length⟩ ++ rest.drop length ∧
      Whole ⟨offset, op, rest.take length⟩ := by
  obtain rfl := Opcode.byte_ofByte? known
  have parts : rest.take length ++ rest.drop length = rest := List.take_append_drop length rest
  refine ⟨by rw [bytes, List.cons_append, parts], (operandLength_eq_ok (rest.drop length)).mp ?_⟩
  rw [parts, asked, full]

theorem tiles_of_splitInto {found all : List Instruction}
    (split : splitInto offset found code = .ok all) :
    ∃ is, all = found.reverse ++ is ∧ Tiles offset code is := by
  fun_induction splitInto offset found code with
  | case1 => exact ⟨[], by simpa using split.symm, .nil⟩
  | case4 offset found b rest op known length asked operands full ih =>
    obtain ⟨is, rfl, tiles⟩ := ih split
    obtain ⟨parts, whole⟩ := exists_front known asked full
    refine ⟨⟨offset, op, operands⟩ :: is, by simp, ?_⟩
    rw [parts]
    refine .cons rfl whole ?_
    rwa [next, full]
  | case2 | case3 | case5 => contradiction

/-- Splitting finds exactly the row of whole instructions that the code is. -/
theorem split_eq_ok : split code = .ok is ↔ Tiles 0 code is := by
  constructor
  · intro found
    obtain ⟨is, rfl, tiles⟩ := tiles_of_splitInto found
    exact tiles
  · intro tiles
    rw [split, splitInto_of_tiles tiles []]
    rfl

namespace Tiles

theorem whole (tiles : Tiles offset code is) : ∀ i ∈ is, i.Whole := by
  induction tiles with
  | nil => simp
  | cons _ whole _ ih => exact List.forall_mem_cons.mpr ⟨whole, ih⟩

/-- The code is the bytes of the instructions. -/
theorem flatMap_bytes (tiles : Tiles offset code is) : is.flatMap Instruction.bytes = code := by
  induction tiles with
  | nil => rfl
  | cons _ _ _ ih => rw [List.flatMap_cons, ih]

theorem length_pos (tiles : Tiles offset code is) (some : is ≠ []) : 1 ≤ code.length := by
  rw [← tiles.flatMap_bytes]
  cases is with
  | nil => exact absurd rfl some
  | cons => simp [Instruction.bytes]

theorem starts (tiles : Tiles offset code is) (some : code ≠ []) : ∃ i ∈ is, i.offset = offset := by
  cases tiles with
  | nil => exact absurd rfl some
  | cons start => exact ⟨_, List.mem_cons_self, start⟩

theorem single (start : i.offset = offset) (whole : i.Whole) : Tiles offset i.bytes [i] := by
  simpa using cons start whole nil

theorem append {code' : Bytes} {is' : List Instruction} (tiles : Tiles offset code is)
    (more : Tiles (offset + code.length) code' is') : Tiles offset (code ++ code') (is ++ is') := by
  induction tiles with
  | nil => exact more
  | @cons offset i code is start whole _ ih =>
    have follows : offset + (i.bytes ++ code).length = i.next + code.length := by
      simp only [bytes, next, List.length_append, List.length_cons, start]
      omega
    rw [follows] at more
    rw [List.append_assoc, List.cons_append]
    exact cons start whole (ih more)

/-- The code before and behind an instruction of the row. -/
theorem around {before after : List Instruction}
    (tiles : Tiles offset code (before ++ i :: after)) :
    ∃ front back, code = front ++ (i.bytes ++ back) ∧ Tiles offset front before ∧
      i.offset = offset + front.length ∧ i.Whole ∧ Tiles i.next back after := by
  induction before generalizing offset code with
  | nil =>
    cases tiles with
    | cons start whole more => exact ⟨[], _, rfl, .nil, start, whole, more⟩
  | cons j before ih =>
    cases tiles with
    | cons start whole more =>
      obtain ⟨front, back, rfl, earlier, here, rest⟩ := ih more
      refine ⟨j.bytes ++ front, back, by rw [List.append_assoc], .cons start whole earlier, ?_,
        rest⟩
      simp only [next, bytes, List.length_append, List.length_cons] at here ⊢
      omega

/-- Behind an instruction stands the next one, unless it is the last. -/
theorem next_mem (tiles : Tiles offset code is) (member : i ∈ is) :
    i.next ∈ is.map Instruction.offset ∨ is.getLast? = some i := by
  induction tiles with
  | nil => simp at member
  | @cons offset j code is start _ more ih =>
    cases more with
    | nil =>
      obtain rfl : i = j := by simpa using member
      exact .inr rfl
    | @cons _ k _ _ follows =>
      rcases List.mem_cons.mp member with rfl | later
      · refine .inl (List.mem_map.mpr ⟨k, by simp, follows⟩)
      · rcases ih later with inside | last
        · exact .inl (List.mem_cons_of_mem _ inside)
        · exact .inr (by rw [List.getLast?_cons_cons, last])

end Tiles

end Instruction

end ClassBench
