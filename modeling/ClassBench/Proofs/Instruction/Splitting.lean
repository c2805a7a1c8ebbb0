import ClassBench.Proofs.Instruction.Tiling
import Mathlib.Data.List.Chain

/-! What splitting code gives and where it stops.  The instructions that are found make up the code
without loss, each with as many operands as its layout asks for.  Code that is no row of
instructions has a first one at fault, behind a row of whole ones, and bytes added to the code
change the fault only if the code ended too early to tell. -/

namespace ClassBench

/-- The offset that an error points at. -/
def CodeError.offset : CodeError → Nat
  | invalidOpcode _ offset | truncated offset | invalidWide _ offset
  | invalidSwitch offset => offset

/-- Whether the code ended within the instruction at fault. -/
def CodeError.isTruncation : CodeError → Bool
  | truncated _ => true
  | invalidOpcode .. | invalidWide .. | invalidSwitch _ => false

namespace Instruction

variable {op : Opcode} {offset : Nat} {code rest : Bytes} {is : List Instruction} {i : Instruction}
  {e : CodeError}

/-! ### Operands that fill their layout -/

/-- The operands are as many as the layout asks for.  The table of a switch begins at the next
multiple of four, with the default, the bounds or the number of pairs, and then the cases; an opcode
that is made wider is followed by words in place of bytes. -/
inductive Fills (i : Instruction) : Prop
  | fixed (layout : i.opcode.layout.size? = some i.operands.length)
  | table {pad : Nat} {low high : Int32} (opcode : i.opcode = .tableswitch)
      (near : pad < 4) (aligned : 4 ∣ i.offset + 1 + pad)
      (first : i.operands.i32At? (pad + 4) = some low)
      (last : i.operands.i32At? (pad + 8) = some high) (ordered : low ≤ high)
      (length : (i.operands.length : Int) = pad + 12 + 4 * (high.toInt - low.toInt + 1))
  | lookup {pad : Nat} {pairs : Int32} (opcode : i.opcode = .lookupswitch)
      (near : pad < 4) (aligned : 4 ∣ i.offset + 1 + pad)
      (count : i.operands.i32At? (pad + 4) = some pairs)
      (length : (i.operands.length : Int) = pad + 8 + 8 * pairs.toInt)
  | wideIncrement (opcode : i.opcode = .wide)
      (modified : i.operands.head? = some Opcode.iinc.byte) (length : i.operands.length = 5)
  | wideAccess {modified : Opcode} (opcode : i.opcode = .wide)
      (first : i.operands.head? = some modified.byte) (layout : modified.layout = .localIndex)
      (length : i.operands.length = 3)

theorem padding_eq {pad : Nat} (near : pad < 4) (aligned : 4 ∣ offset + 1 + pad) :
    padding offset = pad := by
  unfold padding
  omega

theorem padding_lt (offset : Nat) : padding offset < 4 := by
  unfold padding
  omega

theorem padding_aligns (offset : Nat) : 4 ∣ offset + 1 + padding offset := by
  unfold padding
  omega

theorem wideLength?_eq_some {length : Nat} : wideLength? op = some length ↔
    op = .iinc ∧ length = 5 ∨ op.layout = .localIndex ∧ length = 3 := by
  have rule : wideLength? op =
      if op = .iinc then some 5 else if op.layout = .localIndex then some 3 else none := by
    cases op <;> rfl
  rw [rule]
  by_cases increment : op = .iinc
  · subst increment
    have other : Opcode.iinc.layout ≠ .localIndex := by decide
    simp [other, eq_comm]
  · by_cases access : op.layout = .localIndex <;> simp [increment, access, eq_comm]

theorem whole_iff_fills : i.Whole ↔ i.Fills := by
  constructor
  · intro whole
    cases whole with
    | fixed layout => exact .fixed layout
    | @table low high opcode first last ordered length =>
      refine .table opcode (padding_lt _) (padding_aligns _) first last ordered ?_
      rw [Int32.le_iff_toInt_le] at ordered
      unfold caseCount at length
      omega
    | @lookup pairs opcode count ordered length =>
      refine .lookup opcode (padding_lt _) (padding_aligns _) count ?_
      have : 0 ≤ pairs.toInt := by simpa [Int32.le_iff_toInt_le] using ordered
      omega
    | wide opcode first form =>
      rcases wideLength?_eq_some.mp form with ⟨rfl, length⟩ | ⟨layout, length⟩
      · exact .wideIncrement opcode first length
      · exact .wideAccess opcode first layout length
  · intro fills
    cases fills with
    | fixed layout => exact .fixed layout
    | @table pad low high opcode near aligned first last ordered length =>
      obtain rfl := padding_eq near aligned
      refine .table opcode first last ordered ?_
      rw [Int32.le_iff_toInt_le] at ordered
      unfold caseCount
      omega
    | @lookup pad pairs opcode near aligned count length =>
      obtain rfl := padding_eq near aligned
      -- The count itself is among the operands, so there are not fewer than none.
      have within := Bytes.le_of_i32At? count
      have some : 0 ≤ pairs.toInt := by omega
      refine .lookup opcode count ?_ (by omega)
      simpa [Int32.le_iff_toInt_le] using some
    | wideIncrement opcode modified length =>
      exact .wide opcode modified (wideLength?_eq_some.mpr (.inl ⟨rfl, length⟩))
    | wideAccess opcode first layout length =>
      exact .wide opcode first (wideLength?_eq_some.mpr (.inr ⟨layout, length⟩))

/-- A row tiles the code exactly if it is the bytes of the code, begins at the offset and goes on
without a gap, with whole instructions. -/
theorem tiles_iff : Tiles offset code is ↔ is.flatMap bytes = code ∧
    (∀ i ∈ is.head?, i.offset = offset) ∧ is.IsChain (fun i j => j.offset = i.next) ∧
    ∀ i ∈ is, i.Whole := by
  constructor
  · intro tiles
    refine ⟨tiles.flatMap_bytes, ?_, ?_, tiles.whole⟩
    · cases tiles with
      | nil => simp
      | cons start => simpa using start
    · induction tiles with
      | nil => exact .nil
      | @cons _ i _ is _ _ more ih =>
        refine List.isChain_cons.mpr ⟨?_, ih⟩
        cases more with
        | nil => simp
        | cons follows => simpa using follows
  · rintro ⟨rfl, start, chain, whole⟩
    induction is generalizing offset with
    | nil => exact .nil
    | cons i is ih =>
      obtain ⟨follows, goesOn⟩ := List.isChain_cons.mp chain
      obtain ⟨here, rest⟩ := List.forall_mem_cons.mp whole
      exact .cons (start i rfl) here (ih follows goesOn rest)

/-- Splitting succeeds with exactly the row of instructions whose bytes are the code, which begins
at offset 0, in which each instruction begins where the one before it ends, and in which all
operands fill their layout. -/
theorem split_is_lossless_tiling : split code = .ok is ↔
    is.flatMap bytes = code ∧ (∀ i ∈ is.head?, i.offset = 0) ∧
      is.IsChain (fun i j => j.offset = i.offset + 1 + i.operands.length) ∧
      ∀ i ∈ is, i.Fills := by
  rw [split_eq_ok, tiles_iff]
  simp only [whole_iff_fills]
  rfl

/-! ### The number of operands asked for -/

/-- A rule for the number of operand bytes reads what it needs from the front of the bytes: bytes
behind that change nothing, and fifteen of them, a switch's padding and three words, are enough. -/
structure Asks (offset : Nat) (ask : Bytes → Except CodeError Nat) : Prop where
  pointsHere : ∀ {rest e}, ask rest = .error e → e.offset = offset
  append : ∀ {rest} more, ask rest ≠ .error (.truncated offset) → ask (rest ++ more) = ask rest
  told : ∀ {rest}, 15 ≤ rest.length → ask rest ≠ .error (.truncated offset)

theorem asks_ok (offset length : Nat) : Asks offset fun _ => .ok length where
  pointsHere := nofun
  append _ _ := rfl
  told _ := nofun

theorem asks_wide (offset : Nat) : Asks offset (wideOperands offset) where
  pointsHere {rest e} refused := by
    unfold wideOperands at refused
    split at refused
    · exact Except.error.inj refused ▸ rfl
    · split at refused
      · contradiction
      · exact Except.error.inj refused ▸ rfl
  append {rest} more told := by
    cases rest with
    | nil => exact absurd rfl told
    | cons b rest => rfl
  told {rest} enough := by
    cases rest with
    | nil => simp at enough
    | cons b rest =>
      unfold wideOperands
      split
      · contradiction
      · split <;> rintro ⟨⟩

theorem asks_table (offset : Nat) : Asks offset (tableOperands offset) where
  pointsHere {rest e} refused := by
    simp only [tableOperands] at refused
    split at refused
    · split at refused
      · exact Except.error.inj refused ▸ rfl
      · contradiction
    · exact Except.error.inj refused ▸ rfl
  append {rest} more told := by
    simp only [tableOperands] at told ⊢
    split at told
    · next low high first last =>
      simp only [Bytes.i32At?_append more (Bytes.le_of_i32At? first),
        Bytes.i32At?_append more (Bytes.le_of_i32At? last), first, last]
    · exact absurd rfl told
  told {rest} enough := by
    have near := padding_lt offset
    obtain ⟨low, first⟩ := Bytes.exists_i32At? rest (padding offset + 4) (by omega)
    obtain ⟨high, last⟩ := Bytes.exists_i32At? rest (padding offset + 8) (by omega)
    simp only [tableOperands, first, last]
    split <;> rintro ⟨⟩

theorem asks_lookup (offset : Nat) : Asks offset (lookupOperands offset) where
  pointsHere {rest e} refused := by
    simp only [lookupOperands] at refused
    split at refused
    · split at refused
      · exact Except.error.inj refused ▸ rfl
      · contradiction
    · exact Except.error.inj refused ▸ rfl
  append {rest} more told := by
    simp only [lookupOperands] at told ⊢
    split at told
    · next pairs count => simp only [Bytes.i32At?_append more (Bytes.le_of_i32At? count), count]
    · exact absurd rfl told
  told {rest} enough := by
    have near := padding_lt offset
    obtain ⟨pairs, count⟩ := Bytes.exists_i32At? rest (padding offset + 4) (by omega)
    simp only [lookupOperands, count]
    split <;> rintro ⟨⟩

theorem asks_operandLength (op : Opcode) (offset : Nat) :
    Asks offset (operandLength op offset) := by
  unfold operandLength
  cases op.layout.size? with
  | some length => exact asks_ok offset length
  | none =>
    cases op.layout with
    | tableSwitch => exact asks_table offset
    | lookupSwitch => exact asks_lookup offset
    | _ => exact asks_wide offset

/-- With enough bytes added, the number of operands is told and all of them are there. -/
theorem Asks.exists_enough {ask : Bytes → Except CodeError Nat} (asks : Asks offset ask)
    (rest : Bytes) : ∃ more, ask (rest ++ more) ≠ .error (.truncated offset) ∧
      ∀ length, ask (rest ++ more) = .ok length → length ≤ (rest ++ more).length := by
  obtain ⟨header, long⟩ : ∃ header : Bytes, 15 ≤ header.length :=
    ⟨List.replicate 15 0, Nat.le_refl _⟩
  have told : ask (rest ++ header) ≠ .error (.truncated offset) :=
    asks.told (by rw [List.length_append]; omega)
  cases asked : ask (rest ++ header) with
  | error e => exact ⟨header, told, by simp [asked]⟩
  | ok length =>
    -- The number is told now, and as many bytes behind the header are enough.
    have same := (asks.append (List.replicate length 0) told).trans asked
    rw [List.append_assoc] at same
    refine ⟨header ++ List.replicate length 0, by simp [same], ?_⟩
    intro length' same'
    obtain rfl := Except.ok.inj (same.symm.trans same')
    simp only [List.length_append, List.length_replicate]
    omega

/-! ### The first instruction at fault -/

/-- The instruction that begins the code is at fault. -/
inductive Stops (offset : Nat) : Bytes → CodeError → Prop
  | opcode {b : UInt8} {rest : Bytes} (unknown : Opcode.ofByte? b = none) :
      Stops offset (b :: rest) (.invalidOpcode b offset)
  | operands {b : UInt8} {rest : Bytes} {op : Opcode} {e : CodeError}
      (known : Opcode.ofByte? b = some op) (refused : operandLength op offset rest = .error e) :
      Stops offset (b :: rest) e
  | short {b : UInt8} {rest : Bytes} {op : Opcode} {length : Nat}
      (known : Opcode.ofByte? b = some op) (asked : operandLength op offset rest = .ok length)
      (cut : rest.length < length) : Stops offset (b :: rest) (.truncated offset)

namespace Stops

theorem pointsHere (stops : Stops offset code e) : e.offset = offset := by
  cases stops with
  | opcode => rfl
  | operands _ refused => exact (asks_operandLength _ offset).pointsHere refused
  | short => rfl

theorem length_pos (stops : Stops offset code e) : 0 < code.length := by
  cases stops <;> exact Nat.succ_pos _

/-- Bytes that are added do not mend an instruction that was not cut off. -/
theorem append (stops : Stops offset code e) (uncut : e.isTruncation = false) (more : Bytes) :
    Stops offset (code ++ more) e := by
  cases stops with
  | opcode unknown => exact .opcode unknown
  | @operands b rest op _ known refused =>
    refine .operands known ?_
    have told : operandLength op offset rest ≠ .error (.truncated offset) := by
      rw [refused]
      rintro ⟨⟩
      contradiction
    exact ((asks_operandLength op offset).append more told).trans refused
  | short => contradiction

/-- With enough bytes added, an instruction that was cut off is so no longer. -/
theorem exists_longer (stops : Stops offset code (.truncated offset)) :
    ∃ more, ¬Stops offset (code ++ more) (.truncated offset) := by
  obtain ⟨b, rest, op, rfl, known⟩ :
      ∃ b rest op, code = b :: rest ∧ Opcode.ofByte? b = some op := by
    cases stops with
    | operands known | short known => exact ⟨_, _, _, rfl, known⟩
  obtain ⟨more, told, enough⟩ := (asks_operandLength op offset).exists_enough rest
  refine ⟨more, fun still => ?_⟩
  rw [List.cons_append] at still
  cases still with
  | operands known' refused =>
    obtain rfl := Option.some.inj (known.symm.trans known')
    exact told refused
  | short known' asked cut =>
    obtain rfl := Option.some.inj (known.symm.trans known')
    exact absurd (enough _ asked) (Nat.not_le.mpr cut)

end Stops

/-- A row of instructions is taken off the front. -/
theorem splitInto_append {front : Bytes} (tiles : Tiles offset front is) (back : Bytes)
    (found : List Instruction) : splitInto offset found (front ++ back) =
      splitInto (offset + front.length) (is.reverse ++ found) back := by
  induction tiles generalizing found with
  | nil => rfl
  | @cons offset i code is start whole more ih =>
    obtain ⟨_, op, operands⟩ := i
    obtain rfl : _ = offset := start
    rw [bytes, List.cons_append, List.cons_append, List.append_assoc, splitInto]
    simp only [Opcode.ofByte?_byte, (operandLength_eq_ok (code ++ back)).mpr whole,
      List.take_left, List.drop_left, if_true]
    rw [show _ + 1 + operands.length = next ⟨_, op, operands⟩ from rfl, ih, List.reverse_cons,
      List.append_assoc, List.singleton_append]
    congr 1
    simp only [next, List.length_cons, List.length_append]
    omega

theorem splitInto_eq_error {found : List Instruction} : splitInto offset found code = .error e ↔
    ∃ front back is, code = front ++ back ∧ Tiles offset front is ∧
      Stops (offset + front.length) back e := by
  constructor
  · intro fails
    fun_induction splitInto offset found code with
    | case1 => contradiction
    | case2 offset found b rest unknown =>
      obtain rfl := Except.error.inj fails
      exact ⟨[], b :: rest, [], rfl, .nil, .opcode unknown⟩
    | case3 offset found b rest op known e' refused =>
      obtain rfl := Except.error.inj fails
      exact ⟨[], b :: rest, [], rfl, .nil, .operands known refused⟩
    | case4 offset found b rest op known length asked operands full ih =>
      obtain ⟨front, back, is, parts, tiles, stops⟩ := ih fails
      obtain ⟨begins, whole⟩ := exists_front known asked full
      refine ⟨_ ++ front, back, _ :: is, by rw [begins, parts, List.append_assoc],
        .cons rfl whole (by rwa [next, full]), ?_⟩
      have start : offset + (bytes ⟨offset, op, operands⟩ ++ front).length =
          offset + 1 + length + front.length := by
        simp only [bytes, List.length_append, List.length_cons, full]
        omega
      rwa [start]
    | case5 offset found b rest op known length asked operands short =>
      obtain rfl := Except.error.inj fails
      refine ⟨[], b :: rest, [], rfl, .nil, .short known asked ?_⟩
      simp only [operands, List.length_take] at short
      omega
  · rintro ⟨front, back, is, rfl, tiles, stops⟩
    rw [splitInto_append tiles, splitInto.eq_def]
    cases stops with
    | opcode unknown => simp only [unknown]
    | operands known refused => simp only [known, refused]
    | @short b rest op length known asked cut =>
      have short : (rest.take length).length ≠ length := by
        rw [List.length_take]
        omega
      simp only [known, asked, if_neg short]

/-- Splitting fails with the fault of the instruction that stands behind a row of whole ones. -/
theorem split_eq_error : split code = .error e ↔
    ∃ front back is, code = front ++ back ∧ Tiles 0 front is ∧ Stops front.length back e := by
  simp only [split, splitInto_eq_error, Nat.zero_add]

/-- An error points at a place within the code, the code before that place is a row of whole
instructions, and the error is the same whatever bytes are added to the code exactly if it is not
that the code ended too early. -/
theorem split_fails_at_first_fault (fails : split code = .error e) :
    e.offset < code.length ∧ (∃ is, split (code.take e.offset) = .ok is) ∧
      ((∀ more, split (code ++ more) = .error e) ↔ e.isTruncation = false) := by
  obtain ⟨front, back, is, rfl, tiles, stops⟩ := split_eq_error.mp fails
  rw [stops.pointsHere]
  have some := stops.length_pos
  refine ⟨by simpa using some, ⟨is, ?_⟩, ?_, ?_⟩
  · rw [List.take_left]
    exact split_eq_ok.mpr tiles
  · intro final
    cases e with
    | truncated offset =>
      obtain rfl : offset = front.length := stops.pointsHere
      obtain ⟨more, longer⟩ := stops.exists_longer
      obtain ⟨front', back', is', parts, -, stops'⟩ := split_eq_error.mp (final more)
      rw [List.append_assoc] at parts
      -- The error says how long the row before it is.
      obtain ⟨rfl, rfl⟩ := List.append_inj parts stops'.pointsHere
      exact absurd stops' longer
    | invalidOpcode | invalidWide | invalidSwitch => rfl
  · intro uncut more
    exact split_eq_error.mpr
      ⟨front, back ++ more, is, List.append_assoc _ _ _, tiles, stops.append uncut more⟩

/-- A table whose bounds are in the wrong order, behind an instruction that does nothing. -/
theorem split_fails_at_first_fault_switch :
    let code : Bytes := [0x00, 0xAA, 0, 0] ++ Bytes.ofUInt32 0 ++ Bytes.ofUInt32 7 ++ Bytes.ofUInt32 6
    split code = .error (.invalidSwitch 1) ∧ 1 < code.length ∧
      (∃ is, split (code.take 1) = .ok is) ∧
      ∀ more, split (code ++ more) = .error (.invalidSwitch 1) := by
  intro code
  have fails : split code = .error (.invalidSwitch 1) := by
    let first : Instruction := ⟨0, .nop, []⟩
    exact split_eq_error.mpr
      ⟨first.bytes, code.tail, [first], rfl, .single rfl (.fixed rfl), .operands rfl rfl⟩
  obtain ⟨inside, front, final⟩ := split_fails_at_first_fault fails
  exact ⟨fails, inside, front, final.mpr rfl⟩

end Instruction

end ClassBench
