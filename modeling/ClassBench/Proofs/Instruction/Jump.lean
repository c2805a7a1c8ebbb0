import ClassBench.Proofs.Instruction.Tiling

/-! Where an instruction may pass control.  `Leads` gives the distances of a branch and of a switch
as words of the operands, the default and every case of a table in its place, and `Successor` adds
the instruction that follows.  Places are integers here: a distance may lead before the start of the
code, where the offsets that are computed for it leave it out. -/

namespace ClassBench

namespace Bytes

theorem i32At?_eq_none {bytes : Bytes} {index : Nat} (short : bytes.length < index + 4) :
    bytes.i32At? index = none := by
  cases found : bytes.i32At? index with
  | none => rfl
  | some n => exact absurd (le_of_i32At? found) (by omega)

end Bytes

namespace Instruction

/-! ### Distances in tables -/

theorem tableDistances_append : ∀ (read : List Int) (table : Bytes),
    tableDistances read table = read.reverse ++ tableDistances [] table
  | read, a :: b :: c :: d :: rest => by
    rw [tableDistances, tableDistances, tableDistances_append (_ :: read),
      tableDistances_append [_]]
    simp
  | read, [] | read, [_] | read, [_, _] | read, [_, _, _] => by simp [tableDistances]

/-- The distance at a place of a table is the word there. -/
theorem getElem?_tableDistances : ∀ (table : Bytes) (k : Nat),
    (tableDistances [] table)[k]? = (table.i32At? (k * 4)).map Int32.toInt
  | a :: b :: c :: d :: rest, 0 => by
    rw [tableDistances, tableDistances_append]
    rfl
  | a :: b :: c :: d :: rest, k + 1 => by
    have behind : Bytes.i32At? (a :: b :: c :: d :: rest) ((k + 1) * 4) =
        Bytes.i32At? rest (k * 4) := by
      rw [show (k + 1) * 4 = 4 + k * 4 by omega, ← Bytes.i32At?_drop]
      rfl
    rw [tableDistances, tableDistances_append, behind, ← getElem?_tableDistances rest k]
    rfl
  | [], k | [_], k | [_, _], k | [_, _, _], k => by
    rw [Bytes.i32At?_eq_none (by simp)]
    simp [tableDistances]

theorem pairDistances_append : ∀ (read : List Int) (table : Bytes),
    pairDistances read table = read.reverse ++ pairDistances [] table
  | read, _ :: _ :: _ :: _ :: a :: b :: c :: d :: rest => by
    rw [pairDistances, pairDistances, pairDistances_append (_ :: read), pairDistances_append [_]]
    simp
  | read, [] | read, [_] | read, [_, _] | read, [_, _, _] | read, [_, _, _, _]
  | read, [_, _, _, _, _] | read, [_, _, _, _, _, _] | read, [_, _, _, _, _, _, _] => by
    simp [pairDistances]

/-- The distance at a place of a list of pairs is the second word there. -/
theorem getElem?_pairDistances : ∀ (table : Bytes) (k : Nat),
    (pairDistances [] table)[k]? = (table.i32At? (k * 8 + 4)).map Int32.toInt
  | _ :: _ :: _ :: _ :: a :: b :: c :: d :: rest, 0 => by
    rw [pairDistances, pairDistances_append]
    rfl
  | e :: f :: g :: h :: a :: b :: c :: d :: rest, k + 1 => by
    have behind : Bytes.i32At? (e :: f :: g :: h :: a :: b :: c :: d :: rest) ((k + 1) * 8 + 4) =
        Bytes.i32At? rest (k * 8 + 4) := by
      rw [show (k + 1) * 8 + 4 = 8 + (k * 8 + 4) by omega, ← Bytes.i32At?_drop]
      rfl
    rw [pairDistances, pairDistances_append, behind, ← getElem?_pairDistances rest k]
    rfl
  | [], k | [_], k | [_, _], k | [_, _, _], k | [_, _, _, _], k | [_, _, _, _, _], k
  | [_, _, _, _, _, _], k | [_, _, _, _, _, _, _], k => by
    rw [Bytes.i32At?_eq_none (by simp)]
    simp [pairDistances]

/-! ### Jumps -/

/-- A distance by which the instruction may jump. -/
inductive Leads (i : Instruction) : Int → Prop
  | branch {d : Int} (distance : i.distance? = some d) : Leads i d
  | fallback {d : Int32} (switch : i.opcode.isSwitch = true)
      (word : i.operands.i32At? (padding i.offset) = some d) : Leads i d.toInt
  | tableCase {low high d : Int32} {k : Nat} (opcode : i.opcode = .tableswitch)
      (first : i.operands.i32At? (padding i.offset + 4) = some low)
      (last : i.operands.i32At? (padding i.offset + 8) = some high)
      (inside : k < caseCount low high)
      (word : i.operands.i32At? (padding i.offset + (12 + k * 4)) = some d) : Leads i d.toInt
  | lookupCase {pairs d : Int32} {k : Nat} (opcode : i.opcode = .lookupswitch)
      (count : i.operands.i32At? (padding i.offset + 4) = some pairs)
      (inside : k < pairs.toInt.toNat)
      (word : i.operands.i32At? (padding i.offset + (8 + (k * 8 + 4))) = some d) : Leads i d.toInt

/-- A place where control may go on after the instruction. -/
inductive Successor (i : Instruction) : Int → Prop
  | jump {d : Int} (leads : i.Leads d) : Successor i (i.offset + d)
  | next (goesOn : i.opcode.isTerminator = false) : Successor i i.next

variable {i : Instruction} {d : Int}

theorem at?_eq_some {target : Nat} : i.at? d = some target ↔ i.offset + d = target := by
  unfold at?
  simp only
  split
  · rw [Option.some.injEq]
    omega
  · simp only [reduceCtorEq, false_iff]
    omega

theorem isSwitch_iff {op : Opcode} :
    op.isSwitch = true ↔ op = .tableswitch ∨ op = .lookupswitch := by
  simp [Opcode.isSwitch]

theorem distance?_eq_none (other : i.opcode.isBranch = false) : i.distance? = none := by
  unfold distance?
  split
  · next layout => simp [Opcode.isBranch, layout] at other
  · next layout => simp [Opcode.isBranch, layout] at other
  · rfl

theorem isSwitch_of_isBranch {op : Opcode} (branch : op.isBranch = true) : op.isSwitch = false := by
  cases switch : op.isSwitch with
  | false => rfl
  | true =>
    rcases isSwitch_iff.mp switch with rfl | rfl
    · cases branch
    · cases branch

theorem switchDistances_other (other : i.opcode.isSwitch = false) : i.switchDistances = [] := by
  unfold switchDistances
  simp only
  split
  · next table => simp [table, Opcode.isSwitch] at other
  · next lookup => simp [lookup, Opcode.isSwitch] at other
  · rfl

/-- The operands of a branch hold its distance. -/
theorem Whole.distance? (whole : i.Whole) (branch : i.opcode.isBranch = true) :
    ∃ d, i.distance? = some d := by
  unfold Instruction.distance?
  simp only [Opcode.isBranch, Bool.or_eq_true, decide_eq_true_eq] at branch
  rcases branch with layout | layout
  · have length : i.operands.length = 2 := whole.length_eq (by rw [layout]; rfl)
    obtain ⟨w, word⟩ := Bytes.exists_u16At? i.operands 0 (Nat.le_of_eq length.symm)
    exact ⟨_, by rw [layout, word]; rfl⟩
  · have length : i.operands.length = 4 := whole.length_eq (by rw [layout]; rfl)
    obtain ⟨n, word⟩ := Bytes.exists_i32At? i.operands 0 (Nat.le_of_eq length.symm)
    exact ⟨_, by rw [layout, word]; rfl⟩

theorem leads_of_branch (branch : i.opcode.isBranch = true) :
    i.Leads d ↔ i.distance? = some d := by
  have noSwitch := isSwitch_of_isBranch branch
  constructor
  · intro leads
    cases leads with
    | branch distance => exact distance
    | fallback switch => exact absurd switch (by simp [noSwitch])
    | tableCase opcode | lookupCase opcode => simp [opcode, Opcode.isSwitch] at noSwitch
  · exact .branch

/-- Members of a front whose places are told by the words of a table. -/
theorem mem_take_words {distances : List Int} {word : Nat → Option Int32} {count : Nat}
    (places : ∀ k, distances[k]? = (word k).map Int32.toInt) :
    d ∈ distances.take count ↔ ∃ k < count, ∃ n, word k = some n ∧ n.toInt = d := by
  simp only [List.mem_iff_getElem?, List.getElem?_take]
  refine exists_congr fun k => ?_
  split
  · next inside => simp [inside, places]
  · next outside => simp [outside]

/-- A switch over consecutive keys leads by its default and by every case. -/
theorem leads_table {low high : Int32} (opcode : i.opcode = .tableswitch)
    (first : i.operands.i32At? (padding i.offset + 4) = some low)
    (last : i.operands.i32At? (padding i.offset + 8) = some high) :
    i.Leads d ↔ (∃ n, i.operands.i32At? (padding i.offset) = some n ∧ n.toInt = d) ∨
      ∃ k < caseCount low high, ∃ n,
        i.operands.i32At? (padding i.offset + (12 + k * 4)) = some n ∧ n.toInt = d := by
  constructor
  · intro leads
    cases leads with
    | branch distance => simp [Instruction.distance?, opcode, Opcode.layout] at distance
    | fallback _ word => exact .inl ⟨_, word, rfl⟩
    | tableCase _ first' last' inside word =>
      obtain rfl := Option.some.inj (first.symm.trans first')
      obtain rfl := Option.some.inj (last.symm.trans last')
      exact .inr ⟨_, inside, _, word, rfl⟩
    | lookupCase opcode' => simp [opcode] at opcode'
  · rintro (⟨n, word, rfl⟩ | ⟨k, inside, n, word, rfl⟩)
    · exact .fallback (by rw [opcode]; rfl) word
    · exact .tableCase opcode first last inside word

/-- A switch over listed keys leads by its default and by every pair. -/
theorem leads_lookup {pairs : Int32} (opcode : i.opcode = .lookupswitch)
    (count : i.operands.i32At? (padding i.offset + 4) = some pairs) :
    i.Leads d ↔ (∃ n, i.operands.i32At? (padding i.offset) = some n ∧ n.toInt = d) ∨
      ∃ k < pairs.toInt.toNat, ∃ n,
        i.operands.i32At? (padding i.offset + (8 + (k * 8 + 4))) = some n ∧ n.toInt = d := by
  constructor
  · intro leads
    cases leads with
    | branch distance => simp [Instruction.distance?, opcode, Opcode.layout] at distance
    | fallback _ word => exact .inl ⟨_, word, rfl⟩
    | tableCase opcode' => simp [opcode] at opcode'
    | lookupCase _ count' inside word =>
      obtain rfl := Option.some.inj (count.symm.trans count')
      exact .inr ⟨_, inside, _, word, rfl⟩
  · rintro (⟨n, word, rfl⟩ | ⟨k, inside, n, word, rfl⟩)
    · exact .fallback (by rw [opcode]; rfl) word
    · exact .lookupCase opcode count inside word

/-- The distances that are found for a switch are the default and those of all its cases. -/
theorem mem_switchDistances (whole : i.Whole) (switch : i.opcode.isSwitch = true) :
    d ∈ i.switchDistances ↔ i.Leads d := by
  cases whole with
  | fixed layout =>
    rcases isSwitch_iff.mp switch with opcode | opcode <;> rw [opcode] at layout <;> cases layout
  | @table low high opcode first last ordered length =>
    obtain ⟨n, word⟩ := Bytes.exists_i32At? i.operands (padding i.offset) (by omega)
    simp only [switchDistances, opcode, Bytes.i32At?_drop, Nat.add_zero, word, first, last,
      List.mem_cons, mem_take_words (getElem?_tableDistances _), leads_table opcode first last]
    simp [caseCount, eq_comm]
  | @lookup pairs opcode count ordered length =>
    obtain ⟨n, word⟩ := Bytes.exists_i32At? i.operands (padding i.offset) (by omega)
    simp only [switchDistances, opcode, Bytes.i32At?_drop, Nat.add_zero, word, count,
      List.mem_cons, mem_take_words (getElem?_pairDistances _), leads_lookup opcode count]
    simp [eq_comm]
  | wide opcode =>
    rw [opcode] at switch
    cases switch

theorem leads_of_other (noBranch : i.opcode.isBranch = false)
    (noSwitch : i.opcode.isSwitch = false) : ¬i.Leads d := by
  intro leads
  cases leads with
  | branch distance => simp [distance?_eq_none noBranch] at distance
  | fallback switch => simp [noSwitch] at switch
  | tableCase opcode | lookupCase opcode => simp [opcode, Opcode.isSwitch] at noSwitch

/-- The offsets found for an instruction that is no branch are those of its jumps that do not lead
before the start of the code. -/
theorem mem_switchTargets (whole : i.Whole) (noBranch : i.opcode.isBranch = false) {target : Nat} :
    target ∈ i.switchTargets ↔ ∃ d, i.Leads d ∧ i.offset + d = target := by
  simp only [switchTargets, List.mem_filterMap, at?_eq_some]
  refine exists_congr fun d => and_congr_left fun _ => ?_
  cases switch : i.opcode.isSwitch with
  | true => exact mem_switchDistances whole switch
  | false => simp [switchDistances_other switch, leads_of_other noBranch switch]

end Instruction

end ClassBench
