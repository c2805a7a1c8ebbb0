import ClassBench.Proofs.Instruction.Jump
import ClassBench.Proofs.Instruction.Splitting

/-! What the accessors say of an instruction that splitting has found.  Its operands fill their
layout, so an accessor finds what it looks for wherever the layout has it.  The operands of a branch
and of a switch spell distances, and the targets are the places at these distances, in their order,
without those that would lie before the start of the code. -/

namespace ClassBench

/-! ### Rows of words -/

namespace Bytes

variable {bytes : Bytes} {index : Nat}

theorem u32_ofInt32 (n : Int32) :
    (Word.u32 (n.toUInt32.toNat / 16777216).toUInt8 (n.toUInt32.toNat / 65536).toUInt8
      (n.toUInt32.toNat / 256).toUInt8 n.toUInt32.toNat.toUInt8).toInt32 = n := by
  rw [Word.u32_bytes, Int32.toInt32_toUInt32]

theorem i32At?_ofInt32 (n : Int32) (rest : Bytes) : i32At? (ofInt32 n ++ rest) 0 = some n := by
  simp only [i32At?, ofInt32, ofUInt32, List.cons_append, List.nil_append, List.drop_zero,
    u32_ofInt32]

theorem i32At?_second (a b : Int32) (rest : Bytes) :
    i32At? (ofInt32 a ++ (ofInt32 b ++ rest)) 4 = some b := i32At?_ofInt32 b rest

theorem i32At?_third (a b c : Int32) (rest : Bytes) :
    i32At? (ofInt32 a ++ (ofInt32 b ++ (ofInt32 c ++ rest))) 8 = some c := i32At?_ofInt32 c rest

theorem exists_ofUInt16 (length : bytes.length = 2) : ∃ w, ofUInt16 w = bytes := by
  match bytes, length with
  | [a, b], _ => exact ⟨_, ofUInt16_u16 a b⟩

theorem exists_ofInt32_append (bytes : Bytes) (enough : 4 ≤ bytes.length) :
    ∃ n rest, ofInt32 n ++ rest = bytes ∧ rest.length + 4 = bytes.length := by
  match bytes, enough with
  | a :: b :: c :: d :: rest, _ =>
    refine ⟨(Word.u32 a b c d).toInt32, rest, ?_, rfl⟩
    rw [ofInt32, UInt32.toUInt32_toInt32, ofUInt32_u32]
    rfl

theorem exists_ofInt32 (bytes : Bytes) (length : bytes.length = 4) : ∃ n, ofInt32 n = bytes := by
  obtain ⟨n, rest, rfl, size⟩ := exists_ofInt32_append bytes (Nat.le_of_eq length.symm)
  obtain rfl : rest = [] := List.eq_nil_of_length_eq_zero (by omega)
  exact ⟨n, (List.append_nil _).symm⟩

theorem exists_ofInt32_pair (bytes : Bytes) (length : bytes.length = 8) :
    ∃ pair : Int32 × Int32, ofInt32 pair.1 ++ ofInt32 pair.2 = bytes := by
  obtain ⟨key, rest, rfl, size⟩ := exists_ofInt32_append bytes (by omega)
  obtain ⟨n, rfl⟩ := exists_ofInt32 rest (by omega)
  exact ⟨(key, n), rfl⟩

/-- Where every byte string of one length spells an item, one that is `count` times as long spells
a row of items. -/
theorem exists_row {α : Type} {write : α → Bytes} {width : Nat}
    (each : ∀ bytes : Bytes, bytes.length = width → ∃ a, write a = bytes) (count : Nat)
    (bytes : Bytes) (length : bytes.length = count * width) :
    ∃ items : List α, items.length = count ∧ items.flatMap write = bytes := by
  induction count generalizing bytes with
  | zero =>
    have empty : bytes = [] := List.eq_nil_of_length_eq_zero (by omega)
    exact ⟨[], rfl, empty.symm⟩
  | succ count ih =>
    rw [Nat.succ_mul] at length
    obtain ⟨first, here⟩ := each (bytes.take width) (by rw [List.length_take]; omega)
    obtain ⟨rest, size, later⟩ := ih (bytes.drop width) (by rw [List.length_drop]; omega)
    refine ⟨first :: rest, by rw [List.length_cons, size], ?_⟩
    rw [List.flatMap_cons, here, later, List.take_append_drop]

theorem exists_table (bytes : Bytes) (count : Nat) (length : bytes.length = 12 + count * 4) :
    ∃ fallback low high, ∃ cases : List Int32, cases.length = count ∧
      bytes = ofInt32 fallback ++ (ofInt32 low ++ (ofInt32 high ++ cases.flatMap ofInt32)) := by
  obtain ⟨fallback, behind, rfl, size⟩ := exists_ofInt32_append bytes (by omega)
  obtain ⟨low, behind', rfl, size'⟩ := exists_ofInt32_append behind (by omega)
  obtain ⟨high, rest, rfl, size''⟩ := exists_ofInt32_append behind' (by omega)
  obtain ⟨cases, counted, rfl⟩ := exists_row exists_ofInt32 count rest (by omega)
  exact ⟨fallback, low, high, cases, counted, rfl⟩

theorem exists_pairs (bytes : Bytes) (count : Nat) (length : bytes.length = 8 + count * 8) :
    ∃ fallback n, ∃ pairs : List (Int32 × Int32), pairs.length = count ∧
      bytes = ofInt32 fallback ++ (ofInt32 n ++
        pairs.flatMap fun pair => ofInt32 pair.1 ++ ofInt32 pair.2) := by
  obtain ⟨fallback, behind, rfl, size⟩ := exists_ofInt32_append bytes (by omega)
  obtain ⟨n, rest, rfl, size'⟩ := exists_ofInt32_append behind (by omega)
  obtain ⟨pairs, counted, rfl⟩ := exists_row exists_ofInt32_pair count rest (by omega)
  exact ⟨fallback, n, pairs, counted, rfl⟩

end Bytes

namespace Instruction

variable {i : Instruction} {code : Bytes} {is : List Instruction}

/-! ### Indices and numbers -/

theorem Whole.three_le (whole : i.Whole) (layout : i.opcode.layout = .wide) :
    3 ≤ i.operands.length := by
  cases whole with
  | fixed sized =>
    rw [layout] at sized
    cases sized
  | table opcode | lookup opcode =>
    rw [opcode] at layout
    cases layout
  | wide _ _ form => rcases wideLength?_eq_some.mp form with ⟨-, length⟩ | ⟨-, length⟩ <;> omega

theorem Whole.isSome_poolIndex? (whole : i.Whole) : i.poolIndex?.isSome = true ↔
    i.opcode.layout ∈ [.shortIndex, .poolIndex, .interfaceCall, .dynamicCall,
      .arrayDimensions] := by
  have length {size : Nat} (fixed : i.opcode.layout.size? = some size) := whole.length_eq fixed
  cases layout : i.opcode.layout with
  | shortIndex | poolIndex | interfaceCall | dynamicCall | arrayDimensions =>
    rw [layout] at length
    simp [poolIndex?, layout, Bytes.isSome_u8At?, Bytes.isSome_u16At?, length rfl]
  | plain | localIndex | signedByte | signedShort | branch | longBranch | increment
  | elementType | tableSwitch | lookupSwitch | wide => simp [poolIndex?, layout]

theorem Whole.isSome_localIndex? (whole : i.Whole) : i.localIndex?.isSome = true ↔
    i.opcode.layout ∈ [.localIndex, .increment, .wide] := by
  have length {size : Nat} (fixed : i.opcode.layout.size? = some size) := whole.length_eq fixed
  cases layout : i.opcode.layout with
  | localIndex | increment =>
    rw [layout] at length
    simp [localIndex?, layout, Bytes.isSome_u8At?, length rfl]
  | wide => simp [localIndex?, layout, Bytes.isSome_u16At?, whole.three_le layout]
  | plain | signedByte | signedShort | shortIndex | poolIndex | branch | longBranch
  | interfaceCall | dynamicCall | arrayDimensions | elementType | tableSwitch
  | lookupSwitch => simp [localIndex?, layout]

theorem Whole.isSome_immediate? (whole : i.Whole) : i.immediate?.isSome = true ↔
    i.opcode.layout ∈ [.signedByte, .signedShort, .increment] := by
  have length {size : Nat} (fixed : i.opcode.layout.size? = some size) := whole.length_eq fixed
  cases layout : i.opcode.layout with
  | signedByte | signedShort | increment =>
    rw [layout] at length
    simp [immediate?, layout, Bytes.isSome_u8At?, Bytes.isSome_u16At?, length rfl]
  | plain | localIndex | shortIndex | poolIndex | branch | longBranch | interfaceCall
  | dynamicCall | arrayDimensions | elementType | tableSwitch | lookupSwitch
  | wide => simp [immediate?, layout]

/-! ### Distances -/

/-- The distance of a branch, as its operands spell it. -/
inductive Branches (i : Instruction) : Int → Prop
  | short {w : UInt16} (layout : i.opcode.layout = .branch)
      (spelled : i.operands = Bytes.ofUInt16 w) : Branches i w.toInt16.toInt
  | long {n : Int32} (layout : i.opcode.layout = .longBranch)
      (spelled : i.operands = Bytes.ofInt32 n) : Branches i n.toInt

/-- The distances of a switch in their order, as its operands spell them.  At the next multiple of
four stand the default, the bounds of the keys or the number of pairs, and then the cases. -/
inductive Switches (i : Instruction) : List Int32 → Prop
  | table {pad : Bytes} {fallback low high : Int32} {cases : List Int32}
      (opcode : i.opcode = .tableswitch) (near : pad.length < 4)
      (aligned : 4 ∣ i.offset + 1 + pad.length)
      (counted : (cases.length : Int) = high.toInt - low.toInt + 1)
      (spelled : i.operands = pad ++ (Bytes.ofInt32 fallback ++ (Bytes.ofInt32 low ++
        (Bytes.ofInt32 high ++ cases.flatMap Bytes.ofInt32)))) :
      Switches i (fallback :: cases)
  | lookup {pad : Bytes} {fallback count : Int32} {pairs : List (Int32 × Int32)}
      (opcode : i.opcode = .lookupswitch) (near : pad.length < 4)
      (aligned : 4 ∣ i.offset + 1 + pad.length) (counted : (pairs.length : Int) = count.toInt)
      (spelled : i.operands = pad ++ (Bytes.ofInt32 fallback ++ (Bytes.ofInt32 count ++
        pairs.flatMap fun pair => Bytes.ofInt32 pair.1 ++ Bytes.ofInt32 pair.2))) :
      Switches i (fallback :: pairs.map Prod.snd)

theorem Whole.exists_branches (whole : i.Whole) (branch : i.opcode.isBranch = true) :
    ∃ d, i.Branches d := by
  simp only [Opcode.isBranch, Bool.or_eq_true, decide_eq_true_eq] at branch
  rcases branch with layout | layout
  · obtain ⟨w, spelled⟩ := Bytes.exists_ofUInt16 (whole.length_eq (by rw [layout]; rfl))
    exact ⟨_, .short layout spelled.symm⟩
  · obtain ⟨n, spelled⟩ := Bytes.exists_ofInt32 _ (whole.length_eq (by rw [layout]; rfl))
    exact ⟨_, .long layout spelled.symm⟩

theorem Branches.distance? {d : Int} (branches : i.Branches d) : i.distance? = some d := by
  cases branches with
  | @short w layout spelled =>
    have word : Bytes.u16At? (Bytes.ofUInt16 w) 0 = some w := Bytes.u16At?_length [] [] w
    simp only [Instruction.distance?, layout, spelled, word, Option.map_some]
  | @long n layout spelled =>
    have word : Bytes.i32At? (Bytes.ofInt32 n) 0 = some n := Bytes.i32At?_ofInt32 n []
    simp only [Instruction.distance?, layout, spelled, word, Option.map_some]

theorem Whole.exists_switches (whole : i.Whole) (switch : i.opcode.isSwitch = true) :
    ∃ ds, i.Switches ds := by
  have near := padding_lt i.offset
  have aligned := padding_aligns i.offset
  have parts : i.operands = i.operands.take (padding i.offset) ++
      i.operands.drop (padding i.offset) := (List.take_append_drop _ _).symm
  cases whole with
  | fixed layout =>
    rcases isSwitch_iff.mp switch with opcode | opcode <;> rw [opcode] at layout <;> cases layout
  | @table low high opcode first last ordered length =>
    have padded : (i.operands.take (padding i.offset)).length = padding i.offset :=
      List.length_take_of_le (by omega)
    obtain ⟨fallback, low', high', cases, counted, spelled⟩ :=
      Bytes.exists_table (i.operands.drop (padding i.offset)) (caseCount low high)
        (by rw [List.length_drop]; omega)
    -- The bounds that gave the table its length are the second and the third of its words.
    rw [← Bytes.i32At?_drop, spelled, Bytes.i32At?_second] at first
    rw [← Bytes.i32At?_drop, spelled, Bytes.i32At?_third] at last
    obtain rfl := Option.some.inj first
    obtain rfl := Option.some.inj last
    rw [← padded] at near aligned
    rw [spelled] at parts
    refine ⟨_, .table opcode near aligned ?_ parts⟩
    rw [Int32.le_iff_toInt_le] at ordered
    rw [counted, caseCount]
    omega
  | @lookup number opcode count ordered length =>
    have padded : (i.operands.take (padding i.offset)).length = padding i.offset :=
      List.length_take_of_le (by omega)
    obtain ⟨fallback, number', pairs, counted, spelled⟩ :=
      Bytes.exists_pairs (i.operands.drop (padding i.offset)) number.toInt.toNat
        (by rw [List.length_drop]; omega)
    rw [← Bytes.i32At?_drop, spelled, Bytes.i32At?_second] at count
    obtain rfl := Option.some.inj count
    rw [← padded] at near aligned
    rw [spelled] at parts
    refine ⟨_, .lookup opcode near aligned ?_ parts⟩
    rw [Int32.le_iff_toInt_le] at ordered
    rw [counted]
    exact Int.toNat_of_nonneg ordered
  | wide opcode =>
    rw [opcode] at switch
    cases switch

theorem tableDistances_flatMap (cases : List Int32) :
    tableDistances [] (cases.flatMap Bytes.ofInt32) = cases.map Int32.toInt := by
  induction cases with
  | nil => rfl
  | cons n cases ih =>
    rw [List.flatMap_cons, Bytes.ofInt32, Bytes.ofUInt32]
    simp only [List.cons_append, List.nil_append]
    rw [tableDistances, tableDistances_append, ih, Bytes.u32_ofInt32]
    rfl

theorem pairDistances_flatMap (pairs : List (Int32 × Int32)) :
    pairDistances [] (pairs.flatMap fun pair => Bytes.ofInt32 pair.1 ++ Bytes.ofInt32 pair.2) =
      pairs.map fun pair => pair.2.toInt := by
  induction pairs with
  | nil => rfl
  | cons pair pairs ih =>
    rw [List.flatMap_cons, Bytes.ofInt32, Bytes.ofInt32, Bytes.ofUInt32, Bytes.ofUInt32]
    simp only [List.cons_append, List.nil_append]
    rw [pairDistances, pairDistances_append, ih, Bytes.u32_ofInt32]
    rfl

theorem Switches.switchDistances {ds : List Int32} (switches : i.Switches ds) :
    i.switchDistances = ds.map Int32.toInt := by
  cases switches with
  | @table pad fallback low high cases opcode near aligned counted spelled =>
    have behind : (Bytes.ofInt32 fallback ++ (Bytes.ofInt32 low ++ (Bytes.ofInt32 high ++
        cases.flatMap Bytes.ofInt32))).drop 12 = cases.flatMap Bytes.ofInt32 := rfl
    -- The front that the count cuts off is all of the table.
    have all : (high.toInt - low.toInt + 1).toNat = (cases.map Int32.toInt).length := by
      rw [List.length_map]
      omega
    simp only [Instruction.switchDistances, opcode, spelled, padding_eq near aligned,
      List.drop_left, Bytes.i32At?_ofInt32, Bytes.i32At?_second, Bytes.i32At?_third, behind,
      tableDistances_flatMap, all, List.take_length, List.map_cons]
  | @lookup pad fallback number pairs opcode near aligned counted spelled =>
    have behind : (Bytes.ofInt32 fallback ++ (Bytes.ofInt32 number ++
        pairs.flatMap fun pair => Bytes.ofInt32 pair.1 ++ Bytes.ofInt32 pair.2)).drop 8 =
          pairs.flatMap fun pair => Bytes.ofInt32 pair.1 ++ Bytes.ofInt32 pair.2 := rfl
    have all : number.toInt.toNat = (pairs.map fun pair => pair.2.toInt).length := by
      rw [List.length_map]
      omega
    simp only [Instruction.switchDistances, opcode, spelled, padding_eq near aligned,
      List.drop_left, Bytes.i32At?_ofInt32, Bytes.i32At?_second, behind, pairDistances_flatMap, all,
      List.take_length, List.map_cons, List.map_map, Function.comp_def]

/-! ### Targets -/

/-- The places at some distances are those that do not lie before the start of the code. -/
theorem map_filterMap_at? (distances : List Int) : (distances.filterMap i.at?).map Int.ofNat =
    (distances.map fun d => (i.offset : Int) + d).filter (0 ≤ ·) := by
  induction distances with
  | nil => rfl
  | cons d distances ih =>
    by_cases within : 0 ≤ i.offset + d
    · have here : i.at? d = some (i.offset + d).toNat := if_pos within
      have back : Int.ofNat (i.offset + d).toNat = i.offset + d := Int.toNat_of_nonneg within
      rw [List.filterMap_cons_some here, List.map_cons, List.map_cons,
        List.filter_cons_of_pos (by simpa using within), ih, back]
    · have nowhere : i.at? d = none := if_neg within
      rw [List.filterMap_cons_none nowhere, List.map_cons,
        List.filter_cons_of_neg (by simpa using within), ih]

theorem Branches.branchTarget? {d : Int} (branches : i.Branches d) :
    i.branchTarget? = i.at? d := by
  rw [Instruction.branchTarget?, branches.distance?, Option.bind_some]

theorem at?_eq_none {d : Int} : i.at? d = none ↔ i.offset + d < 0 := by
  unfold at?
  simp only [ite_eq_right_iff, reduceCtorEq, imp_false, Int.not_le]

/-- The accessors miss nothing that an instruction has among its operands.  The index of an entry,
the local variable and the number are there for just the layouts with such an operand; a branch has
its target unless that would lie before the start of the code; and the targets of a switch are the
default and the cases of its table in order, without those that would lie there. -/
theorem accessors_miss_nothing (found : split code = .ok is) (member : i ∈ is) :
    (i.poolIndex?.isSome = true ↔ i.opcode.layout ∈
      [.shortIndex, .poolIndex, .interfaceCall, .dynamicCall, .arrayDimensions]) ∧
    (i.localIndex?.isSome = true ↔ i.opcode.layout ∈ [.localIndex, .increment, .wide]) ∧
    (i.immediate?.isSome = true ↔
      i.opcode.layout ∈ [.signedByte, .signedShort, .increment]) ∧
    (i.opcode.isBranch = true → ∃ d, i.Branches d ∧
      (i.branchTarget? = none ↔ i.offset + d < 0) ∧
      ∀ target, i.branchTarget? = some target ↔ i.offset + d = target) ∧
    (i.opcode.isSwitch = true → ∃ ds, i.Switches ds ∧
      i.switchTargets.map Int.ofNat =
        (ds.map fun d => (i.offset : Int) + d.toInt).filter (0 ≤ ·)) := by
  have whole := (split_eq_ok.mp found).whole i member
  refine ⟨whole.isSome_poolIndex?, whole.isSome_localIndex?, whole.isSome_immediate?, ?_, ?_⟩
  · intro branch
    obtain ⟨d, branches⟩ := whole.exists_branches branch
    rw [branches.branchTarget?]
    exact ⟨d, branches, at?_eq_none, fun _ => at?_eq_some⟩
  · intro switch
    obtain ⟨ds, switches⟩ := whole.exists_switches switch
    refine ⟨ds, switches, ?_⟩
    rw [switchTargets, switches.switchDistances, map_filterMap_at?, List.map_map]
    rfl

/-- A switch behind one byte: its default leads to the start of the code, its first case before it
and its second to the end. -/
theorem accessors_miss_nothing_switch :
    let i : Instruction := ⟨1, .lookupswitch, [0, 0] ++ (Bytes.ofInt32 (-1) ++ (Bytes.ofInt32 2 ++
      [(-5, -2), (7, 27)].flatMap fun pair : Int32 × Int32 =>
        Bytes.ofInt32 pair.1 ++ Bytes.ofInt32 pair.2))⟩
    let is := [⟨0, .iconst_1, []⟩, i, ⟨28, .return_, []⟩]
    split (is.flatMap bytes) = .ok is ∧ i ∈ is ∧ i.opcode.isSwitch = true ∧
      i.switchTargets = [0, 28] ∧ ∃ ds, i.Switches ds ∧ i.switchTargets.map Int.ofNat =
        (ds.map fun d => (i.offset : Int) + d.toInt).filter (0 ≤ ·) := by
  intro i is
  have found : split (is.flatMap bytes) = .ok is := by
    refine split_eq_ok.mpr (.cons rfl (.fixed rfl) (.cons rfl ?_ (.single rfl (.fixed rfl))))
    exact @Whole.lookup _ 2 rfl (by decide) (by decide) rfl
  have member : i ∈ is := by simp [is]
  obtain ⟨-, -, -, -, switches⟩ := accessors_miss_nothing found member
  exact ⟨found, member, rfl, by decide, switches rfl⟩

end Instruction

end ClassBench
