import ClassBench.Proofs.Pool.Scan

/-! How far reading a pool goes.  The loop compares a 16-bit word with the declared count, and the
word tells the number of slots as long as there are at most 65535.  Only a wide entry at slot 65534
leads past that number, and only where 65535 is declared; then the word is zero and reading starts
over.  Every other pool ends where it was declared to. -/

namespace ClassBench

theorem Constant.isWide_of_two_le {c : Constant} (two : 2 ≤ c.slots.length) : c.isWide = true := by
  unfold slots at two
  split at two
  · assumption
  · contradiction

theorem Constant.slots_length_wide {c : Constant} (wide : c.isWide = true) :
    c.slots.length = 2 := by
  rw [slots, if_pos wide]
  rfl

namespace Pool

variable {pool : Pool} {front back : List Constant} {c : Constant} {declared : UInt16}
  {i : Nat}

/-! ### Entries and their slots -/

theorem toList_slots_around (around : pool.entries = front ++ c :: back) : pool.slots.toList =
    none :: front.flatMap Constant.slots ++ (c.slots ++ back.flatMap Constant.slots) := by
  rw [pool.toList_slots, around, List.flatMap_append, List.flatMap_cons, List.cons_append]

/-- An entry stands behind slot 0 and the slots of the entries before it. -/
theorem getElem?_around (around : pool.entries = front ++ c :: back) :
    pool.slots[1 + (front.flatMap Constant.slots).length]? = some (some c) := by
  have first := c.slots_length_pos
  have start : (none :: front.flatMap Constant.slots).length =
      1 + (front.flatMap Constant.slots).length := Nat.add_comm _ _
  rw [← Array.getElem?_toList, toList_slots_around around, ← start,
    List.getElem?_append_right (Nat.le_refl _), Nat.sub_self, List.getElem?_append_left first,
    Constant.getElem?_slots]
  exact ⟨rfl, rfl⟩

theorem size_around (around : pool.entries = front ++ c :: back) : pool.slots.size =
    1 + (front.flatMap Constant.slots).length + c.slots.length +
      (back.flatMap Constant.slots).length := by
  have all := congrArg List.length (toList_slots_around around)
  simp only [Array.length_toList, List.length_append, List.length_cons] at all
  omega

/-- Every slot behind slot 0 belongs to an entry. -/
theorem exists_holder (first : 0 < i) (inside : i < pool.slots.size) : ∃ front c back,
    pool.entries = front ++ c :: back ∧ 1 + (front.flatMap Constant.slots).length ≤ i ∧
      i < 1 + (front.flatMap Constant.slots).length + c.slots.length := by
  rw [pool.size_slots] at inside
  have place : i - 1 < (pool.entries.flatMap Constant.slots).length := by omega
  obtain ⟨front, c, back, around, low, high⟩ := List.exists_around_flatMap place
  exact ⟨front, c, back, around, by omega, by omega⟩

/-- An entry has all of its slots in the pool. -/
theorem slots_length_le_size (found : pool.slots[i]? = some (some c)) :
    i + c.slots.length ≤ pool.slots.size := by
  obtain ⟨inside, here⟩ := Array.getElem?_eq_some_iff.mp found
  have first : 0 < i := by
    by_contra zero
    obtain rfl : i = 0 := by omega
    rw [← Array.getElem?_toList, pool.toList_slots] at found
    cases found
  obtain ⟨front, e, back, around, low, high⟩ := exists_holder first inside
  have start : 1 + (front.flatMap Constant.slots).length =
      (none :: front.flatMap Constant.slots).length := Nat.add_comm _ _
  rw [← Array.getElem?_toList, toList_slots_around around,
    List.getElem?_append_right (by omega), List.getElem?_append_left (by omega),
    Constant.getElem?_slots] at found
  obtain ⟨same, rfl⟩ := found
  have size := size_around around
  omega

/-! ### Where reading stops -/

/-- A wide entry stands at a slot. -/
def WideAt (pool : Pool) (i : Nat) : Prop :=
  ∃ c, pool.slots[i]? = some (some c) ∧ c.isWide = true

/-- A pool has as many slots as declared, or one more for a wide entry at its end, and every entry
stands below the declared number. -/
structure StopsAt (pool : Pool) (declared : Nat) : Prop where
  size : pool.slots.size = declared ∨ pool.slots.size = declared + 1 ∧
    ∃ c, pool.entries.getLast? = some c ∧ c.isWide = true
  below : ∀ i c, pool.slots[i]? = some (some c) → i < declared

/-- As long as the word tells the number of slots, reading stops where it should. -/
theorem Runs.stopsAt (runs : Runs (GoesOn declared) 1 pool.entries) (some : 0 < declared.toNat)
    (few : pool.slots.size ≤ 65535) : pool.StopsAt declared.toNat := by
  obtain ⟨within, ends⟩ := runs_slots_iff.mp runs
  simp only [GoesOn] at within ends
  have below (i : Nat) (c : Constant) (found : pool.slots[i]? = .some (.some c)) :
      i < declared.toNat := by
    have here := within i c found
    have inside := slots_length_le_size found
    have width := c.slots_length_pos
    omega
  refine ⟨?_, below⟩
  rcases List.eq_nil_or_concat' pool.entries with none | ⟨front, c, around⟩
  · have size := pool.size_slots
    rw [none, List.flatMap_nil, List.length_nil] at size
    omega
  · have size := size_around around
    have last := below _ c (getElem?_around around)
    have width := c.slots_length_le
    rw [List.flatMap_nil, List.length_nil] at size
    by_cases exact : pool.slots.size = declared.toNat
    · exact .inl exact
    · refine .inr ⟨by omega, c, ?_, Constant.isWide_of_two_le (by omega)⟩
      rw [around, List.getLast?_concat]

/-- Wherever the word comes to wrap, a wide entry stands across. -/
theorem Runs.wideAt (runs : Runs (GoesOn declared) 1 pool.entries) (lap : Nat)
    (many : 65536 * (lap + 1) ≤ pool.slots.size) :
    declared = 65535 ∧ pool.WideAt (65536 * lap + 65534) := by
  obtain ⟨within, -⟩ := runs_slots_iff.mp runs
  have inside : 65536 * lap + 65535 < pool.slots.size := by omega
  obtain ⟨front, c, back, around, low, high⟩ := exists_holder (by omega) inside
  have here := getElem?_around around
  have more := within _ c here
  have bound := declared.toNat_lt
  have width := c.slots_length_le
  rw [GoesOn] at more
  -- No entry begins where the word is 65535, so the one that takes this slot begins before it.
  obtain same : 1 + (front.flatMap Constant.slots).length = 65536 * lap + 65534 := by omega
  rw [same] at here
  refine ⟨?_, c, here, Constant.isWide_of_two_le (by omega)⟩
  apply UInt16.toNat_inj.mp
  show declared.toNat = 65535
  omega

theorem WideAt.lt_size (wide : pool.WideAt i) : i + 1 < pool.slots.size := by
  obtain ⟨c, found, wide⟩ := wide
  have inside := slots_length_le_size found
  rw [Constant.slots_length_wide wide] at inside
  omega

/-- Reading stops where it should unless it is led past the last slot that the word tells. -/
theorem Runs.stopsAt_iff (runs : Runs (GoesOn declared) 1 pool.entries)
    (some : 0 < declared.toNat) :
    pool.StopsAt declared.toNat ↔ ¬(declared = 65535 ∧ pool.WideAt 65534) := by
  rcases Nat.lt_or_ge 65535 pool.slots.size with many | few
  · obtain ⟨rfl, wide⟩ := runs.wideAt 0 many
    refine iff_of_false (fun stops => ?_) (not_not_intro ⟨rfl, wide⟩)
    obtain ⟨-, ends⟩ := runs_slots_iff.mp runs
    rw [GoesOn] at ends
    have word : (65535 : UInt16).toNat = 65535 := rfl
    have size := stops.size
    omega
  · refine iff_of_true (runs.stopsAt some few) ?_
    rintro ⟨-, wide⟩
    have inside := wide.lt_size
    omega

/-- What is read as a pool is its declared count and its entries.  Where the count is not zero, the
pool ends as declared exactly if it does not have a wide entry at slot 65534 and 65535 declared.  In
that case reading goes round, again at each wide entry that stands across, and stops one slot before
a full round. -/
theorem reading_stops_unless_led_past (cursor after : Cursor) (pool : Pool)
    (found : read cursor = .ok pool after) : ∃ declared bytes,
      cursor.rest = Bytes.ofUInt16 declared ++ bytes ++ after.rest ∧
      Spells bytes pool.entries ∧
      (0 < declared →
        (pool.StopsAt declared.toNat ↔ ¬(declared = 65535 ∧ pool.WideAt 65534))) ∧
      (declared = 65535 → pool.WideAt 65534 → ∃ laps, 0 < laps ∧
        pool.slots.size = 65536 * laps + 65535 ∧
        ∀ lap < laps, pool.WideAt (65536 * lap + 65534)) := by
  obtain ⟨taken, split, -, declared, bytes, rfl, spelled, runs⟩ := takes_pool pool after found
  refine ⟨declared, bytes, split, spelled, fun some => ?_, fun most wide => ?_⟩
  · exact runs.stopsAt_iff (UInt16.lt_iff_toNat_lt.mp some)
  · subst most
    obtain ⟨-, ends⟩ := runs_slots_iff.mp runs
    have inside := wide.lt_size
    have word : (65535 : UInt16).toNat = 65535 := rfl
    rw [GoesOn, word] at ends
    refine ⟨pool.slots.size / 65536, by omega, by omega, fun lap before => ?_⟩
    exact (runs.wideAt lap (by omega)).2

/-- A pool with a wide entry at its end, which takes a slot more than declared. -/
theorem reading_stops_unless_led_past_wide :
    let cursor : Cursor := ⟨[0, 3, 1, 0, 1, 65, 5, 0, 0, 0, 0, 0, 0, 0, 7, 9], 0⟩
    let pool := empty.pushAll [.utf8 "A", .long 7]
    read cursor = .ok pool ⟨[9], 15⟩ ∧ pool.slots.size = 4 ∧ pool.StopsAt 3 := by
  intro cursor pool
  have found : read cursor = .ok pool ⟨[9], 15⟩ := by rfl
  have size : pool.slots.size = 4 := by decide
  obtain ⟨declared, bytes, split, -, stops, -⟩ :=
    reading_stops_unless_led_past cursor ⟨[9], 15⟩ pool found
  have told := Bytes.u16At?_length [] (bytes ++ [9]) declared
  rw [List.nil_append, ← List.append_assoc, ← split] at told
  obtain rfl : 3 = declared := Option.some.inj told
  refine ⟨found, size, (stops (by decide)).mpr ?_⟩
  rintro ⟨most, -⟩
  contradiction

theorem read_classesAround {name : String} {n m : Nat} (short : (Constant.utf8 name).Fits)
    (first : n = 65531) (second : m = 65535) :
    let bytes := Bytes.ofUInt16 65535 ++ (classesAround name n m).flatMap Constant.encode
    ∃ pool after, read ⟨bytes, 0⟩ = .ok pool after ∧ bytes.u16At? 0 = some 65535 ∧
      pool.slots.size = 131071 ∧ ¬pool.StopsAt 65535 := by
  intro bytes
  have spelled := spells_encode (fits_classesAround (n := n) (m := m) short)
  have found := spelled.reads_pool (runs_classesAround first second) [] 0
  rw [List.append_nil] at found
  have size : (empty.pushAll (classesAround name n m)).slots.size = 131071 := by
    rw [size_slots, entries_pushAll, length_classesAround]
    omega
  refine ⟨_, _, found, Bytes.u16At?_length [] _ _, size, fun stops => ?_⟩
  have ends := stops.size
  omega

/-- With 65535 declared, a wide entry at slot 65534 and as many entries behind it as fill another
round, reading takes them all. -/
theorem wide_entry_leads_past :
    let entries := classesAround "A" 65531 65535
    let bytes := Bytes.ofUInt16 65535 ++ entries.flatMap Constant.encode
    ∃ pool after, read ⟨bytes, 0⟩ = .ok pool after ∧ bytes.u16At? 0 = some 65535 ∧
      pool.slots.size = 131071 ∧ ¬pool.StopsAt 65535 :=
  read_classesAround (by decide +kernel) rfl rfl

end Pool

end ClassBench
