import ClassBench.Proofs.ClassFile.Layout
import ClassBench.Proofs.Pool.Lookup
import ClassBench.Proofs.Pool.RoundTrip

/-! What the index of a class file tells of the pool that is read from it.  Indexing counts slots
without bound, while reading compares a 16-bit word, so both take the same entries of a pool of at
most 65535 slots.  A pool of more slots has a wide entry at slot 65534, after which the word is zero:
reading goes on, indexing ends, and the index takes its own number of slots for zero.  A class is
found by the bytes of its name, so it is found under the one spelling that is written for it. -/

namespace ClassBench

/-! ### Where the slots run over the count -/

namespace Pool

variable {declared : UInt16} {size : Nat} {bytes : Bytes} {entries front back : List Constant}

/-- Entries that a 16-bit word counts are those that a number counts, up to the slot where the
number no longer fits the word. -/
theorem Runs.unwrapped (runs : Runs (GoesOn declared) size entries) (small : size ≤ 65535) :
    ∃ front back, entries = front ++ back ∧ Runs (· < declared.toNat) size front ∧
      (back = [] ∧ size + (front.flatMap Constant.slots).length ≤ 65535 ∨
        size + (front.flatMap Constant.slots).length = 65536) := by
  have bound := declared.toNat_lt
  induction entries generalizing size with
  | nil =>
    refine ⟨[], [], rfl, ?_, .inl ⟨rfl, small⟩⟩
    simp only [Runs, GoesOn] at runs ⊢
    omega
  | cons c entries ih =>
    obtain ⟨more, runs⟩ := runs
    simp only [GoesOn] at more
    have here : size < declared.toNat := by omega
    have width := c.slots_length_le
    -- Only a wide entry can pass over 65535, the one size that ends every count.
    by_cases next : size + c.slots.length ≤ 65535
    · obtain ⟨front, back, rfl, counted, total⟩ := ih runs next
      refine ⟨c :: front, back, rfl, ⟨here, counted⟩, ?_⟩
      rwa [List.flatMap_cons, List.length_append, ← Nat.add_assoc]
    · refine ⟨[c], entries, rfl, ⟨here, ?_⟩, .inr ?_⟩
      · simp only [Runs]
        omega
      · rw [List.flatMap_cons, List.flatMap_nil, List.append_nil]
        omega

theorem Spells.append_inv (spelled : Spells bytes (front ++ back)) :
    ∃ first second, bytes = first ++ second ∧ Spells first front ∧ Spells second back := by
  induction front generalizing bytes with
  | nil => exact ⟨[], bytes, rfl, .nil, spelled⟩
  | cons c front ih =>
    cases spelled with
    | @cons head _ _ _ entry more =>
      obtain ⟨first, second, rfl, spelled, rest⟩ := ih more
      exact ⟨head ++ first, second, (List.append_assoc ..).symm, .cons entry spelled, rest⟩

end Pool

/-! ### The index -/

namespace PoolIndex

variable {declared offset : Nat} {slots : Array (Option RawEntry)} {bytes : Bytes}
  {entries : List Constant} {index : PoolIndex} {slot : UInt16} {name raw : Bytes}

/-- Indexing takes the entries that its count runs through, and is then complete. -/
theorem fill_of_spells (spelled : Pool.Spells bytes entries)
    (runs : Pool.Runs (· < declared) slots.size entries) (rest : Bytes) :
    fill declared offset slots (bytes ++ rest) =
      ⟨(slots.toList ++
        (RawEntry.row entries.length offset (bytes ++ rest)).flatMap RawEntry.slots).toArray,
        offset + bytes.length, true⟩ := by
  induction spelled generalizing offset slots with
  | nil =>
    rw [fill, if_neg runs]
    simp [RawEntry.row]
  | @cons first more c entries entry _ ih =>
    obtain ⟨further, runs⟩ := runs
    obtain ⟨e, found, rfl⟩ := RawEntry.read?_of_spells entry offset (more ++ rest)
    have denotes : e.Denotes c := entry
    have size : (RawEntry.extend slots e).size = slots.size + c.slots.length := by
      rw [← Array.length_toList, RawEntry.toList_extend, List.length_append, denotes.slots_length,
        Array.length_toList]
    have length : 1 + e.payload.length = e.bytes.length := Nat.add_comm _ _
    rw [fill, if_pos further, List.append_assoc, List.length_cons, RawEntry.row, found]
    simp only [Nat.add_assoc, length, List.drop_left]
    rw [ih (size ▸ runs), RawEntry.toList_extend, List.append_assoc, List.flatMap_cons,
      List.length_append, Nat.add_assoc]

/-- The index of a class file whose entries run up to the declared count. -/
theorem slots_of_spells {b rest : Bytes} {count : UInt16} (told : b.u16At? countOffset = some count)
    (behind : b.drop (countOffset + 2) = bytes ++ rest) (spelled : Pool.Spells bytes entries)
    (runs : Pool.Runs (· < count.toNat) 1 entries) : (parseLenient b).slots.toList =
      none :: (RawEntry.row entries.length (countOffset + 2) (bytes ++ rest)).flatMap
        RawEntry.slots := by
  rw [parseLenient, told]
  simp only [ofCount, behind]
  rw [fill_of_spells spelled runs]
  rfl

/-- Where the index and a pool agree, the index knows the classes of the pool, each by the bytes of
its name. -/
theorem classNameBytes?_eq_some {pool : Pool}
    (agree : ∀ slot, Option.Rel RawEntry.Denotes (index.entry? slot) (pool.get? slot)) :
    index.classNameBytes? slot = some raw ↔
      ∃ name, pool.get? slot = some (.classRef name) ∧ index.textBytes? name = some raw := by
  have here := agree slot
  unfold classNameBytes?
  generalize index.entry? slot = found, pool.get? slot = held at here ⊢
  cases here with
  | none => simp
  | @some e c denotes =>
    by_cases isClass : e.kind = .classRef
    · obtain ⟨name, rfl⟩ : ∃ name, c = .classRef name := by
        rw [denotes.kind_eq] at isClass
        cases c with
        | classRef name => exact ⟨name, rfl⟩
        | _ => contradiction
      simp [isClass, denotes.classRef]
    · constructor
      · intro named
        simp [isClass] at named
      · rintro ⟨name, same, -⟩
        obtain rfl := Option.some.inj same
        exact absurd denotes.kind_eq isClass

/-- Where an entry stands for one of a pool, it has the encoded text of a text there, and of nothing
else. -/
theorem rel_textBytes? {pool : Pool}
    (agree : Option.Rel RawEntry.Denotes (index.entry? slot) (pool.get? slot)) :
    Option.Rel (fun raw text => ModifiedUtf8.decode raw 0 = .ok text) (index.textBytes? slot)
      (pool.utf8? slot) := by
  unfold textBytes? Pool.utf8?
  generalize index.entry? slot = here, pool.get? slot = held at agree ⊢
  cases agree with
  | none => exact .none
  | @some e c denotes =>
    have kinds := denotes.kind_eq
    cases c with
    | utf8 text =>
      obtain ⟨raw, known, decoded, -⟩ := denotes.text
      rw [Option.bind_some, known]
      exact .some decoded
    | _ =>
      have other : e.text? = none := by
        rw [RawEntry.text?, kinds]
        rfl
      rw [Option.bind_some, other]
      exact .none

theorem utf8?_of_textBytes? {pool : Pool}
    (agree : Option.Rel RawEntry.Denotes (index.entry? slot) (pool.get? slot))
    (found : index.textBytes? slot = some raw) :
    ∃ text, pool.utf8? slot = some text ∧ ModifiedUtf8.decode raw 0 = .ok text := by
  have texts := rel_textBytes? agree
  rw [found] at texts
  generalize pool.utf8? slot = held at texts ⊢
  cases texts with
  | some decoded => exact ⟨_, rfl, decoded⟩

end PoolIndex

/-! ### The index of a class -/

namespace ClassFile

variable {b : Bytes} {c : ClassFile} {declared : UInt16}

/-- The index has the entries of a pool that its count can tell, and of any other pool as many slots
as make its own count zero. -/
theorem PoolLayout.index_slots (layout : c.PoolLayout b declared) :
    c.pool.slots.size ≤ 65535 ∧ (PoolIndex.parseLenient b).slots.toList =
        none :: (c.rawEntries b).flatMap RawEntry.slots ∨
      65535 < c.pool.slots.size ∧ (PoolIndex.parseLenient b).slots.size = 65536 := by
  obtain ⟨front, back, whole, counted, total⟩ := layout.runs.unwrapped (by decide)
  obtain ⟨first, second, split, spelled, -⟩ := (whole ▸ layout.spelled).append_inv
  have behind : b.drop (PoolIndex.countOffset + 2) = first ++ (second ++ c.tail) := by
    rw [layout.drop_eq, split, List.append_assoc]
  -- The index stops behind the front part, be it the whole or up to the slot where the word wraps.
  have slots := PoolIndex.slots_of_spells layout.declared_eq behind spelled counted
  rw [← behind] at slots
  have all := c.pool.size_slots
  rw [whole, List.flatMap_append, List.length_append] at all
  rcases total with ⟨rfl, total⟩ | total
  · left
    refine ⟨?_, ?_⟩
    · rw [List.flatMap_nil, List.length_nil] at all
      omega
    · rw [slots, rawEntries, whole, List.append_nil]
  · right
    refine ⟨by omega, ?_⟩
    have denote := (RawEntry.row_of_spells spelled (PoolIndex.countOffset + 2)
      (second ++ c.tail)).1
    have width := RawEntry.length_slots denote
    rw [← Array.length_toList, slots, behind, List.length_cons, width]
    omega

theorem PoolLayout.references_of_many (layout : c.PoolLayout b declared)
    (many : 65535 < c.pool.slots.size) (symbol : String) : references b symbol = false := by
  apply PoolIndex.references_of_wrapped
  rcases layout.index_slots with ⟨few, -⟩ | ⟨-, wrapped⟩
  · omega
  · exact wrapped

theorem PoolLayout.slots_of_few (layout : c.PoolLayout b declared)
    (few : c.pool.slots.size ≤ 65535) :
    (PoolIndex.parseLenient b).slots.toList =
      none :: (c.rawEntries b).flatMap RawEntry.slots := by
  rcases layout.index_slots with ⟨-, slots⟩ | ⟨many, -⟩
  · exact slots
  · omega

theorem PoolLayout.size_of_few (layout : c.PoolLayout b declared)
    (few : c.pool.slots.size ≤ 65535) :
    (PoolIndex.parseLenient b).slots.size ≤ 65535 := by
  have width := RawEntry.length_slots layout.denote
  have all := c.pool.size_slots
  rw [← Array.length_toList, layout.slots_of_few few, List.length_cons, width]
  omega

theorem PoolLayout.references_of_few (layout : c.PoolLayout b declared)
    (few : c.pool.slots.size ≤ 65535) (symbol : String) :
    references b symbol = true ↔ ∃ slot name, c.pool.get? slot = some (.classRef name) ∧
      c.pool.className? slot = some symbol ∧
      c.rawText? b name = some (ModifiedUtf8.encode symbol) := by
  have same : PoolIndex.entry? (PoolIndex.parseLenient b) = c.rawSlot? b := by
    funext slot
    rw [PoolIndex.entry?_eq, rawSlot?, layout.slots_of_few few]
  have agree := layout.rel_slot
  rw [← same] at agree
  have texts (name : UInt16) : (PoolIndex.parseLenient b).textBytes? name = c.rawText? b name := by
    rw [PoolIndex.textBytes?, same, rawText?]
  have found : references b symbol = true ↔
      ∃ slot, (PoolIndex.parseLenient b).classNameBytes? slot = some (ModifiedUtf8.encode symbol) :=
    PoolIndex.references_iff (PoolIndex.intact_parseLenient b) (layout.size_of_few few)
  rw [found]
  refine exists_congr fun slot => ?_
  rw [PoolIndex.classNameBytes?_eq_some agree]
  refine exists_congr fun name => and_congr_right fun isClass => ?_
  rw [← texts]
  -- Bytes that are those of the symbol are read as the symbol.
  refine (and_iff_right_of_imp fun spelled => ?_).symm
  obtain ⟨text, held, decoded⟩ := PoolIndex.utf8?_of_textBytes? (agree name) spelled
  rw [ModifiedUtf8.decode_encoded, Except.ok.injEq] at decoded
  rw [Pool.className?, isClass, decoded]
  exact held

/-- A class that is found in the bytes of a class file is one of its pool.  One of the pool is found
exactly under the bytes that are written for its name, as long as the count of the pool tells its
slots. -/
theorem references_iff_as_written (b : Bytes) (c : ClassFile) (decoded : decode b = .ok c)
    (symbol : String) :
    (references b symbol = true → ∃ slot, c.pool.className? slot = some symbol) ∧
      (c.pool.slots.size ≤ 65535 →
        (references b symbol = true ↔ ∃ slot name, c.pool.get? slot = some (.classRef name) ∧
          c.pool.className? slot = some symbol ∧
          c.rawText? b name = some (ModifiedUtf8.encode symbol))) := by
  obtain ⟨declared, layout⟩ := layout_of_decode decoded
  refine ⟨fun found => ?_, fun few => layout.references_of_few few symbol⟩
  by_cases few : c.pool.slots.size ≤ 65535
  · obtain ⟨slot, _, -, named, -⟩ := (layout.references_of_few few symbol).mp found
    exact ⟨slot, named⟩
  · rw [layout.references_of_many (Nat.lt_of_not_le few)] at found
    contradiction

/-- A class is found under its name, next to one whose name takes a byte more than it needs. -/
theorem references_iff_as_written_pair :
    let b : Bytes := [0xCA, 0xFE, 0xBA, 0xBE, 0, 0, 0, 52, 0, 5, 1, 0, 1, 65, 7, 0, 1,
      1, 0, 2, 0xC1, 0x82, 7, 0, 3, 0, 33, 0, 2, 0, 0, 0, 0, 0, 0, 0, 0, 0, 0]
    let pool := ((do
      let _ ← Pool.classRef "A"
      Pool.classRef "B" : StateM Pool UInt16) Pool.empty).2
    let c : ClassFile := { pool, thisClass := 2, superClass := 0 }
    decode b = .ok c ∧ c.pool.slots.size ≤ 65535 ∧ references b "A" = true ∧
      (∃ slot, c.pool.className? slot = some "A") ∧
      ∃ slot name, c.pool.get? slot = some (.classRef name) ∧
        c.pool.className? slot = some "A" ∧ c.rawText? b name = some (ModifiedUtf8.encode "A") := by
  intro b pool c
  have decoded : decode b = .ok c := by decide +kernel
  have few : c.pool.slots.size ≤ 65535 := by decide +kernel
  have found : references b "A" = true := by decide +kernel
  obtain ⟨sound, found_iff⟩ := references_iff_as_written b c decoded "A"
  exact ⟨decoded, few, found, sound found, (found_iff few).mp found⟩

end ClassFile

/-! ### Classes that are missed -/

namespace Pool

theorem Runs.replicate {more : Nat → Prop} {size n : Nat} {c : Constant} {entries : List Constant}
    (narrow : c.slots.length = 1) (goes : ∀ k < n, more (size + k))
    (rest : Runs more (size + n) entries) : Runs more size (List.replicate n c ++ entries) := by
  induction n generalizing size with
  | zero => exact rest
  | succ n ih =>
    rw [List.replicate_succ, List.cons_append]
    refine ⟨goes 0 (Nat.succ_pos n), ?_⟩
    rw [narrow]
    apply ih
    · intro k below
      rw [Nat.add_assoc, Nat.add_comm 1]
      exact goes (k + 1) (Nat.succ_lt_succ below)
    · rwa [Nat.add_assoc, Nat.add_comm 1]

/-- A text, `n + 1` classes of this name, a wide entry, and `m` classes more. -/
def classesAround (name : String) (n m : Nat) : List Constant :=
  .utf8 name :: .classRef 1 :: (List.replicate n (.classRef 1) ++
    .long 0 :: List.replicate m (.classRef 1))

variable {name : String} {n m : Nat}

/-- The classes and the wide entry follow each other from slot to slot, and the wide entry takes
slots `n + 3` and `n + 4`. -/
theorem Runs.around {more : Nat → Prop} (before : ∀ i, 0 < i → i ≤ n + 3 → more i)
    (behind : ∀ k < m, more (n + 5 + k)) (ends : ¬more (n + 5 + m)) :
    Runs more 1 (classesAround name n m) := by
  have text : (Constant.utf8 name).slots.length = 1 := rfl
  have narrow : (Constant.classRef 1).slots.length = 1 := rfl
  have wide : (Constant.long 0).slots.length = 2 := rfl
  have place (k : Nat) : 1 + 1 + 1 + n + 2 + k = n + 5 + k := by omega
  rw [classesAround, ← List.append_nil (List.replicate m _)]
  refine ⟨before 1 (by decide) (by omega), ?_⟩
  rw [text]
  refine ⟨before 2 (by decide) (by omega), ?_⟩
  rw [narrow]
  refine Runs.replicate narrow (fun k below => before _ (by omega) (by omega)) ⟨?_, ?_⟩
  · exact before _ (by omega) (by omega)
  · rw [wide]
    refine Runs.replicate narrow (fun k below => ?_) ?_
    · rw [place]
      exact behind k below
    · rw [place]
      exact ends

/-- The wide entry takes the last slot that a word can tell and the one behind it, so that reading
starts over at zero. -/
theorem runs_classesAround (first : n = 65531) (second : m = 65535) :
    Runs (GoesOn 65535) 1 (classesAround name n m) := by
  have word : (65535 : UInt16).toNat = 65535 := rfl
  refine Runs.around ?_ ?_ ?_
  all_goals
    simp only [GoesOn, word]
    omega

theorem length_classesAround :
    ((classesAround name n m).flatMap Constant.slots).length = n + m + 4 := by
  have row (n : Nat) : ((List.replicate n (.classRef 1)).flatMap Constant.slots).length = n := by
    simp [List.length_flatMap, Constant.slots, Constant.isWide, Constant.kind, ConstantKind.isWide]
  have wide : (Constant.long 0).slots.length = 2 := rfl
  have text : (Constant.utf8 name).slots.length = 1 := rfl
  have narrow : (Constant.classRef 1).slots.length = 1 := rfl
  simp only [classesAround, List.flatMap_cons, List.flatMap_append, List.length_append, row, wide,
    text, narrow]
  omega

theorem fits_classesAround (short : (Constant.utf8 name).Fits) :
    ∀ c ∈ classesAround name n m, c.Fits := by
  intro c member
  simp only [classesAround, List.mem_cons, List.mem_append, List.mem_replicate] at member
  rcases member with rfl | rfl | ⟨-, rfl⟩ | rfl | ⟨-, rfl⟩
  · exact short
  all_goals trivial

theorem className?_classesAround :
    (empty.pushAll (classesAround name n m)).className? 2 = some name := by
  have slots := toList_pushAll empty (classesAround name n m)
  generalize empty.pushAll (classesAround name n m) = pool at slots ⊢
  have text : pool.get? 1 = some (.utf8 name) := by
    rw [get?, ← Array.getElem?_toList, slots]
    rfl
  have named : pool.get? 2 = some (.classRef 1) := by
    rw [get?, ← Array.getElem?_toList, slots]
    rfl
  simp only [className?, utf8?, named, text]

end Pool

namespace ClassFile

theorem references_classesAround {name : String} {n m : Nat} (short : (Constant.utf8 name).Fits)
    (first : n = 65531) (second : m = 65535) (symbol : String) :
    let c : ClassFile :=
      { pool := Pool.empty.pushAll (Pool.classesAround name n m), thisClass := 2, superClass := 0 }
    decode c.encode = .ok c ∧ c.pool.className? 2 = some name ∧
      references c.encode symbol = false := by
  intro c
  have held : c.pool.entries = Pool.classesAround name n m := Pool.entries_pushAll _
  have size : c.pool.slots.size = 131071 := by
    rw [c.pool.size_slots, held, Pool.length_classesAround]
    omega
  have count : c.pool.count = 65535 := by
    rw [Pool.count, size]
    rfl
  have decoded : decode c.encode = .ok c := by
    refine decode_eq_ok.mpr ⟨c.pool.count, _, encode_eq c, ?_, ?_, ?_⟩
    · apply Pool.spells_encode
      rw [held]
      exact Pool.fits_classesAround short
    · rw [held, count]
      exact Pool.runs_classesAround first second
    · have vacuous {α : Type} {P : α → Prop} : ∀ a ∈ ([] : List α), P a := by simp
      exact ⟨Nat.zero_le _, ⟨Nat.zero_le _, vacuous⟩, ⟨Nat.zero_le _, vacuous⟩, Nat.zero_le _,
        vacuous⟩
  obtain ⟨_, layout⟩ := layout_of_decode decoded
  exact ⟨decoded, Pool.className?_classesAround, layout.references_of_many (by omega) symbol⟩

/-- A class is missed whose name takes a byte more than it needs, and so is every class of a pool
with more slots than its count can tell. -/
theorem references_misses :
    let long : Bytes := [0xCA, 0xFE, 0xBA, 0xBE, 0, 0, 0, 52, 0, 3, 1, 0, 2, 0xC1, 0x81, 7, 0, 1,
      0, 33, 0, 2, 0, 0, 0, 0, 0, 0, 0, 0, 0, 0]
    let c : ClassFile :=
      { pool := (Pool.classRef "A" Pool.empty).2, thisClass := 2, superClass := 0 }
    let many : ClassFile :=
      { pool := Pool.empty.pushAll (Pool.classesAround "A" 65531 65535), thisClass := 2,
        superClass := 0 }
    (decode long = .ok c ∧ c.pool.className? 2 = some "A" ∧ references long "A" = false) ∧
      decode many.encode = .ok many ∧ many.pool.className? 2 = some "A" ∧
        references many.encode "A" = false := by
  intro long c many
  have missed : decode long = .ok c ∧ c.pool.className? 2 = some "A" ∧
      references long "A" = false := by
    decide +kernel
  have fits : (Constant.utf8 "A").Fits := by decide +kernel
  exact ⟨missed, references_classesAround fits rfl rfl "A"⟩

end ClassFile

end ClassBench
