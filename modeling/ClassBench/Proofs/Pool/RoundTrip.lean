import ClassBench.Proofs.Pool.Spelling

/-! Constant pools come back from their encoding, as long as their texts and their count fit the
fields that hold them.  The declared count is then that of the slots which the entries fill up, and
reading reaches it exactly with the last entry.  It may do so too if there are more slots than the
count can tell, but for that a wide entry has to stand wherever the count wraps. -/

namespace ClassBench

/-- The length of a text fits the field that holds it. -/
def Constant.Fits : Constant → Prop
  | utf8 text => (ModifiedUtf8.encode text).length ≤ 65535
  | _ => True

instance (c : Constant) : Decidable c.Fits := by
  cases c <;> unfold Constant.Fits <;> infer_instance

theorem Constant.Fits.spells {c : Constant} (fits : c.Fits) : c.Spells c.encode := by
  cases c with
  | utf8 text => exact .text fits (ModifiedUtf8.decode_encoded 0 text)
  | _ => exact .plain (by simp [Constant.kind])

theorem Constant.Spells.fits {bytes : Bytes} {c : Constant} (spelled : c.Spells bytes) :
    c.Fits := by
  cases spelled with
  | text short decoded => exact Nat.le_trans (ModifiedUtf8.length_encode_le decoded) short
  | @plain c other =>
    cases c with
    | utf8 text => exact absurd rfl other
    | _ => trivial

/-- An entry stands in the first of its slots. -/
theorem Constant.getElem?_slots {c e : Constant} {i : Nat} :
    c.slots[i]? = some (some e) ↔ i = 0 ∧ c = e := by
  unfold slots
  split <;> rcases i with _ | _ | i <;> simp

namespace Pool

/-- The pool has no more slots than its count can tell, and its texts fit their length fields. -/
structure Fits (pool : Pool) : Prop where
  slots : pool.slots.size ≤ 65535
  texts : ∀ c ∈ pool.entries, c.Fits

instance (pool : Pool) : Decidable pool.Fits :=
  decidable_of_iff (pool.slots.size ≤ 65535 ∧ ∀ c ∈ pool.entries, c.Fits)
    ⟨fun ⟨slots, texts⟩ => ⟨slots, texts⟩, fun fits => ⟨fits.slots, fits.texts⟩⟩

theorem spells_encode {entries : List Constant} (fits : ∀ c ∈ entries, c.Fits) :
    Spells (entries.flatMap Constant.encode) entries := by
  induction entries with
  | nil => exact .nil
  | cons c entries ih =>
    rw [List.forall_mem_cons] at fits
    exact .cons fits.1.spells (ih fits.2)

theorem Spells.fits {bytes : Bytes} {entries : List Constant} (spelled : Spells bytes entries) :
    ∀ c ∈ entries, c.Fits := by
  induction spelled with
  | nil => simp
  | cons entry _ ih => exact List.forall_mem_cons.mpr ⟨entry.fits, ih⟩

/-- A loop takes entries if it goes on at the slot of each and not behind the last. -/
theorem runs_iff {more : Nat → Prop} {size : Nat} {entries : List Constant} :
    Runs more size entries ↔
      (∀ i c, (entries.flatMap Constant.slots)[i]? = some (some c) → more (size + i)) ∧
        ¬more (size + (entries.flatMap Constant.slots).length) := by
  induction entries generalizing size with
  | nil => simp [Runs]
  | cons c entries ih =>
    rw [Runs, ih, List.flatMap_cons, List.length_append, ← Nat.add_assoc, ← and_assoc]
    refine and_congr_left' ⟨?_, fun all => ⟨?_, fun i e found => ?_⟩⟩
    · rintro ⟨here, behind⟩ i e found
      rcases Nat.lt_or_ge i c.slots.length with inside | beyond
      · rw [List.getElem?_append_left inside, Constant.getElem?_slots] at found
        rwa [found.1]
      · rw [List.getElem?_append_right beyond] at found
        have goesOn := behind _ e found
        rwa [Nat.add_assoc, Nat.add_sub_cancel' beyond] at goesOn
    · have pos := c.slots_length_pos
      exact all 0 c (by rw [List.getElem?_append_left pos, Constant.getElem?_slots]; simp)
    · rw [Nat.add_assoc]
      refine all _ e ?_
      rwa [List.getElem?_append_right (Nat.le_add_right _ _), Nat.add_sub_cancel_left]

/-- The number that is written for a pool counts its entries: as far as 16 bits tell, every entry
stands below it. -/
def Counted (pool : Pool) : Prop :=
  ∀ i c, pool.slots[i]? = some (some c) → i % 65536 < pool.slots.size % 65536

/-- A loop makes a pool if it goes on at each entry and not behind the last slot. -/
theorem runs_slots_iff {more : Nat → Prop} {pool : Pool} : Runs more 1 pool.entries ↔
    (∀ i c, pool.slots[i]? = some (some c) → more i) ∧ ¬more pool.slots.size := by
  rw [runs_iff, ← pool.size_slots]
  simp only [← Array.getElem?_toList, pool.toList_slots]
  refine and_congr_left' ⟨fun all i c found => ?_, fun all i c found => ?_⟩
  · cases i with
    | zero => simp at found
    | succ i => exact Nat.add_comm i 1 ▸ all i c (by simpa using found)
  · refine all (1 + i) c ?_
    rw [Nat.add_comm]
    simpa using found

theorem runs_count_iff {pool : Pool} :
    Runs (GoesOn pool.count) 1 pool.entries ↔ pool.Counted := by
  have count : pool.count.toNat = pool.slots.size % 65536 := by
    simp [Pool.count]
  rw [runs_slots_iff, and_iff_left (by simp [GoesOn, count])]
  simp only [GoesOn, count, Counted]

/-- All entries of a pool of allowed size are counted. -/
theorem counted_of_few {pool : Pool} (few : pool.slots.size ≤ 65535) : pool.Counted := by
  intro i c found
  obtain ⟨inside, -⟩ := Array.getElem?_eq_some_iff.mp found
  omega

/-- Without wide entries, which can stand across a wrap of the count, only a pool of allowed size is
counted. -/
theorem counted_iff_of_narrow {pool : Pool} (narrow : ∀ c ∈ pool.entries, c.isWide = false) :
    pool.Counted ↔ pool.slots.size ≤ 65535 := by
  refine ⟨fun counted => ?_, counted_of_few⟩
  have single : pool.entries.map Constant.slots = pool.entries.map fun c => [some c] :=
    List.map_congr_left fun c member => by simp [Constant.slots, narrow c member]
  have row : pool.slots.toList = none :: pool.entries.map some := by
    rw [pool.toList_slots, List.map_eq_flatMap, List.flatMap_def, List.flatMap_def, single]
  have size : pool.slots.size = pool.entries.length + 1 := by
    simpa using congrArg List.length row
  refine Nat.le_of_not_lt fun many => ?_
  have beyond := counted 65535 pool.entries[65534] (by
    rw [← Array.getElem?_toList, row]
    simp)
  omega

theorem reads_encode (pool : Pool) (fits : pool.Fits) : read.Reads pool.encode pool := by
  have runs := runs_count_iff.mpr (counted_of_few fits.slots)
  have read := (spells_encode fits.texts).reads_pool runs
  rwa [pushAll_entries] at read

end Pool

end ClassBench
