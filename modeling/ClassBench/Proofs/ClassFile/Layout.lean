import ClassBench.Proofs.ClassFile.Spelling
import ClassBench.Proofs.List
import ClassBench.Proofs.Pool.Raw

/-! The parts of the bytes that are read as a class.  The entries of its pool stand in them as
`rawEntries` says, and the slots of the pool line up with those of the entries as they stand. -/

namespace ClassBench

namespace ClassFile

variable {b : Bytes} {c : ClassFile} {declared : UInt16}

/-- The entries of the pool as they stand in the bytes of a class. -/
def rawEntries (c : ClassFile) (b : Bytes) : List RawEntry :=
  RawEntry.row c.pool.entries.length (PoolIndex.countOffset + 2)
    (b.drop (PoolIndex.countOffset + 2))

/-- The entry at a slot of the pool as it stands in the bytes of a class. -/
def rawSlot? (c : ClassFile) (b : Bytes) (slot : UInt16) : Option RawEntry :=
  (none :: (c.rawEntries b).flatMap RawEntry.slots)[slot.toNat]?.join

/-- The encoded text at a slot of the pool as it stands in the bytes of a class. -/
def rawText? (c : ClassFile) (b : Bytes) (slot : UInt16) : Option Bytes :=
  (c.rawSlot? b slot).bind RawEntry.text?

/-- What holds of the entries as they stand and as they are read holds in every slot. -/
theorem rel_rawSlot? {R : RawEntry → Constant → Prop}
    (rows : List.Forall₂ R (c.rawEntries b) c.pool.entries) (denotes : ∀ e d, R e d → e.Denotes d)
    (slot : UInt16) : Option.Rel R (c.rawSlot? b slot) (c.pool.get? slot) := by
  have slots := List.Forall₂.cons Option.Rel.none (RawEntry.rel_slots rows denotes)
  rw [rawSlot?, Pool.get?, ← Array.getElem?_toList, c.pool.toList_slots]
  exact slots.rel_join slot.toNat

/-- The parts of bytes that begin like those of a class, the entries of its pool as they stand
there. -/
structure PoolLayout (c : ClassFile) (b : Bytes) (declared : UInt16) : Prop where
  split : b =
    c.head ++ (Bytes.ofUInt16 declared ++ (c.rawEntries b).flatMap RawEntry.bytes) ++ c.tail
  spelled : Pool.Spells ((c.rawEntries b).flatMap RawEntry.bytes) c.pool.entries
  denote : List.Forall₂ RawEntry.Denotes (c.rawEntries b) c.pool.entries
  runs : Pool.Runs (Pool.GoesOn declared) 1 c.pool.entries

/-- The parts of the bytes of a class, which is read back from them. -/
structure Layout (c : ClassFile) (b : Bytes) (declared : UInt16) : Prop extends
    c.PoolLayout b declared where
  fits : c.TailFits

theorem drop_count (c : ClassFile) (declared : UInt16) (bytes : Bytes) :
    (c.head ++ (Bytes.ofUInt16 declared ++ bytes) ++ c.tail).drop (PoolIndex.countOffset + 2) =
      bytes ++ c.tail := by
  have length : PoolIndex.countOffset + 2 = (c.head ++ Bytes.ofUInt16 declared).length := rfl
  rw [length, ← List.append_assoc, List.append_assoc _ bytes, List.drop_left]

theorem poolLayout_of_spells {bytes : Bytes} (spelled : Pool.Spells bytes c.pool.entries)
    (runs : Pool.Runs (Pool.GoesOn declared) 1 c.pool.entries) :
    c.PoolLayout (c.head ++ (Bytes.ofUInt16 declared ++ bytes) ++ c.tail) declared := by
  have behind := c.drop_count declared bytes
  generalize whole : c.head ++ (Bytes.ofUInt16 declared ++ bytes) ++ c.tail = b at behind ⊢
  obtain ⟨denote, flat⟩ := RawEntry.row_of_spells spelled (PoolIndex.countOffset + 2) c.tail
  rw [← behind] at denote flat
  refine ⟨?_, ?_, denote, runs⟩
  · rw [rawEntries, flat, whole]
  · rw [rawEntries, flat]
    exact spelled

theorem layout_of_decode (decoded : decode b = .ok c) : ∃ declared, c.Layout b declared := by
  obtain ⟨declared, bytes, rfl, spelled, runs, fits⟩ := decode_eq_ok.mp decoded
  exact ⟨declared, poolLayout_of_spells spelled runs, fits⟩

namespace PoolLayout

theorem drop_eq (layout : c.PoolLayout b declared) : b.drop (PoolIndex.countOffset + 2) =
    (c.rawEntries b).flatMap RawEntry.bytes ++ c.tail := by
  have behind := c.drop_count declared ((c.rawEntries b).flatMap RawEntry.bytes)
  rwa [← layout.split] at behind

theorem declared_eq (layout : c.PoolLayout b declared) :
    b.u16At? PoolIndex.countOffset = some declared := by
  have split := layout.split
  rw [List.append_assoc, List.append_assoc] at split
  rw [split]
  exact Bytes.u16At?_length c.head _ declared

/-- An entry of the pool stands in its slot, and nothing stands in the slots without one. -/
theorem rel_slot (layout : c.PoolLayout b declared) (slot : UInt16) :
    Option.Rel RawEntry.Denotes (c.rawSlot? b slot) (c.pool.get? slot) :=
  rel_rawSlot? layout.denote (fun _ _ => id) slot

end PoolLayout

end ClassFile

end ClassBench
