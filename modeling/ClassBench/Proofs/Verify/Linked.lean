import ClassBench.Proofs.Pool.Mentions
import ClassBench.Proofs.Verify.Sound

/-! What the entries of a verified pool stand for.  The verifier looks at each entry by itself, and
only at the kinds of those that it refers to.  Since it looks at all of them, a reference can be
followed to its end: a class to a text, a member to three texts, and a handle to a member. -/

namespace ClassBench

namespace Pool

variable {pool : Pool} {index : UInt16} {c : Constant} {kinds : List ConstantKind}

theorem Holds.mono {more : List ConstantKind} (holds : pool.Holds kinds index)
    (subset : kinds ⊆ more) : pool.Holds more index := by
  obtain ⟨c, found, member⟩ := holds
  exact ⟨c, found, subset member⟩

theorem Holds.utf8? (holds : pool.Holds [.utf8] index) : ∃ text, pool.utf8? index = some text := by
  obtain ⟨c, found, kind⟩ := holds
  rw [List.mem_singleton] at kind
  cases c with
  | utf8 text => exact ⟨text, by rw [Pool.utf8?, found]⟩
  | _ => cases kind

variable (linked : ∀ e ∈ pool.entries, e.Linked pool)
include linked

theorem Holds.className? (holds : pool.Holds [.classRef] index) :
    ∃ name, pool.className? index = some name := by
  obtain ⟨c, found, kind⟩ := holds
  rw [List.mem_singleton] at kind
  cases c with
  | classRef name =>
    obtain ⟨text, named⟩ := Holds.utf8? (linked _ (mem_entries_of_get? found))
    exact ⟨text, by rw [Pool.className?, found]; exact named⟩
  | _ => cases kind

theorem Holds.nameAndType? (holds : pool.Holds [.nameAndType] index) :
    ∃ signature, pool.nameAndType? index = some signature := by
  obtain ⟨c, found, kind⟩ := holds
  rw [List.mem_singleton] at kind
  cases c with
  | nameAndType name descriptor =>
    obtain ⟨named, described⟩ := linked _ (mem_entries_of_get? found)
    obtain ⟨first, isFirst⟩ := named.utf8?
    obtain ⟨second, isSecond⟩ := described.utf8?
    exact ⟨(first, second), by rw [Pool.nameAndType?, found]; simp [isFirst, isSecond]⟩
  | _ => cases kind

theorem Holds.member? (holds : pool.Holds [.fieldRef, .methodRef, .interfaceMethodRef] index) :
    ∃ member, pool.member? index = some member := by
  obtain ⟨c, found, kind⟩ := holds
  cases c with
  | fieldRef owner signature | methodRef owner signature | interfaceMethodRef owner signature =>
    obtain ⟨owned, signed⟩ := linked _ (mem_entries_of_get? found)
    obtain ⟨name, isOwner⟩ := owned.className? linked
    obtain ⟨s, isSignature⟩ := signed.nameAndType? linked
    exact ⟨⟨name, s.1, s.2⟩, by rw [Pool.member?, found]; simp [isOwner, isSignature]⟩
  | _ => simp [Constant.kind] at kind

/-- What an entry at this index stands for is found: the name of a class, the texts of a name with a
descriptor and of a member, and the member that a handle leads to. -/
def Resolves (pool : Pool) (index : UInt16) : Constant → Prop
  | .classRef _ => (pool.className? index).isSome
  | .nameAndType _ _ => (pool.nameAndType? index).isSome
  | .fieldRef _ _ | .methodRef _ _ | .interfaceMethodRef _ _ => (pool.member? index).isSome
  | .methodHandle _ member => (pool.member? member).isSome
  | _ => True

/-- In a pool whose entries are linked, all of them resolve. -/
theorem resolves (found : pool.get? index = some c) : pool.Resolves index c := by
  have holds : pool.Holds [c.kind] index := ⟨c, found, List.mem_singleton_self _⟩
  cases c with
  | classRef => exact Option.isSome_iff_exists.mpr (holds.className? linked)
  | nameAndType => exact Option.isSome_iff_exists.mpr (holds.nameAndType? linked)
  | fieldRef | methodRef | interfaceMethodRef =>
    exact Option.isSome_iff_exists.mpr ((holds.mono (by simp [Constant.kind])).member? linked)
  | methodHandle mode member =>
    have leads : pool.Holds [.fieldRef, .methodRef, .interfaceMethodRef] member :=
      linked _ (mem_entries_of_get? found)
    exact Option.isSome_iff_exists.mpr (leads.member? linked)
  | _ => trivial

omit linked in
/-- An entry stands at the index that it is listed with, if an index can tell the slots apart. -/
theorem get?_of_mem_indexed (few : pool.slots.size ≤ 65535) (listed : (index, c) ∈ pool.indexed) :
    pool.get? index = some c := by
  obtain ⟨⟨slot, i⟩, here, same⟩ := List.mem_filterMap.mp listed
  obtain ⟨e, rfl, same⟩ := Option.map_eq_some_iff.mp same
  cases same
  rw [List.mk_mem_zipIdx_iff_getElem?] at here
  have inside : i < pool.slots.size := (List.getElem?_eq_some_iff.mp here).1
  have index : i.toUInt16.toNat = i := by
    rw [Nat.toUInt16_eq, UInt16.toNat_ofNat']
    omega
  rw [get?_eq_some, index, here]

end Pool

end ClassBench
