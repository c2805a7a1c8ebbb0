import ClassBench.Bytes
import Mathlib.Tactic.Common
import Mathlib.Tactic.Ring

/-! Where words stand within bytes, and the numbers that bytes spell.  A word is found at an index
exactly if all of its bytes are there, and the bytes of a word spell the word. -/

namespace ClassBench

namespace Bytes

variable {bytes : Bytes} {index : Nat}

theorem exists_u16At? (bytes : Bytes) (index : Nat) (enough : index + 2 ≤ bytes.length) :
    ∃ w, bytes.u16At? index = some w := by
  unfold u16At?
  have left : 2 ≤ (bytes.drop index).length := by
    rw [List.length_drop]
    omega
  match bytes.drop index, left with
  | a :: b :: _, _ => exact ⟨_, rfl⟩

theorem isSome_u8At? : (bytes.u8At? index).isSome = true ↔ index < bytes.length := by
  simp [u8At?]

theorem isSome_u16At? : (bytes.u16At? index).isSome = true ↔ index + 2 ≤ bytes.length := by
  constructor
  · intro found
    unfold u16At? at found
    split at found
    · next front =>
      have left := congrArg List.length front
      simp only [List.length_drop, List.length_cons] at left
      omega
    · contradiction
  · intro enough
    obtain ⟨w, word⟩ := exists_u16At? bytes index enough
    rw [word]
    rfl

theorem exists_i32At? (bytes : Bytes) (index : Nat) (enough : index + 4 ≤ bytes.length) :
    ∃ n, bytes.i32At? index = some n := by
  unfold i32At?
  have left : 4 ≤ (bytes.drop index).length := by
    rw [List.length_drop]
    omega
  match bytes.drop index, left with
  | a :: b :: c :: d :: _, _ => exact ⟨_, rfl⟩

theorem le_of_i32At? {n : Int32} (found : bytes.i32At? index = some n) :
    index + 4 ≤ bytes.length := by
  unfold i32At? at found
  split at found
  · next front =>
    have left := congrArg List.length front
    simp only [List.length_drop, List.length_cons] at left
    omega
  · contradiction

theorem i32At?_append (rest : Bytes) (within : index + 4 ≤ bytes.length) :
    (bytes ++ rest).i32At? index = bytes.i32At? index := by
  unfold i32At?
  have left : 4 ≤ (bytes.drop index).length := by
    rw [List.length_drop]
    omega
  rw [List.drop_append_of_le_length (by omega)]
  match bytes.drop index, left with
  | a :: b :: c :: d :: _, _ => rfl

theorem u16At?_append {w : UInt16} (rest : Bytes) (found : bytes.u16At? index = some w) :
    (bytes ++ rest).u16At? index = some w := by
  have within := isSome_u16At?.mp (Option.isSome_of_eq_some found)
  unfold u16At? at found ⊢
  have left : 2 ≤ (bytes.drop index).length := by
    rw [List.length_drop]
    omega
  rw [List.drop_append_of_le_length (by omega)]
  match bytes.drop index, left, found with
  | a :: b :: _, _, found => exact found

theorem u16At?_drop (bytes : Bytes) (skipped index : Nat) :
    u16At? (bytes.drop skipped) index = bytes.u16At? (skipped + index) := by
  rw [u16At?, u16At?, List.drop_drop]

theorem i32At?_drop (bytes : Bytes) (skipped index : Nat) :
    i32At? (bytes.drop skipped) index = bytes.i32At? (skipped + index) := by
  rw [i32At?, i32At?, List.drop_drop]

/-! ### The numbers that bytes spell -/

/-- The number that bytes spell, the highest byte first. -/
def bigEndian (bytes : Bytes) : Nat := bytes.foldl (fun n byte => n * 256 + byte.toNat) 0

/-- The number that bytes spell in two's complement, the highest byte first. -/
def bigEndianSigned (bytes : Bytes) : Int := (bytes.bigEndian : Int).bmod (256 ^ bytes.length)

theorem foldl_bigEndian (n : Nat) (bytes : Bytes) :
    bytes.foldl (fun n byte => n * 256 + byte.toNat) n =
      n * 256 ^ bytes.length + bytes.bigEndian := by
  unfold bigEndian
  induction bytes generalizing n with
  | nil => simp
  | cons byte bytes ih =>
    rw [List.foldl_cons, List.foldl_cons, ih, ih (0 * 256 + byte.toNat), List.length_cons]
    ring

theorem bigEndian_append (front rest : Bytes) :
    (front ++ rest).bigEndian = front.bigEndian * 256 ^ rest.length + rest.bigEndian := by
  rw [bigEndian, List.foldl_append, foldl_bigEndian]
  rfl

theorem bigEndian_ofUInt16 (w : UInt16) : (ofUInt16 w).bigEndian = w.toNat := by
  have h := w.toNat_lt
  simp only [bigEndian, ofUInt16, List.foldl_cons, List.foldl_nil, UInt8.toNat_ofNat']
  omega

theorem bigEndian_ofUInt32 (w : UInt32) : (ofUInt32 w).bigEndian = w.toNat := by
  have h := w.toNat_lt
  simp only [bigEndian, ofUInt32, List.foldl_cons, List.foldl_nil, UInt8.toNat_ofNat']
  omega

theorem bigEndian_ofUInt64 (w : UInt64) : (ofUInt64 w).bigEndian = w.toNat := by
  have h := w.toNat_lt
  rw [ofUInt64, bigEndian_append, bigEndian_ofUInt32, bigEndian_ofUInt32, length_ofUInt32,
    UInt32.toNat_ofNat', UInt32.toNat_ofNat']
  omega

theorem bigEndianSigned_ofInt32 (n : Int32) : (ofInt32 n).bigEndianSigned = n.toInt := by
  rw [bigEndianSigned, ofInt32, bigEndian_ofUInt32, length_ofUInt32]
  exact (BitVec.toInt_eq_toNat_bmod n.toBitVec).symm

theorem bigEndianSigned_ofInt64 (n : Int64) : (ofInt64 n).bigEndianSigned = n.toInt := by
  rw [bigEndianSigned, ofInt64, bigEndian_ofUInt64, length_ofUInt64]
  exact (BitVec.toInt_eq_toNat_bmod n.toBitVec).symm

example : bigEndianSigned [0xff, 0xff, 0xff, 0xd6] = -42 := by decide

end Bytes

end ClassBench
