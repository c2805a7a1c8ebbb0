import ClassBench.Crc32
import Mathlib.Algebra.Field.ZMod
import Mathlib.Algebra.Polynomial.FieldDivision
import Mathlib.Algebra.Polynomial.OfFn
import Mathlib.RingTheory.AdjoinRoot
import Mathlib.Tactic.ComputeDegree
import Mathlib.Tactic.LinearCombination

/-! What the check of a byte string says about it.  Bits are read as the coefficients of
polynomials, those of a word from its highest power down.  A step of the register is then a
multiplication by `X` modulo the generator, so that the register is the remainder of a polynomial
that is made of the bytes, and byte strings have the same check exactly if the generator divides the
difference of their polynomials. -/

namespace ClassBench.Crc32

open Polynomial

noncomputable section

/-- Polynomials of a lower degree than another are told apart by their remainders. -/
theorem eq_of_dvd_sub {divisor p q : (ZMod 2)[X]} (hp : p.degree < divisor.degree)
    (hq : q.degree < divisor.degree) (divides : divisor ∣ p - q) : p = q :=
  sub_eq_zero.mp (eq_zero_of_dvd_of_degree_lt divides
    ((degree_sub_le p q).trans_lt (max_lt hp hq)))

/-! ### Bits as coefficients -/

/-- A bit as a coefficient. -/
def coefficient (b : Bool) : ZMod 2 := if b then 1 else 0

theorem coefficient_xor (a b : Bool) :
    coefficient (a ^^ b) = coefficient a + coefficient b := by
  cases a <;> cases b <;> rfl

theorem coefficient_inj {a b : Bool} (same : coefficient a = coefficient b) : a = b := by
  revert a b
  decide

/-- The lowest bits of a number, of which the first stands for the highest power. -/
def ofBits (width n : ℕ) : (ZMod 2)[X] :=
  ofFn width fun i => coefficient (n.testBit (width - 1 - i))

theorem coeff_ofBits (width n i : ℕ) : (ofBits width n).coeff i =
    if i < width then coefficient (n.testBit (width - 1 - i)) else 0 := by
  split
  · next within => exact ofFn_coeff_eq_val_of_lt _ within
  · next beyond => exact ofFn_coeff_eq_zero_of_ge _ (Nat.le_of_not_lt beyond)

theorem degree_ofBits_lt (width n : ℕ) : (ofBits width n).degree < width := ofFn_degree_lt _

theorem ofBits_xor (width m n : ℕ) : ofBits width (m ^^^ n) = ofBits width m + ofBits width n := by
  ext i
  simp only [coeff_add, coeff_ofBits, Nat.testBit_xor, coefficient_xor]
  split
  · rfl
  · rw [add_zero]

theorem ofBits_inj {width m n : ℕ} (hm : m < 2 ^ width) (hn : n < 2 ^ width)
    (same : ofBits width m = ofBits width n) : m = n := by
  refine Nat.eq_of_testBit_eq fun i => ?_
  by_cases within : i < width
  · have coefficients := congrArg (coeff · (width - 1 - i)) same
    simp only [coeff_ofBits, if_pos (show width - 1 - i < width by omega),
      show width - 1 - (width - 1 - i) = i by omega] at coefficients
    exact coefficient_inj coefficients
  · have wide := Nat.pow_le_pow_right (Nat.zero_lt_two) (Nat.le_of_not_lt within)
    rw [Nat.testBit_lt_two_pow (hm.trans_le wide), Nat.testBit_lt_two_pow (hn.trans_le wide)]

/-- To drop the first bit of a word moves all others one power up. -/
theorem X_mul_ofBits {width n : ℕ} (fits : n < 2 ^ width) :
    X * ofBits width n = ofBits width (n >>> 1) + C (coefficient (n.testBit 0)) * X ^ width := by
  ext i
  rw [coeff_add, coeff_C_mul_X_pow, coeff_ofBits, Nat.testBit_shiftRight]
  cases i with
  | zero =>
    rw [coeff_X_mul_zero]
    rcases width.eq_zero_or_pos with rfl | wide
    · obtain rfl : n = 0 := by omega
      rfl
    · rw [if_pos wide, if_neg wide.ne, show 1 + (width - 1 - 0) = width by omega,
        Nat.testBit_lt_two_pow fits]
      rfl
  | succ i =>
    rw [coeff_X_mul, coeff_ofBits]
    rcases lt_trichotomy (i + 1) width with within | rfl | beyond
    · rw [if_pos within, if_pos (by omega), if_neg within.ne, add_zero,
        show 1 + (width - 1 - (i + 1)) = width - 1 - i by omega]
    · rw [if_pos (by omega), if_neg (lt_irrefl _), if_pos rfl, zero_add, Nat.add_sub_cancel,
        Nat.sub_self]
    · rw [if_neg (by omega), if_neg (by omega), if_neg beyond.ne', add_zero]

/-- The bits of a number are the highest of a wider word. -/
theorem ofBits_add {width n : ℕ} (gap : ℕ) (fits : n < 2 ^ width) :
    ofBits (gap + width) n = X ^ gap * ofBits width n := by
  ext i
  rw [coeff_X_pow_mul', coeff_ofBits, coeff_ofBits]
  by_cases below : gap ≤ i
  · rw [if_pos below, show gap + width - 1 - i = width - 1 - (i - gap) by omega]
    exact if_congr (by omega) rfl rfl
  · have beyond : width ≤ gap + width - 1 - i := by omega
    rw [if_neg below, if_pos (by omega), Nat.testBit_lt_two_pow
      (fits.trans_le (Nat.pow_le_pow_right Nat.zero_lt_two beyond))]
    rfl

/-! ### Steps of the register -/

/-- The generator of the check. -/
def generator : (ZMod 2)[X] :=
  X ^ 32 + X ^ 26 + X ^ 23 + X ^ 22 + X ^ 16 + X ^ 12 + X ^ 11 + X ^ 10 + X ^ 8 + X ^ 7 + X ^ 5 +
    X ^ 4 + X ^ 2 + X + 1

/-- What the register stands for. -/
def ofRegister (register : UInt32) : (ZMod 2)[X] := ofBits 32 register.toNat

/-- What a byte stands for. -/
def ofByte (b : UInt8) : (ZMod 2)[X] := ofBits 8 b.toNat

theorem ofRegister_inj {register register' : UInt32}
    (same : ofRegister register = ofRegister register') : register = register' :=
  UInt32.toNat_inj.mp (ofBits_inj register.toNat_lt register'.toNat_lt same)

theorem ofByte_inj {b b' : UInt8} (same : ofByte b = ofByte b') : b = b' :=
  UInt8.toNat_inj.mp (ofBits_inj b.toNat_lt b'.toNat_lt same)

theorem ofRegister_xor (register register' : UInt32) :
    ofRegister (register ^^^ register') = ofRegister register + ofRegister register' := by
  rw [ofRegister, UInt32.toNat_xor, ofBits_xor]
  rfl

theorem ofRegister_toUInt32 (b : UInt8) : ofRegister b.toUInt32 = X ^ 24 * ofByte b := by
  rw [ofRegister, UInt8.toNat_toUInt32, ofByte, ← ofBits_add 24 b.toNat_lt]

theorem generator_eq : generator = X ^ 32 + ofRegister 0xEDB88320 := by
  ext i
  rw [coeff_add, ofRegister, coeff_ofBits]
  simp only [generator, coeff_add, coeff_X_pow, coeff_X, coeff_one]
  by_cases within : i < 33
  · revert i
    decide
  · simp (disch := omega) only [if_neg, add_zero]

theorem degree_generator : generator.degree = 32 := by
  unfold generator
  compute_degree!

theorem degree_ofRegister_lt (register : UInt32) :
    (ofRegister register).degree < generator.degree := by
  rw [degree_generator]
  exact degree_ofBits_lt 32 _

theorem generator_isCoprime_X_pow (n : ℕ) : IsCoprime generator (X ^ n) := by
  have apart : ¬X ∣ generator := by
    rw [X_dvd_iff, generator]
    simp
  exact ((irreducible_X.coprime_iff_not_dvd.mpr apart).symm).pow_right

/-- The remainder of a polynomial by the generator. -/
def remainder : (ZMod 2)[X] →+* AdjoinRoot generator := AdjoinRoot.mk generator

theorem remainder_eq_iff {p q : (ZMod 2)[X]} :
    remainder p = remainder q ↔ generator ∣ p - q := AdjoinRoot.mk_eq_mk

theorem and_one_eq_one_iff (register : UInt32) :
    register &&& 1 = 1 ↔ register.toNat.testBit 0 = true := by
  rw [← UInt32.toNat_inj, UInt32.toNat_and, Nat.testBit_zero]
  simp

/-- To divide a bit out of the register is to multiply by `X` and to take the generator away where
the result has its degree. -/
theorem X_mul_ofRegister (register : UInt32) : X * ofRegister register =
    ofRegister (shift register) + C (coefficient (register.toNat.testBit 0)) * generator := by
  have dropped : X * ofRegister register = ofRegister (register >>> 1) +
      C (coefficient (register.toNat.testBit 0)) * X ^ 32 := by
    rw [ofRegister, X_mul_ofBits register.toNat_lt, ofRegister, UInt32.toNat_shiftRight]
    rfl
  rw [dropped, shift]
  by_cases odd : register &&& 1 = 1
  · have twice := CharTwo.add_self_eq_zero (ofRegister 0xEDB88320)
    rw [if_pos odd, (and_one_eq_one_iff register).mp odd, ofRegister_xor, generator_eq,
      show C (coefficient true) = 1 from C_1]
    linear_combination -twice
  · rw [if_neg odd, Bool.eq_false_iff.mpr (mt (and_one_eq_one_iff register).mpr odd)]
    simp [coefficient]

theorem remainder_shift (register : UInt32) :
    remainder (ofRegister (shift register)) = remainder (X * ofRegister register) := by
  rw [X_mul_ofRegister, remainder_eq_iff, sub_add_cancel_left]
  exact (Dvd.intro_left _ rfl).neg_right

/-- A byte is added to the highest powers of the register, and then eight bits are divided out. -/
theorem remainder_update (register : UInt32) (b : UInt8) :
    remainder (ofRegister (update register b)) =
      remainder (X ^ 8 * ofRegister register + X ^ 32 * ofByte b) := by
  simp only [update, remainder_shift, map_mul, ofRegister_xor, ofRegister_toUInt32, map_add,
    map_pow]
  ring

/-! ### The register after a byte string -/

/-- The bits of a byte string, of which the first stands for the highest power. -/
def message : Bytes → (ZMod 2)[X]
  | [] => 0
  | b :: rest => X ^ (8 * rest.length) * ofByte b + message rest

/-- What the register is a remainder of: the bits of a byte string, behind the bits that are in the
register from the start, and with room for a register. -/
def codeword (bytes : Bytes) : (ZMod 2)[X] :=
  X ^ (8 * bytes.length) * ofRegister 0xFFFFFFFF + X ^ 32 * message bytes

/-- What stands in front is moved up by the bits behind it. -/
theorem message_append (front back : Bytes) :
    message (front ++ back) = X ^ (8 * back.length) * message front + message back := by
  induction front with
  | nil => simp [message]
  | cons b front ih =>
    rw [List.cons_append, message, ih, message, List.length_append]
    ring

theorem degree_message_lt (bytes : Bytes) : (message bytes).degree < (8 * bytes.length : ℕ) := by
  induction bytes with
  | nil => simp [message]
  | cons b rest ih =>
    rw [degree_lt_iff_coeff_zero] at ih ⊢
    intro i high
    rw [List.length_cons] at high
    rw [message, coeff_add, coeff_X_pow_mul', if_pos (by omega), ih i (by omega), add_zero]
    exact (degree_lt_iff_coeff_zero _ _).mp (degree_ofBits_lt 8 b.toNat) _ (by omega)

/-- A byte string of a known length can be read off its bits. -/
theorem message_inj {bytes bytes' : Bytes} (length : bytes.length = bytes'.length)
    (same : message bytes = message bytes') : bytes = bytes' := by
  induction bytes generalizing bytes' with
  | nil => exact (List.length_eq_zero_iff.mp length.symm).symm
  | cons b rest ih =>
    obtain _ | ⟨b', rest'⟩ := bytes'
    · contradiction
    · have length' : rest.length = rest'.length := Nat.succ.inj length
      have apart : X ^ (8 * rest.length) * (ofByte b - ofByte b') =
          message rest' - message rest := by
        rw [message, message, ← length'] at same
        linear_combination same
      have behind : message rest' = message rest := by
        refine eq_of_dvd_sub ?_ ?_ (Dvd.intro _ apart)
        · rw [degree_X_pow, length']
          exact degree_message_lt rest'
        · rw [degree_X_pow]
          exact degree_message_lt rest
      rw [behind, sub_self, mul_eq_zero, sub_eq_zero] at apart
      have first := apart.resolve_left (pow_ne_zero _ X_ne_zero)
      rw [ofByte_inj first, ih length' behind.symm]

/-- The register after a byte string is a remainder of what it was before, moved up, and of the bits
of the string with room for a register. -/
theorem remainder_foldl (bytes : Bytes) (register : UInt32) :
    remainder (ofRegister (bytes.foldl update register)) =
      remainder (X ^ (8 * bytes.length) * ofRegister register + X ^ 32 * message bytes) := by
  induction bytes generalizing register with
  | nil => simp [message]
  | cons b rest ih =>
    rw [List.foldl_cons, ih, map_add, map_mul, remainder_update, message, List.length_cons]
    simp only [map_add, map_mul, map_pow]
    ring

/-- Byte strings have the same check exactly if the generator divides their difference. -/
theorem checksum_eq_iff {bytes bytes' : Bytes} :
    checksum bytes = checksum bytes' ↔ generator ∣ codeword bytes - codeword bytes' := by
  rw [checksum, checksum, UInt32.xor_left_inj, ← remainder_eq_iff, codeword, codeword,
    ← remainder_foldl, ← remainder_foldl, remainder_eq_iff]
  constructor
  · intro same
    rw [same, sub_self]
    exact dvd_zero _
  · exact fun divides => ofRegister_inj
      (eq_of_dvd_sub (degree_ofRegister_lt _) (degree_ofRegister_lt _) divides)

/-- A change of at most four bytes in a row shows in the check. -/
theorem checksum_append_inj {front old new back : Bytes} (length : old.length = new.length)
    (short : old.length ≤ 4)
    (same : checksum (front ++ old ++ back) = checksum (front ++ new ++ back)) : old = new := by
  have difference : codeword (front ++ old ++ back) - codeword (front ++ new ++ back) =
      X ^ (32 + 8 * back.length) * (message old - message new) := by
    simp only [codeword, message_append, List.length_append, length]
    ring
  have divides := checksum_eq_iff.mp same
  rw [difference] at divides
  -- The generator has no factor `X`, so that it divides what is left between front and back, and
  -- this has too low a degree to be divided unless it is nothing.
  have close := (generator_isCoprime_X_pow _).dvd_of_dvd_mul_left divides
  have bounded {bytes : Bytes} (short : bytes.length ≤ 4) :
      (message bytes).degree < generator.degree := by
    rw [degree_generator]
    refine (degree_message_lt bytes).trans_le ?_
    exact_mod_cast (show 8 * bytes.length ≤ 32 by omega)
  exact message_inj length (eq_of_dvd_sub (bounded short) (bounded (length ▸ short)) close)

end

end ClassBench.Crc32
