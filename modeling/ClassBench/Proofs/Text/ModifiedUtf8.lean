import ClassBench.Proofs.Text.Utf16
import ClassBench.Text.ModifiedUtf8

/-! Which bytes are read as which text.  `Spells` says that bytes are read as units: each unit from
one, two or three bytes, as its first byte tells, and possibly from more than the unit needs.  The
bytes that are written for a text are one spelling of it, and every other one is longer. -/

namespace ClassBench.ModifiedUtf8

/-- The bytes are read as one unit. -/
inductive UnitSpelling : Bytes → UInt16 → Prop
  | one {a : UInt8} (first : 0x01 ≤ a ∧ a ≤ 0x7F) : UnitSpelling [a] a.toUInt16
  | two {a b : UInt8} {low : Nat} (first : 0xC0 ≤ a ∧ a ≤ 0xDF)
      (second : continuation? b = some low) :
      UnitSpelling [a, b] ((a.toNat - 0xC0) * 64 + low).toUInt16
  | three {a b c : UInt8} {middle low : Nat} (first : 0xE0 ≤ a ∧ a ≤ 0xEF)
      (second : continuation? b = some middle) (third : continuation? c = some low) :
      UnitSpelling [a, b, c] ((a.toNat - 0xE0) * 4096 + middle * 64 + low).toUInt16

/-- The bytes are read as these units. -/
inductive Spells : Bytes → List UInt16 → Prop
  | nil : Spells [] []
  | cons {first rest : Bytes} {u : UInt16} {us : List UInt16} (unit : UnitSpelling first u)
      (more : Spells rest us) : Spells (first ++ rest) (u :: us)

/-! ### One unit -/

theorem continuation?_ofNat (n : Nat) (small : n < 64) :
    continuation? (0x80 + n).toUInt8 = some n := by
  have value : (0x80 + n).toUInt8.toNat = 0x80 + n := by
    rw [UInt8.toNat_ofNat']
    omega
  have range : 0x80 ≤ (0x80 + n).toUInt8 ∧ (0x80 + n).toUInt8 ≤ 0xBF := by
    simp only [UInt8.le_iff_toNat_le, value, UInt8.reduceToNat]
    omega
  rw [continuation?, if_pos range, value, Nat.add_sub_cancel_left]

theorem continuation?_lt {b : UInt8} {n : Nat} (continues : continuation? b = some n) : n < 64 := by
  unfold continuation? at continues
  split at continues
  · next range =>
    simp only [UInt8.le_iff_toNat_le, UInt8.reduceToNat] at range
    obtain rfl := Option.some.inj continues
    omega
  · contradiction

theorem eq_of_continuation? {b : UInt8} {n : Nat} (continues : continuation? b = some n) :
    b = (0x80 + n).toUInt8 := by
  unfold continuation? at continues
  split at continues
  · next range =>
    simp only [UInt8.le_iff_toNat_le, UInt8.reduceToNat] at range
    obtain rfl := Option.some.inj continues
    rw [Nat.add_sub_cancel' range.1]
    exact UInt8.ofNat_toNat.symm
  · contradiction

theorem unitsInto_append {first : Bytes} {u : UInt16} (unit : UnitSpelling first u) (offset : Nat)
    (read : List UInt16) (rest : Bytes) :
    unitsInto offset read (first ++ rest) = unitsInto (offset + first.length) (u :: read) rest := by
  cases unit with
  | one range =>
    show unitsInto offset read (_ :: rest) = _
    rw [unitsInto.eq_def]
    simp only [if_pos range]
    rfl
  | @two a b low range second =>
    have notOne : ¬(0x01 ≤ a ∧ a ≤ 0x7F) := by
      simp only [UInt8.le_iff_toNat_le, UInt8.reduceToNat] at range ⊢
      omega
    show unitsInto offset read (a :: b :: rest) = _
    rw [unitsInto, if_neg notOne, if_pos range]
    simp only [second]
    rfl
  | @three a b c middle low range second third =>
    have notOne : ¬(0x01 ≤ a ∧ a ≤ 0x7F) := by
      simp only [UInt8.le_iff_toNat_le, UInt8.reduceToNat] at range ⊢
      omega
    have notTwo : ¬(0xC0 ≤ a ∧ a ≤ 0xDF) := by
      simp only [UInt8.le_iff_toNat_le, UInt8.reduceToNat] at range ⊢
      omega
    show unitsInto offset read (a :: b :: c :: rest) = _
    rw [unitsInto, if_neg notOne, if_neg notTwo, if_pos range]
    simp only [second, third]
    rfl

theorem unitSpelling_one (n : Nat) (range : 1 ≤ n ∧ n ≤ 0x7F) :
    UnitSpelling [n.toUInt8] n.toUInt16 := by
  have value : n.toUInt8.toNat = n := by
    rw [UInt8.toNat_ofNat']
    omega
  have unit : n.toUInt8.toUInt16 = n.toUInt16 := by
    apply UInt16.toNat_inj.mp
    rw [UInt8.toNat_toUInt16, value, UInt16.toNat_ofNat']
    omega
  rw [← unit]
  refine .one ?_
  simp only [UInt8.le_iff_toNat_le, value, UInt8.reduceToNat]
  exact range

theorem unitSpelling_two (n : Nat) (small : n ≤ 0x7FF) :
    UnitSpelling [(0xC0 + n / 64).toUInt8, (0x80 + n % 64).toUInt8] n.toUInt16 := by
  have value : (0xC0 + n / 64).toUInt8.toNat = 0xC0 + n / 64 := by
    rw [UInt8.toNat_ofNat']
    omega
  have spelling := UnitSpelling.two (a := (0xC0 + n / 64).toUInt8)
    (by simp only [UInt8.le_iff_toNat_le, value, UInt8.reduceToNat]; omega)
    (continuation?_ofNat (n % 64) (Nat.mod_lt n (by decide)))
  rwa [value, show (0xC0 + n / 64 - 0xC0) * 64 + n % 64 = n by omega] at spelling

theorem unitSpelling_three (n : Nat) (small : n < 0x10000) :
    UnitSpelling [(0xE0 + n / 4096).toUInt8, (0x80 + n / 64 % 64).toUInt8, (0x80 + n % 64).toUInt8]
      n.toUInt16 := by
  have value : (0xE0 + n / 4096).toUInt8.toNat = 0xE0 + n / 4096 := by
    rw [UInt8.toNat_ofNat']
    omega
  have spelling := UnitSpelling.three (a := (0xE0 + n / 4096).toUInt8)
    (by simp only [UInt8.le_iff_toNat_le, value, UInt8.reduceToNat]; omega)
    (continuation?_ofNat (n / 64 % 64) (Nat.mod_lt (n / 64) (by decide)))
    (continuation?_ofNat (n % 64) (Nat.mod_lt n (by decide)))
  rwa [value, show (0xE0 + n / 4096 - 0xE0) * 4096 + n / 64 % 64 * 64 + n % 64 = n by omega]
    at spelling

theorem unitSpelling_unitBytes (u : UInt16) : UnitSpelling (unitBytes u) u := by
  have unit : u.toNat.toUInt16 = u := UInt16.ofNat_toNat
  unfold unitBytes
  dsimp only
  split
  · next range =>
    have spelling := unitSpelling_one u.toNat range
    rwa [unit] at spelling
  · split
    · next small =>
      have spelling := unitSpelling_two u.toNat small
      rwa [unit] at spelling
    · have spelling := unitSpelling_three u.toNat u.toNat_lt
      rwa [unit] at spelling

theorem length_unitBytes (u : UInt16) : (unitBytes u).length =
    if 1 ≤ u.toNat ∧ u.toNat ≤ 0x7F then 1 else if u.toNat ≤ 0x7FF then 2 else 3 := by
  unfold unitBytes
  dsimp only
  split
  · rfl
  · split <;> rfl

/-- A unit is written in the fewest bytes that are read as it. -/
theorem UnitSpelling.length_le {bytes : Bytes} {u : UInt16} (spelling : UnitSpelling bytes u) :
    (unitBytes u).length ≤ bytes.length := by
  rw [length_unitBytes]
  cases spelling with
  | @one a first =>
    have range : 1 ≤ a.toUInt16.toNat ∧ a.toUInt16.toNat ≤ 0x7F := by
      simpa [UInt8.le_iff_toNat_le] using first
    rw [if_pos range]
    exact Nat.le_refl 1
  | @two a b low first second =>
    have bound := continuation?_lt second
    simp only [UInt8.le_iff_toNat_le, UInt8.reduceToNat] at first
    have small : ((a.toNat - 0xC0) * 64 + low).toUInt16.toNat ≤ 0x7FF := by
      rw [UInt16.toNat_ofNat']
      omega
    rw [if_pos small]
    show _ ≤ 2
    split <;> omega
  | three =>
    show _ ≤ 3
    split
    · omega
    · split <;> omega

/-- A unit has no second spelling as short as the one that is written. -/
theorem UnitSpelling.eq_unitBytes {bytes : Bytes} {u : UInt16} (spelling : UnitSpelling bytes u)
    (shortest : (unitBytes u).length = bytes.length) : bytes = unitBytes u := by
  rw [length_unitBytes] at shortest
  unfold unitBytes
  dsimp only
  cases spelling with
  | @one a first =>
    have range : 1 ≤ a.toUInt16.toNat ∧ a.toUInt16.toNat ≤ 0x7F := by
      simpa [UInt8.le_iff_toNat_le] using first
    rw [if_pos range, UInt8.toNat_toUInt16]
    exact congrArg (fun b => [b]) UInt8.ofNat_toNat.symm
  | @two a b low first second =>
    have bound := continuation?_lt second
    simp only [UInt8.le_iff_toNat_le, UInt8.reduceToNat] at first
    have value : ((a.toNat - 0xC0) * 64 + low).toUInt16.toNat = (a.toNat - 0xC0) * 64 + low := by
      rw [UInt16.toNat_ofNat']
      omega
    rw [value] at shortest ⊢
    have notOne : ¬(1 ≤ (a.toNat - 0xC0) * 64 + low ∧ (a.toNat - 0xC0) * 64 + low ≤ 0x7F) := by
      intro range
      rw [if_pos range] at shortest
      exact absurd shortest (by decide : ¬1 = 2)
    have head : 0xC0 + ((a.toNat - 0xC0) * 64 + low) / 64 = a.toNat := by omega
    have tail : ((a.toNat - 0xC0) * 64 + low) % 64 = low := by omega
    rw [if_neg notOne, if_pos (by omega), head, tail, ← eq_of_continuation? second]
    exact congrArg (fun c => [c, b]) UInt8.ofNat_toNat.symm
  | @three a b c middle low first second third =>
    have := continuation?_lt second
    have := continuation?_lt third
    simp only [UInt8.le_iff_toNat_le, UInt8.reduceToNat] at first
    generalize number : (a.toNat - 0xE0) * 4096 + middle * 64 + low = n at shortest ⊢
    have value : n.toUInt16.toNat = n := by
      rw [UInt16.toNat_ofNat']
      omega
    rw [value] at shortest ⊢
    have notOne : ¬(1 ≤ n ∧ n ≤ 0x7F) := by
      intro range
      rw [if_pos range] at shortest
      exact absurd shortest (by decide : ¬1 = 3)
    have notTwo : ¬n ≤ 0x7FF := by
      intro small
      rw [if_neg notOne, if_pos small] at shortest
      exact absurd shortest (by decide : ¬2 = 3)
    have head : 0xE0 + n / 4096 = a.toNat := by omega
    have inner : n / 64 % 64 = middle := by omega
    have tail : n % 64 = low := by omega
    rw [if_neg notOne, if_neg notTwo, head, inner, tail, ← eq_of_continuation? second,
      ← eq_of_continuation? third]
    exact congrArg (fun d => [d, b, c]) UInt8.ofNat_toNat.symm

/-! ### Texts -/

theorem UnitSpelling.added {first rest : Bytes} {u : UInt16} {read us : List UInt16}
    (unit : UnitSpelling first u)
    (more : ∃ added, us = (u :: read).reverse ++ added ∧ Spells rest added) :
    ∃ added, us = read.reverse ++ added ∧ Spells (first ++ rest) added := by
  obtain ⟨added, rfl, spelled⟩ := more
  exact ⟨u :: added, by simp, .cons unit spelled⟩

theorem spells_of_unitsInto {offset : Nat} {read us : List UInt16} {bytes : Bytes}
    (decoded : unitsInto offset read bytes = .ok us) :
    ∃ added, us = read.reverse ++ added ∧ Spells bytes added := by
  fun_induction unitsInto offset read bytes with
  | case1 => exact ⟨[], by simpa using decoded.symm, .nil⟩
  | case2 offset read a rest first ih => exact UnitSpelling.added (.one first) (ih decoded)
  | case3 offset read a _ first b rest low second ih =>
    exact UnitSpelling.added (.two first second) (ih decoded)
  | case6 offset read a _ _ first b middle second c rest low third ih =>
    exact UnitSpelling.added (.three first second third) (ih decoded)
  | case4 | case5 | case7 | case8 | case9 | case10 | case11 => contradiction

theorem unitsInto_of_spells {bytes : Bytes} {us : List UInt16} (spelled : Spells bytes us)
    (offset : Nat) (read : List UInt16) : unitsInto offset read bytes = .ok (read.reverse ++ us) := by
  induction spelled generalizing offset read with
  | nil => simp [unitsInto]
  | cons unit _ ih =>
    rw [unitsInto_append unit, ih]
    simp

/-- Bytes are read as a text exactly if they spell its units, wherever they stand. -/
theorem decode_eq_ok {bytes : Bytes} {offset : Nat} {text : String} :
    decode bytes offset = .ok text ↔ Spells bytes (Utf16.encode text.toList) := by
  unfold decode
  constructor
  · intro decoded
    split at decoded
    · contradiction
    · next us read =>
      obtain ⟨added, rfl, spelled⟩ := spells_of_unitsInto read
      split at decoded
      · next chars units =>
        obtain rfl := Except.ok.inj decoded
        rw [String.toList_ofList, ← Utf16.decode?_eq_some.mp units]
        exact spelled
      · contradiction
  · intro spelled
    simp [unitsInto_of_spells spelled, Utf16.decode?_encode]

theorem spells_flatMap (us : List UInt16) : Spells (us.flatMap unitBytes) us := by
  induction us with
  | nil => exact .nil
  | cons u us ih => exact .cons (unitSpelling_unitBytes u) ih

theorem Spells.length_le {bytes : Bytes} {us : List UInt16} (spelled : Spells bytes us) :
    (us.flatMap unitBytes).length ≤ bytes.length := by
  induction spelled with
  | nil => exact Nat.le_refl 0
  | cons unit _ ih =>
    rw [List.flatMap_cons, List.length_append, List.length_append]
    exact Nat.add_le_add unit.length_le ih

/-- An encoded text is read back, whatever its offset. -/
theorem decode_encoded (offset : Nat) (text : String) : decode (encode text) offset = .ok text :=
  decode_eq_ok.mpr (spells_flatMap _)

/-- A text is written in the fewest bytes that are read as it. -/
theorem length_encode_le {bytes : Bytes} {offset : Nat} {text : String}
    (decoded : decode bytes offset = .ok text) : (encode text).length ≤ bytes.length :=
  (decode_eq_ok.mp decoded).length_le

/-- Units have no second spelling as short as the one that is written. -/
theorem Spells.eq_flatMap {bytes : Bytes} {us : List UInt16} (spelled : Spells bytes us)
    (shortest : (us.flatMap unitBytes).length = bytes.length) : bytes = us.flatMap unitBytes := by
  induction spelled with
  | nil => rfl
  | cons unit more ih =>
    rw [List.flatMap_cons, List.length_append, List.length_append] at shortest
    have := unit.length_le
    have := more.length_le
    rw [List.flatMap_cons, ← unit.eq_unitBytes (by omega), ← ih (by omega)]

/-- An encoded text is read back, whatever its offset, so that no two texts are encoded alike; and
of all the bytes that are read as a text its encoding is the only shortest. -/
theorem encode_is_canonical :
    (∀ text offset, decode (encode text) offset = .ok text) ∧ Function.Injective encode ∧
      ∀ bytes offset text, decode bytes offset = .ok text →
        (encode text).length ≤ bytes.length ∧
          ((encode text).length = bytes.length ↔ bytes = encode text) := by
  refine ⟨fun text offset => decode_encoded offset text, fun first second same => ?_,
    fun bytes offset text decoded => ⟨length_encode_le decoded, ?_, ?_⟩⟩
  · have back := decode_encoded 0 first
    rw [same, decode_encoded] at back
    exact (Except.ok.inj back).symm
  · exact (decode_eq_ok.mp decoded).eq_flatMap
  · rintro rfl
    rfl

/-- A letter in two bytes, zero in three, and a pair of surrogates in its six bytes. -/
theorem encode_is_canonical_long :
    let bytes : Bytes := [0xC1, 0x81, 0xE0, 0x80, 0x80, 0xED, 0xA0, 0xBC, 0xED, 0xBE, 0x89]
    let text := "A\x00🎉"
    decode bytes 7 = .ok text ∧ (encode text).length ≤ bytes.length ∧
      ((encode text).length = bytes.length ↔ bytes = encode text) := by
  intro bytes text
  have decoded : decode bytes 7 = .ok text := by rfl
  exact ⟨decoded, encode_is_canonical.2.2 bytes 7 text decoded⟩

end ClassBench.ModifiedUtf8
