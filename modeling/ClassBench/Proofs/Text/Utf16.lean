import ClassBench.Text.Utf16

/-! Text and its UTF-16 units.  A character is one unit that is no surrogate or a pair of
surrogates, and reading takes a text apart where its units were put together, so units are read as a
text exactly if they are the units of that text. -/

namespace ClassBench.Utf16

/-! ### The units of a text are read back -/

theorem decodeInto_units_one (c : Char) (small : c.toNat < 0x10000) (read : List Char)
    (rest : List UInt16) :
    decodeInto read (c.toNat.toUInt16 :: rest) = decodeInto (c :: read) rest := by
  have value : c.toNat.toUInt16.toNat = c.toNat := by simpa using small
  have scalar : c.toNat < 0xD800 ∨ 0xDFFF < c.toNat ∧ c.toNat < 0x110000 := c.valid
  have high : isHigh c.toNat.toUInt16 = false := by
    simp [isHigh, UInt16.le_iff_toNat_le, -UInt16.toNat_ofNat', value]
    omega
  have low : isLow c.toNat.toUInt16 = false := by
    simp [isLow, UInt16.le_iff_toNat_le, -UInt16.toNat_ofNat', value]
    omega
  rw [decodeInto.eq_def]
  simp [high, low, value]

theorem decodeInto_units_pair (c : Char) (large : ¬c.toNat < 0x10000) (read : List Char)
    (rest : List UInt16) :
    decodeInto read ((0xD800 + (c.toNat - 0x10000) / 0x400).toUInt16 ::
      (0xDC00 + (c.toNat - 0x10000) % 0x400).toUInt16 :: rest) = decodeInto (c :: read) rest := by
  have scalar : c.toNat < 0xD800 ∨ 0xDFFF < c.toNat ∧ c.toNat < 0x110000 := c.valid
  generalize hu : (0xD800 + (c.toNat - 0x10000) / 0x400).toUInt16 = u
  generalize hv : (0xDC00 + (c.toNat - 0x10000) % 0x400).toUInt16 = v
  have u_value : u.toNat = 0xD800 + (c.toNat - 0x10000) / 0x400 := by
    rw [← hu, UInt16.toNat_ofNat']
    omega
  have v_value : v.toNat = 0xDC00 + (c.toNat - 0x10000) % 0x400 := by
    rw [← hv, UInt16.toNat_ofNat']
    omega
  have high : isHigh u = true := by
    simp [isHigh, UInt16.le_iff_toNat_le, u_value]
    omega
  have low : isLow v = true := by
    simp [isLow, UInt16.le_iff_toNat_le, v_value]
    omega
  have pair : ofPair u v = c := by
    rw [ofPair, u_value, v_value]
    rw [show 0x10000 + (0xD800 + (c.toNat - 0x10000) / 0x400 - 0xD800) * 0x400 +
      (0xDC00 + (c.toNat - 0x10000) % 0x400 - 0xDC00) = c.toNat by omega, Char.ofNat_toNat]
  rw [decodeInto, if_pos high, if_pos low, pair]

/-- Reading the units of a character adds the character to what was read. -/
theorem decodeInto_units (c : Char) (read : List Char) (rest : List UInt16) :
    decodeInto read (units c ++ rest) = decodeInto (c :: read) rest := by
  unfold units
  split
  · next small => exact decodeInto_units_one c small read rest
  · next large => exact decodeInto_units_pair c large read rest

theorem decodeInto_encode (text read : List Char) :
    decodeInto read (encode text) = some (read.reverse ++ text) := by
  induction text generalizing read with
  | nil => simp [encode, decodeInto]
  | cons c text ih =>
    have tail := ih (c :: read)
    rw [encode] at tail ⊢
    rw [List.flatMap_cons, decodeInto_units, tail]
    simp

theorem decode?_encode (text : List Char) : decode? (encode text) = some text :=
  decodeInto_encode text []

/-! ### Units that are read are those of the text -/

theorem toNat_ofNat {n : Nat} (valid : n.isValidChar) : (Char.ofNat n).toNat = n := by
  rw [Char.ofNat, dif_pos valid]
  rfl

theorem isHigh_iff {u : UInt16} : isHigh u = true ↔ 0xD800 ≤ u.toNat ∧ u.toNat ≤ 0xDBFF := by
  simp [isHigh, UInt16.le_iff_toNat_le]

theorem isLow_iff {u : UInt16} : isLow u = true ↔ 0xDC00 ≤ u.toNat ∧ u.toNat ≤ 0xDFFF := by
  simp [isLow, UInt16.le_iff_toNat_le]

theorem units_ofNat {u : UInt16} (notHigh : isHigh u ≠ true) (notLow : isLow u ≠ true) :
    units (Char.ofNat u.toNat) = [u] := by
  have bound := u.toNat_lt
  rw [ne_eq, isHigh_iff] at notHigh
  rw [ne_eq, isLow_iff] at notLow
  have value : (Char.ofNat u.toNat).toNat = u.toNat := by
    apply toNat_ofNat
    unfold Nat.isValidChar
    omega
  rw [units, if_pos (by omega), value]
  simp

theorem units_ofPair {high low : UInt16} (begins : isHigh high = true) (ends : isLow low = true) :
    units (ofPair high low) = [high, low] := by
  rw [isHigh_iff] at begins
  rw [isLow_iff] at ends
  have value : (ofPair high low).toNat =
      0x10000 + (high.toNat - 0xD800) * 0x400 + (low.toNat - 0xDC00) :=
    toNat_ofNat (by unfold Nat.isValidChar; omega)
  have first : 0xD800 + ((ofPair high low).toNat - 0x10000) / 0x400 = high.toNat := by omega
  have second : 0xDC00 + ((ofPair high low).toNat - 0x10000) % 0x400 = low.toNat := by omega
  rw [units, if_neg (by omega)]
  simp only [first, second]
  simp

theorem encode_of_decodeInto {read text : List Char} {us : List UInt16}
    (decoded : decodeInto read us = some text) : encode text = encode read.reverse ++ us := by
  have add (read : List Char) (c : Char) :
      encode (c :: read).reverse = encode read.reverse ++ units c := by
    simp [encode]
  fun_induction decodeInto read us with
  | case1 read => simp_all
  | case2 read u high v rest low ih =>
    rw [ih decoded, add, units_ofPair high low]
    simp
  | case3 => contradiction
  | case4 => contradiction
  | case5 => contradiction
  | case6 read u rest notHigh notLow ih =>
    rw [ih decoded, add, units_ofNat notHigh notLow]
    simp

theorem decode?_eq_some {us : List UInt16} {text : List Char} :
    decode? us = some text ↔ us = encode text := by
  constructor
  · intro decoded
    have same := encode_of_decodeInto decoded
    simpa [encode] using same.symm
  · rintro rfl
    exact decode?_encode text

end ClassBench.Utf16
