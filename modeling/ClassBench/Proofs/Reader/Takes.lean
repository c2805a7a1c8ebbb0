import ClassBench.ClassFile.Codec

/-! What a reader has taken from its input, the converse of `Reads`.  `Takes reader cursor spells`
says that a run from `cursor` that succeeds has passed over bytes that spell its value.  Readers in
sequence pass over a concatenation, so what a format accepts is put together along its grammar. -/

namespace ClassBench

/-- If the reader succeeds from the cursor, then it passes over bytes that spell its value. -/
def Reader.Takes (reader : Reader α) (cursor : Cursor) (spells : Bytes → α → Prop) : Prop :=
  ∀ value after, reader cursor = .ok value after →
    ∃ taken, cursor.rest = taken ++ after.rest ∧
      after.position = cursor.position + taken.length ∧ spells taken value

variable {α β : Type} {cursor after : Cursor}

theorem Reader.bind_eq_ok {reader : Reader α} {next : α → Reader β} {b : β} :
    (reader >>= next) cursor = .ok b after ↔
      ∃ a middle, reader cursor = .ok a middle ∧ next a middle = .ok b after := by
  show EStateM.bind reader next cursor = _ ↔ _
  rw [EStateM.bind]
  cases reader cursor <;> simp [and_assoc]

theorem Reader.run_eq_ok {reader : Reader α} {bytes : Bytes} {a : α} :
    reader.run bytes = .ok a ↔ ∃ after, reader ⟨bytes, 0⟩ = .ok a after := by
  rw [Reader.run]
  cases reader ⟨bytes, 0⟩ <;> simp

theorem Reader.bytes_of_le {count : Nat} (enough : count ≤ cursor.rest.length) :
    Reader.bytes count cursor =
      .ok (cursor.rest.take count) ⟨cursor.rest.drop count, cursor.position + count⟩ := by
  have taken : (cursor.rest.take count).length = count := List.length_take_of_le enough
  simp only [Reader.bytes, List.splitAt_eq, taken, if_true]

theorem Reader.bytes_of_lt {count : Nat} (short : cursor.rest.length < count) :
    Reader.bytes count cursor = .error (.unexpectedEnd cursor.position) cursor := by
  have missing : (cursor.rest.take count).length ≠ count := by
    rw [List.length_take]
    omega
  simp only [Reader.bytes, List.splitAt_eq, missing, if_false]

namespace Reader.Takes

variable {reader : Reader α} {P : Bytes → α → Prop} {Q : Bytes → β → Prop}

theorem mono {P' : Bytes → α → Prop} (h : Takes reader cursor P)
    (weaker : ∀ taken a, P taken a → P' taken a) : Takes reader cursor P' := by
  intro a after run
  obtain ⟨taken, split, moved, spelled⟩ := h a after run
  exact ⟨taken, split, moved, weaker taken a spelled⟩

protected theorem pure {b : β} (spelled : Q [] b) : Takes (pure b) cursor Q := by
  intro value after run
  obtain ⟨rfl, rfl⟩ : b = value ∧ cursor = after := by
    simpa [pure, EStateM.pure] using run
  exact ⟨[], rfl, rfl, spelled⟩

protected theorem throw {error : DecodeError} : Takes (throw error) cursor Q := by
  intro value after run
  cases run

/-- The second reader goes on where the first one stopped. -/
theorem bind {next : α → Reader β} (h : Takes reader cursor P)
    (hNext : ∀ first a middle, cursor.rest = first ++ middle.rest → P first a →
      Takes (next a) middle fun second b => Q (first ++ second) b) :
    Takes (reader >>= next) cursor Q := by
  intro b after run
  obtain ⟨a, middle, run1, run2⟩ := bind_eq_ok.mp run
  obtain ⟨first, split1, moved1, spelled1⟩ := h a middle run1
  obtain ⟨second, split2, moved2, spelled2⟩ := hNext first a middle split1 spelled1 b after run2
  refine ⟨first ++ second, ?_, ?_, spelled2⟩
  · rw [split1, split2, List.append_assoc]
  · rw [moved2, moved1, List.length_append, Nat.add_assoc]

theorem map (f : α → β) (h : Takes reader cursor P)
    (spelled : ∀ taken a, P taken a → Q taken (f a)) :
    Takes (do return f (← reader)) cursor Q :=
  h.bind fun first a _ _ hFirst => Takes.pure (by simpa using spelled first a hFirst)

protected theorem position {next : Nat → Reader β} (h : Takes (next cursor.position) cursor Q) :
    Takes (Reader.position >>= next) cursor Q := h

protected theorem get {next : Cursor → Reader β} (h : Takes (next cursor) cursor Q) :
    Takes (get >>= next) cursor Q := h

/-! ### Bytes and words -/

protected theorem u8 : Takes Reader.u8 cursor fun taken byte => taken = [byte] := by
  intro value after run
  unfold Reader.u8 at run
  split at run
  · next a rest front =>
    obtain ⟨rfl, rfl⟩ : a = value ∧ _ = after := by simpa using run
    exact ⟨[a], front, rfl, rfl⟩
  · contradiction

protected theorem u16 : Takes Reader.u16 cursor fun taken w => taken = Bytes.ofUInt16 w := by
  intro value after run
  unfold Reader.u16 at run
  split at run
  · next a b rest front =>
    obtain ⟨rfl, rfl⟩ : Word.u16 a b = value ∧ _ = after := by simpa using run
    exact ⟨[a, b], front, rfl, (Bytes.ofUInt16_u16 a b).symm⟩
  · contradiction

protected theorem u32 : Takes Reader.u32 cursor fun taken w => taken = Bytes.ofUInt32 w := by
  intro value after run
  unfold Reader.u32 at run
  split at run
  · next a b c d rest front =>
    obtain ⟨rfl, rfl⟩ : Word.u32 a b c d = value ∧ _ = after := by simpa using run
    exact ⟨[a, b, c, d], front, rfl, (Bytes.ofUInt32_u32 a b c d).symm⟩
  · contradiction

protected theorem i32 : Takes Reader.i32 cursor fun taken n => taken = Bytes.ofInt32 n :=
  Takes.u32.map UInt32.toInt32 fun taken w spelled => by simpa [Bytes.ofInt32] using spelled

protected theorem u64 : Takes Reader.u64 cursor fun taken w => taken = Bytes.ofUInt64 w := by
  refine Takes.u32.bind fun first high _ _ hFirst => ?_
  refine Takes.u32.map (Word.u64 high) fun second low hSecond => ?_
  rw [hFirst, hSecond, Bytes.ofUInt64_u64]

protected theorem i64 : Takes Reader.i64 cursor fun taken n => taken = Bytes.ofInt64 n :=
  Takes.u64.map UInt64.toInt64 fun taken w spelled => by simpa [Bytes.ofInt64] using spelled

protected theorem bytes (count : Nat) :
    Takes (Reader.bytes count) cursor fun taken bytes => taken = bytes ∧ bytes.length = count := by
  intro value after run
  simp only [Reader.bytes, List.splitAt_eq] at run
  split at run
  · next full =>
    obtain ⟨rfl, rfl⟩ : cursor.rest.take count = value ∧ _ = after := by simpa using run
    exact ⟨_, (List.take_append_drop count cursor.rest).symm, by rw [full], rfl, full⟩
  · contradiction

protected theorem skip (count : Nat) :
    Takes (Reader.skip count) cursor fun taken _ => taken.length = count :=
  (Takes.bytes count).bind fun first bytes _ _ ⟨same, full⟩ =>
    Takes.pure (by rw [List.append_nil, same, full])

protected theorem measured : Takes Reader.measured cursor fun taken bytes =>
    taken = Bytes.measured bytes ∧ bytes.length < UInt32.size := by
  refine Takes.u32.bind fun first length _ _ hFirst => ?_
  refine (Takes.bytes length.toNat).mono fun second bytes hSecond => ?_
  obtain ⟨rfl, full⟩ := hSecond
  refine ⟨?_, by rw [full]; exact length.toNat_lt⟩
  rw [Bytes.measured, hFirst, full]
  simp

/-! ### Lists -/

theorem repeatInto {item : Reader α} {encode : α → Bytes} {Fits : α → Prop}
    (each : ∀ cursor, Takes item cursor fun taken a => taken = encode a ∧ Fits a) (count : Nat)
    (read : List α) :
    Takes (Reader.repeatInto item count read) cursor fun taken all =>
      ∃ items, all = read.reverse ++ items ∧ items.length = count ∧
        taken = items.flatMap encode ∧ ∀ a ∈ items, Fits a := by
  induction count generalizing read cursor with
  | zero => exact Takes.pure ⟨[], by simp⟩
  | succ count ih =>
    refine (each cursor).bind fun first a _ _ ⟨hFirst, fits⟩ => ?_
    refine (ih (a :: read)).mono fun second all ⟨items, split, length, hSecond, fit⟩ => ?_
    refine ⟨a :: items, by simp [split], by simp [length], ?_, ?_⟩
    · rw [hFirst, hSecond, List.flatMap_cons]
    · simpa [fits] using fit

theorem counted {item : Reader α} {encode : α → Bytes} {Fits : α → Prop}
    (each : ∀ cursor, Takes item cursor fun taken a => taken = encode a ∧ Fits a) :
    Takes (Reader.counted item) cursor fun taken items =>
      taken = Bytes.counted encode items ∧ items.length ≤ 65535 ∧ ∀ a ∈ items, Fits a := by
  refine Takes.u16.bind fun first count _ _ hFirst => ?_
  refine (repeatInto each count.toNat []).mono ?_
  rintro second items ⟨_, rfl, length, hSecond, fit⟩
  have bound := count.toNat_lt
  refine ⟨?_, by omega, fit⟩
  rw [hFirst, hSecond, Bytes.counted]
  simp [length]

end Reader.Takes

end ClassBench
