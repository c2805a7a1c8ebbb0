import ClassBench.Proofs.Reader.Fails
import ClassBench.Proofs.Reader.Takes
import Mathlib.Algebra.Ring.Nat

/-! How far a reader moves its cursor.  A basic read is one stride: it passes over all of its bytes,
or fails where it began.  A reader put together from others makes their strides in a row, so it may
fail behind some of them; `Strides` says where, and what the fault names. -/

namespace ClassBench

/-- The cursor that many bytes further on. -/
def Cursor.advance (cursor : Cursor) (count : Nat) : Cursor :=
  ⟨cursor.rest.drop count, cursor.position + count⟩

theorem Cursor.advance_advance (cursor : Cursor) (m n : Nat) :
    (cursor.advance m).advance n = cursor.advance (m + n) := by
  simp only [advance, List.drop_drop, Nat.add_assoc]

theorem Cursor.length_advance (cursor : Cursor) (count : Nat) :
    (cursor.advance count).rest.length = cursor.rest.length - count := List.length_drop

namespace Reader

/-- How far strides in a row lead where `left` bytes are ahead.  A stride is made as a whole, and one
that is too long ends the row. -/
def reach : List Nat → Nat → Nat
  | [], _ => 0
  | stride :: strides, left =>
    if stride ≤ left then stride + reach strides (left - stride) else 0

theorem reach_le (strides : List Nat) (left : Nat) : reach strides left ≤ left := by
  induction strides generalizing left with
  | nil => exact Nat.zero_le left
  | cons stride strides ih =>
    have h := ih (left - stride)
    rw [reach]
    split <;> omega

theorem reach_append (front strides : List Nat) (left : Nat) :
    reach (front ++ strides) left =
      if front.sum ≤ left then front.sum + reach strides (left - front.sum)
      else reach front left := by
  induction front generalizing left with
  | nil => simp
  | cons stride front ih =>
    rw [List.cons_append, reach, ih, reach, List.sum_cons, Nat.sub_sub]
    by_cases first : stride ≤ left
    · rw [if_pos first, if_pos first]
      by_cases all : front.sum ≤ left - stride
      · rw [if_pos all, if_pos (by omega), Nat.add_assoc]
      · rw [if_neg all, if_neg (by omega)]
    · rw [if_neg first, if_neg first, if_neg (by omega)]

end Reader

/-- The reader makes these strides in a row.  It succeeds if there are bytes for all of them, and
otherwise fails at the first that is too long, of which it passes over nothing. -/
structure Reader.Strides (reader : Reader α) (strides : List Nat) : Prop where
  arrives : ∀ cursor : Cursor, strides.sum ≤ cursor.rest.length →
    ∃ value, reader cursor = .ok value (cursor.advance strides.sum)
  ends : ∀ cursor : Cursor, cursor.rest.length < strides.sum →
    reader cursor =
      .error (.unexpectedEnd (cursor.position + reach strides cursor.rest.length))
        (cursor.advance (reach strides cursor.rest.length))

namespace Reader.Strides

variable {α β : Type} {reader : Reader α} {strides more : List Nat} {count : Nat}

protected theorem pure (a : α) : Strides (pure a) [] where
  arrives _ _ := ⟨a, rfl⟩
  ends _ short := absurd short (Nat.not_lt_zero _)

theorem bind {next : α → Reader β} (h : Strides reader strides)
    (hNext : ∀ a, Strides (next a) more) : Strides (reader >>= next) (strides ++ more) where
  arrives cursor enough := by
    rw [List.sum_append] at enough ⊢
    obtain ⟨a, first⟩ := h.arrives cursor (by omega)
    obtain ⟨b, second⟩ := (hNext a).arrives (cursor.advance strides.sum) (by
      rw [cursor.length_advance]
      omega)
    rw [cursor.advance_advance] at second
    exact ⟨b, bind_eq_ok.mpr ⟨a, _, first, second⟩⟩
  ends cursor short := by
    rw [List.sum_append] at short
    apply bind_eq_error.mpr
    rw [reach_append]
    by_cases enough : strides.sum ≤ cursor.rest.length
    · obtain ⟨a, first⟩ := h.arrives cursor enough
      have second := (hNext a).ends (cursor.advance strides.sum) (by
        rw [cursor.length_advance]
        omega)
      rw [cursor.advance_advance, cursor.length_advance] at second
      refine .inr ⟨a, _, first, ?_⟩
      rw [if_pos enough, second, Cursor.advance, Nat.add_assoc]
    · rw [if_neg enough]
      exact .inl (h.ends cursor (by omega))

theorem map (f : α → β) (h : Strides reader strides) :
    Strides (do return f (← reader)) strides := by
  simpa using h.bind fun a => Strides.pure (f a)

/-- A read that takes all of its bytes or fails where it began. -/
theorem single (arrives : ∀ cursor : Cursor, count ≤ cursor.rest.length →
      ∃ value, reader cursor = .ok value (cursor.advance count))
    (ends : ∀ cursor : Cursor, cursor.rest.length < count →
      reader cursor = .error (.unexpectedEnd cursor.position) cursor) :
    Strides reader [count] where
  arrives cursor enough := by simpa using arrives cursor (by simpa using enough)
  ends cursor short := by
    have short : cursor.rest.length < count := by simpa using short
    rw [reach, if_neg (Nat.not_le.mpr short)]
    exact ends cursor short

protected theorem u8 : Strides Reader.u8 [1] := by
  apply single
  · intro cursor enough
    match cursor, enough with
    | ⟨a :: rest, position⟩, _ => exact ⟨a, rfl⟩
  · intro cursor short
    match cursor, short with
    | ⟨[], position⟩, _ => rfl

protected theorem u16 : Strides Reader.u16 [2] := by
  apply single
  · intro cursor enough
    match cursor, enough with
    | ⟨a :: b :: rest, position⟩, _ => exact ⟨Word.u16 a b, rfl⟩
  · intro cursor short
    match cursor, short with
    | ⟨[], position⟩, _ | ⟨[_], position⟩, _ => rfl

protected theorem u32 : Strides Reader.u32 [4] := by
  apply single
  · intro cursor enough
    match cursor, enough with
    | ⟨a :: b :: c :: d :: rest, position⟩, _ => exact ⟨Word.u32 a b c d, rfl⟩
  · intro cursor short
    match cursor, short with
    | ⟨[], position⟩, _ | ⟨[_], position⟩, _ | ⟨[_, _], position⟩, _
    | ⟨[_, _, _], position⟩, _ => rfl

protected theorem i32 : Strides Reader.i32 [4] := Strides.u32.map UInt32.toInt32

/-- A 64-bit word is two strides, one for each half. -/
protected theorem u64 : Strides Reader.u64 [4, 4] :=
  Strides.u32.bind fun high => Strides.u32.map (Word.u64 high)

protected theorem i64 : Strides Reader.i64 [4, 4] := Strides.u64.map UInt64.toInt64

protected theorem bytes (count : Nat) : Strides (Reader.bytes count) [count] :=
  single (fun cursor enough => ⟨cursor.rest.take count, bytes_of_le enough⟩) fun _ => bytes_of_lt

protected theorem skip (count : Nat) : Strides (Reader.skip count) [count] :=
  (Strides.bytes count).map fun _ => ()

end Reader.Strides

end ClassBench
