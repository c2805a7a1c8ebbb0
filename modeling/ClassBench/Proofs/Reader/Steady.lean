import ClassBench.Proofs.Reader.Takes

/-! Readers on the front of their input.  A run on the front of some bytes is compared, step by
step, with the run on all of them: it comes to the end of the front too early, or both runs do the
same. `Steady` says so of a reader wherever the input is cut, and readers in sequence are steady if
each of them is.  So what a format makes of a cut input is put together along its grammar, and no
read has to say which bytes it takes. -/

namespace ClassBench

variable {α β : Type}

/-- How a run on the front of some bytes, which ends at `limit`, compares with the run on all of
them, which have `more` behind the front. -/
inductive Reader.Agree (more : Bytes) (limit : Nat) :
    EStateM.Result DecodeError Cursor α → EStateM.Result DecodeError Cursor α → Prop
  /-- The front is too short for a read that begins in it. -/
  | ends {offset : Nat} {after : Cursor} {whole : EStateM.Result DecodeError Cursor α}
      (within : offset ≤ limit) : Agree more limit (.error (.unexpectedEnd offset) after) whole
  | fails {error : DecodeError} {after after' : Cursor} :
      Agree more limit (.error error after) (.error error after')
  | goesOn {a : α} {rest : Bytes} {position : Nat} (kept : position + rest.length = limit) :
      Agree more limit (.ok a ⟨rest, position⟩) (.ok a ⟨rest ++ more, position⟩)

/-- The reader does on the front of an input what it does on all of it, or ends too early there. -/
def Reader.Steady (reader : Reader α) : Prop :=
  ∀ rest position more,
    Agree more (position + rest.length) (reader ⟨rest, position⟩) (reader ⟨rest ++ more, position⟩)

namespace Reader

variable {reader : Reader α} {more : Bytes} {limit : Nat}

/-- Two runs that agree so far agree to the end, if they do from wherever both go on. -/
theorem Agree.bind {whole : Reader α} {next next' : α → Reader β} {cursor cursor' : Cursor}
    (h : Agree more limit (reader cursor) (whole cursor'))
    (hNext : ∀ a rest position, reader cursor = .ok a ⟨rest, position⟩ →
      position + rest.length = limit →
      Agree more limit (next a ⟨rest, position⟩) (next' a ⟨rest ++ more, position⟩)) :
    Agree more limit ((reader >>= next) cursor) ((whole >>= next') cursor') := by
  show Agree more limit (EStateM.bind reader next cursor) (EStateM.bind whole next' cursor')
  rw [EStateM.bind, EStateM.bind]
  generalize front : reader cursor = r at h hNext
  generalize whole cursor' = r' at h
  cases h with
  | ends within => exact .ends within
  | fails => exact .fails
  | goesOn kept => exact hNext _ _ _ rfl kept

namespace Steady

theorem bind {next : α → Reader β} (h : Steady reader) (hNext : ∀ a, Steady (next a)) :
    Steady (reader >>= next) := by
  intro rest position more
  refine (h rest position more).bind fun a rest' position' _ kept => ?_
  rw [← kept]
  exact hNext a rest' position' more

protected theorem pure (a : α) : Steady (pure a) := fun _ _ _ => .goesOn rfl

protected theorem throw (error : DecodeError) : Steady (throw error : Reader α) :=
  fun _ _ _ => .fails

theorem map (f : α → β) (h : Steady reader) : Steady (do return f (← reader)) :=
  h.bind fun a => Steady.pure (f a)

protected theorem position : Steady Reader.position := fun _ _ _ => .goesOn rfl

/-! ### Bytes and words -/

protected theorem u8 : Steady Reader.u8 := by
  intro rest position more
  match rest with
  | [] => exact .ends (Nat.le_add_right position _)
  | a :: rest => exact .goesOn (by simp; omega)

protected theorem u16 : Steady Reader.u16 := by
  intro rest position more
  match rest with
  | [] | [_] => exact .ends (Nat.le_add_right position _)
  | a :: b :: rest => exact .goesOn (by simp; omega)

protected theorem u32 : Steady Reader.u32 := by
  intro rest position more
  match rest with
  | [] | [_] | [_, _] | [_, _, _] => exact .ends (Nat.le_add_right position _)
  | a :: b :: c :: d :: rest => exact .goesOn (by simp; omega)

protected theorem i32 : Steady Reader.i32 := Steady.u32.map UInt32.toInt32

protected theorem u64 : Steady Reader.u64 :=
  Steady.u32.bind fun high => Steady.u32.map (Word.u64 high)

protected theorem i64 : Steady Reader.i64 := Steady.u64.map UInt64.toInt64

protected theorem bytes (count : Nat) : Steady (Reader.bytes count) := by
  intro rest position more
  by_cases enough : count ≤ rest.length
  · have whole : count ≤ (rest ++ more).length := by
      rw [List.length_append]
      omega
    rw [bytes_of_le enough, bytes_of_le whole, List.take_append_of_le_length enough,
      List.drop_append_of_le_length enough]
    refine .goesOn ?_
    simp only [List.length_drop]
    omega
  · rw [bytes_of_lt (Nat.lt_of_not_le enough)]
    exact .ends (Nat.le_add_right position _)

protected theorem measured : Steady Reader.measured :=
  Steady.u32.bind fun length => Steady.bytes length.toNat

/-! ### Lists -/

theorem repeatInto {item : Reader α} (each : Steady item) (count : Nat) (read : List α) :
    Steady (Reader.repeatInto item count read) := by
  induction count generalizing read with
  | zero => exact Steady.pure read.reverse
  | succ count ih => exact each.bind fun a => ih (a :: read)

theorem counted {item : Reader α} (each : Steady item) : Steady (Reader.counted item) :=
  Steady.u16.bind fun count => repeatInto each count.toNat []

end Steady

end Reader

end ClassBench
