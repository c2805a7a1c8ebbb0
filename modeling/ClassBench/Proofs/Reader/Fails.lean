import ClassBench.ClassFile.Codec

/-! The faults of a reader.  `Fails reader fault` says that every run that fails does so with a
fault of this kind.  Readers in sequence fail as one of them does. -/

namespace ClassBench

/-- Whenever the reader fails, it is with such a fault. -/
def Reader.Fails (reader : Reader α) (fault : DecodeError → Prop) : Prop :=
  ∀ cursor error after, reader cursor = .error error after → fault error

variable {α β : Type}

theorem Reader.bind_eq_error {reader : Reader α} {next : α → Reader β} {cursor after : Cursor}
    {error : DecodeError} : (reader >>= next) cursor = .error error after ↔
      reader cursor = .error error after ∨
        ∃ a middle, reader cursor = .ok a middle ∧ next a middle = .error error after := by
  show EStateM.bind reader next cursor = _ ↔ _
  rw [EStateM.bind]
  cases reader cursor <;> simp [and_assoc]

namespace Reader.Fails

variable {reader : Reader α} {fault : DecodeError → Prop}

theorem bind {next : α → Reader β} (h : Fails reader fault) (hNext : ∀ a, Fails (next a) fault) :
    Fails (reader >>= next) fault := by
  intro cursor error after failed
  rcases bind_eq_error.mp failed with first | ⟨a, middle, -, second⟩
  · exact h cursor error after first
  · exact hNext a middle error after second

protected theorem pure (a : α) : Fails (pure a) fault := nofun

protected theorem throw {error : DecodeError} (here : fault error) :
    Fails (throw error : Reader α) fault := by
  rintro cursor _ after ⟨⟩
  exact here

theorem map (f : α → β) (h : Fails reader fault) : Fails (do return f (← reader)) fault :=
  h.bind fun a => Fails.pure (f a)

protected theorem position : Fails Reader.position fault := nofun

/-! ### Bytes and words -/

variable (ends : ∀ offset, fault (.unexpectedEnd offset))
include ends

protected theorem u8 : Fails Reader.u8 fault := by
  intro cursor error after failed
  unfold Reader.u8 at failed
  split at failed <;> cases failed
  exact ends _

protected theorem u16 : Fails Reader.u16 fault := by
  intro cursor error after failed
  unfold Reader.u16 at failed
  split at failed <;> cases failed
  exact ends _

protected theorem u32 : Fails Reader.u32 fault := by
  intro cursor error after failed
  unfold Reader.u32 at failed
  split at failed <;> cases failed
  exact ends _

protected theorem u64 : Fails Reader.u64 fault :=
  (Fails.u32 ends).bind fun high => (Fails.u32 ends).map (Word.u64 high)

protected theorem bytes (count : Nat) : Fails (Reader.bytes count) fault := by
  intro cursor error after failed
  simp only [Reader.bytes] at failed
  split at failed <;> cases failed
  exact ends _

protected theorem skip (count : Nat) : Fails (Reader.skip count) fault :=
  (Fails.bytes ends count).bind fun _ => Fails.pure ()

end Reader.Fails

end ClassBench
