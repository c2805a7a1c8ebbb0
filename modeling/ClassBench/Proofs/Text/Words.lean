import ClassBench.Proofs.List
import Mathlib.Data.Nat.Digits.Defs

/-! Words and numbers as they stand in texts.  A number is written with its decimal digits, which
tell it, and where a text goes on with anything but a digit they tell it there too; a word ends
where a blank or a new line follows. -/

namespace ClassBench.Text

variable {α : Type} {f : α → String} {a b : α} {m n : Nat} {c : Char} {rest rest' : List Char}

theorem digits_inj (same : toString m = toString n) : m = n := by
  have digits := congrArg String.toList same
  rw [Nat.toString_eq_repr, Nat.toString_eq_repr, Nat.toList_repr, Nat.toList_repr] at digits
  have read := congrArg (Nat.ofDigitChars 10 · 0) digits
  rwa [Nat.ofDigitChars_ten_toDigits, Nat.ofDigitChars_ten_toDigits] at read

theorem isDigit_of_mem_digits (member : c ∈ (toString n).toList) : c.isDigit = true := by
  rw [Nat.toString_eq_repr, Nat.toList_repr] at member
  exact Nat.isDigit_of_mem_toDigits (by decide) (by decide) member

theorem exists_digits (n : Nat) :
    ∃ c more, (toString n).toList = c :: more ∧ c.isDigit = true := by
  cases spelled : (toString n).toList with
  | nil =>
    rw [Nat.toString_eq_repr, Nat.toList_repr] at spelled
    exact absurd spelled Nat.toDigits_ne_nil
  | cons c more => exact ⟨c, more, rfl, isDigit_of_mem_digits (spelled ▸ List.mem_cons_self)⟩

/-- A number ends where no digit follows. -/
theorem digits_append_inj (stops : ∀ c ∈ rest.head?, c.isDigit = false)
    (stops' : ∀ c ∈ rest'.head?, c.isDigit = false)
    (same : (toString m).toList ++ rest = (toString n).toList ++ rest') :
    m = n ∧ rest = rest' := by
  obtain ⟨digits, behind⟩ := List.append_inj_of_all (fun _ => isDigit_of_mem_digits)
    (fun _ => isDigit_of_mem_digits) stops stops' same
  exact ⟨digits_inj (String.toList_injective digits), behind⟩

def isBlank (c : Char) : Bool := c = ' ' || c = '\n'

/-- Texts without blanks that tell what they stand for. -/
structure Words (f : α → String) : Prop where
  solid : ∀ a, ∀ c ∈ (f a).toList, isBlank c = false
  tells : Function.Injective f

/-- A word ends where a blank follows. -/
theorem Words.append_inj (words : Words f) (stops : ∀ c ∈ rest.head?, isBlank c = true)
    (stops' : ∀ c ∈ rest'.head?, isBlank c = true)
    (same : (f a).toList ++ rest = (f b).toList ++ rest') : a = b ∧ rest = rest' := by
  obtain ⟨text, behind⟩ := List.append_inj_of_all (p := fun c => !isBlank c)
    (by simpa using words.solid a) (by simpa using words.solid b) (by simpa using stops)
    (by simpa using stops') same
  exact ⟨words.tells (String.toList_injective text), behind⟩

theorem isBlank_of_isDigit (digit : c.isDigit = true) : isBlank c = false := by
  have apart : ∀ d, isBlank d = true → d.isDigit = false := by
    intro d blank
    simp only [isBlank, Bool.or_eq_true, decide_eq_true_eq] at blank
    rcases blank with rfl | rfl <;> rfl
  cases blank : isBlank c with
  | false => rfl
  | true =>
    rw [apart c blank] at digit
    cases digit

theorem words_nat : Words (toString : Nat → String) where
  solid _ _ member := isBlank_of_isDigit (isDigit_of_mem_digits member)
  tells _ _ same := digits_inj same

theorem words_index : Words (toString : UInt16 → String) where
  solid index := words_nat.solid index.toNat
  tells _ _ same := UInt16.toNat_inj.mp (words_nat.tells same)

theorem toString_int (n : Int) :
    (toString n).toList = if 0 ≤ n then (toString n.toNat).toList
      else '-' :: (toString (-n).toNat).toList := by
  rw [Int.toString_eq_repr, Int.repr_eq_if]
  split
  · rfl
  · rw [String.toList_append]
    rfl

theorem words_int : Words (toString : Int → String) where
  solid n c member := by
    rw [toString_int] at member
    split at member
    · exact words_nat.solid _ _ member
    · rcases List.mem_cons.mp member with rfl | digits
      · rfl
      · exact words_nat.solid _ _ digits
  tells m n same := by
    have unsigned (k : Nat) : '-' ∉ (toString k).toList := fun member =>
      absurd (isDigit_of_mem_digits member) (by decide)
    have texts := congrArg String.toList same
    rw [toString_int, toString_int] at texts
    split at texts <;> split at texts
    · have := digits_inj (String.toList_injective texts)
      omega
    · exact absurd (texts ▸ List.mem_cons_self) (unsigned m.toNat)
    · exact absurd (texts ▸ List.mem_cons_self) (unsigned n.toNat)
    · have := digits_inj (String.toList_injective (List.cons.inj texts).2)
      omega

end ClassBench.Text
