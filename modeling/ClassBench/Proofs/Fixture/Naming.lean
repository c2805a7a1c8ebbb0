import ClassBench.Fixture
import ClassBench.Proofs.Text.Utf16
import ClassBench.Proofs.Text.Words

/-! Names of fixtures after call sites.  A name spells the method, with its first letter in upper
case, and right behind it the line in decimal.  So a name does not tell which case the first letter
had, nor which of its digits are of the method; all else it tells. -/

namespace ClassBench

namespace Text

variable {c d : Char}

theorem lt_of_isDigit_ofNat {n : Nat} (digit : (Char.ofNat n).isDigit = true) : n < 0x41 := by
  have value : (Char.ofNat n).toNat = n ∨ (Char.ofNat n).toNat = 0 := by
    by_cases valid : n.isValidChar
    · exact .inl (Utf16.toNat_ofNat valid)
    · rw [Char.ofNat, dif_neg valid]
      exact .inr rfl
  obtain ⟨low, high⟩ := Char.isDigit_iff_toNat.mp digit
  have zero : '0'.toNat = 48 := rfl
  have nine : '9'.toNat = 57 := rfl
  omega

/-- No digit is the upper-case form of anything else. -/
theorem uppercase_of_digit (member : d ∈ uppercase c) (digit : d.isDigit = true) :
    d = c := by
  have sequences : ∀ s ∈ upperSequences, ∀ n ∈ s.2, 0x41 ≤ n := by decide +kernel
  have rows : ∀ row ∈ upperRows, 0x41 ≤ row.target := by decide +kernel
  unfold uppercase at member
  split at member
  · next image found =>
    obtain ⟨n, listed, rfl⟩ := List.mem_map.mp member
    have := sequences _ (Array.mem_of_find?_eq_some found) n listed
    have := lt_of_isDigit_ofNat digit
    omega
  · split at member
    · next image found =>
      obtain ⟨row, listed, here⟩ := Array.exists_of_findSome?_eq_some found
      obtain rfl := List.mem_singleton.mp member
      have := rows row listed
      have := lt_of_isDigit_ofNat digit
      unfold CaseRow.image? at here
      split at here
      · have := Option.some.inj here
        omega
      · cases here
    · exact List.mem_singleton.mp member

/-- The upper-case form of a lower-case letter of the alphabet is one letter, which tells it. -/
theorem uppercase_lower (lower : c.isLower = true) :
    ∃ u, uppercase c = [u] ∧ c.toNat = u.toNat + 32 := by
  have letters : ∀ n : Fin 26, uppercase (Char.ofNat (97 + n)) = [Char.ofNat (65 + n)] ∧
      (Char.ofNat (65 + n)).toNat = 65 + n := by decide +kernel
  have bounds := Bool.and_eq_true_iff.mp lower
  have low : 97 ≤ c.toNat := of_decide_eq_true bounds.1
  have high : c.toNat ≤ 122 := of_decide_eq_true bounds.2
  obtain ⟨image, value⟩ := letters ⟨c.toNat - 97, by omega⟩
  rw [Nat.add_sub_cancel' low, Char.ofNat_toNat] at image
  exact ⟨_, image, by rw [value]; dsimp only; omega⟩

end Text

variable {word word' : String} {c : Char}

theorem toList_capitalized {rest : List Char} (spelled : word.toList = c :: rest) :
    (capitalized word).toList = Text.uppercase c ++ rest := by
  rw [capitalized, spelled, String.toList_ofList]

/-- A capitalized word ends in a digit only if the word does. -/
theorem ends_of_capitalized (last : c ∈ (capitalized word).toList.getLast?)
    (digit : c.isDigit = true) : c ∈ word.toList.getLast? := by
  cases spelled : word.toList with
  | nil =>
    rw [capitalized, spelled] at last
    cases last
  | cons first rest =>
    rw [toList_capitalized spelled] at last
    cases rest with
    | nil =>
      rw [List.append_nil] at last
      rw [Text.uppercase_of_digit (List.mem_of_getLast? last) digit]
      rfl
    | cons second rest =>
      rw [List.getLast?_append_of_ne_nil _ (List.cons_ne_nil _ _)] at last
      rwa [List.getLast?_cons_cons]

/-- Words that begin with a lower-case letter of the alphabet are told by their capitalized form. -/
theorem capitalized_inj (lower : ∃ c ∈ word.toList.head?, c.isLower = true)
    (lower' : ∃ c ∈ word'.toList.head?, c.isLower = true)
    (same : capitalized word = capitalized word') : word = word' := by
  obtain ⟨c, first, small⟩ := lower
  obtain ⟨c', first', small'⟩ := lower'
  obtain ⟨rest, spelled⟩ := List.head?_eq_some_iff.mp first
  obtain ⟨rest', spelled'⟩ := List.head?_eq_some_iff.mp first'
  obtain ⟨u, upper, value⟩ := Text.uppercase_lower small
  obtain ⟨u', upper', value'⟩ := Text.uppercase_lower small'
  replace same := congrArg String.toList same
  rw [toList_capitalized spelled, toList_capitalized spelled', upper, upper',
    List.singleton_append, List.singleton_append] at same
  obtain ⟨rfl, rfl⟩ := List.cons.inj same
  have letter : c = c' := by rw [← c.ofNat_toNat, ← c'.ofNat_toNat, value, value']
  exact String.toList_injective (by rw [spelled, spelled', letter])

/-! ### Names -/

namespace CallSite

variable {a b : CallSite}

/-- The line of the one site begins with digits that the method of the other ends in, where all else
is the same. -/
def RunsInto (a b : CallSite) : Prop := ∃ digits,
  (capitalized b.method).toList = (capitalized a.method).toList ++ digits ∧
    (toString a.line).toList = digits ++ (toString b.line).toList

/-- The method begins with a lower-case letter of the alphabet and does not end in a digit. -/
structure IsPlain (a : CallSite) : Prop where
  lower : ∃ c ∈ a.method.toList.head?, c.isLower = true
  ending : ∀ c ∈ a.method.toList.getLast?, c.isDigit = false

theorem line_inj (same : (toString a.line).toList = (toString b.line).toList) :
    a.line = b.line :=
  UInt32.toNat_inj.mp (Text.digits_inj (String.toList_injective same))

/-- Where the one site runs into another whose method is no longer, they are on the same line. -/
theorem RunsInto.same_line (runs : a.RunsInto b)
    (same : capitalized a.method = capitalized b.method) : a.line = b.line := by
  obtain ⟨digits, method, line⟩ := runs
  obtain rfl : digits = [] := by simpa [same] using method
  exact line_inj line

/-- A site runs into none whose method does not end in a digit, but for the same name and line. -/
theorem RunsInto.same_method (runs : a.RunsInto b)
    (ending : ∀ c ∈ b.method.toList.getLast?, c.isDigit = false) :
    capitalized a.method = capitalized b.method := by
  obtain ⟨digits, method, line⟩ := runs
  rcases List.eq_nil_or_concat digits with rfl | ⟨front, d, rfl⟩
  · exact String.toList_injective (by rw [method, List.append_nil])
  · have digit : d.isDigit = true := by
      refine Text.isDigit_of_mem_digits (n := a.line.toNat) ?_
      show d ∈ (toString a.line).toList
      rw [line]
      simp
    have last : d ∈ (capitalized b.method).toList.getLast? := by
      rw [method]
      simp
    have none := ending d (ends_of_capitalized last digit)
    rw [digit] at none
    cases none

end CallSite

namespace Synthesizer

variable (owner : String) (a b : CallSite)

theorem fixtureName_eq : (fixtureName a ⟨owner, .callSite⟩).1 =
    owner ++ "$" ++ ("Experiment" ++ capitalized a.method ++ toString a.line) := rfl

/-- Two call sites give one name exactly if the line of the one begins with digits that the method
of the other ends in, perhaps none, where all else is the same but the case of the first letter.  So
the names of different sites differ if the methods are the same, and if the methods begin with
lower-case letters of the alphabet and do not end in digits. -/
theorem call_site_names_agree_iff :
    ((fixtureName a ⟨owner, .callSite⟩).1 = (fixtureName b ⟨owner, .callSite⟩).1 ↔
      a.RunsInto b ∨ b.RunsInto a) ∧
    (a.method = b.method ∨ a.IsPlain ∧ b.IsPlain → a ≠ b →
      (fixtureName a ⟨owner, .callSite⟩).1 ≠ (fixtureName b ⟨owner, .callSite⟩).1) := by
  have agree : (fixtureName a ⟨owner, .callSite⟩).1 = (fixtureName b ⟨owner, .callSite⟩).1 ↔
      a.RunsInto b ∨ b.RunsInto a := by
    rw [fixtureName_eq, fixtureName_eq, String.append_right_inj, ← String.toList_inj]
    simp only [String.toList_append, List.append_assoc, List.append_cancel_left_eq]
    rw [List.append_eq_append_iff]
    rfl
  refine ⟨agree, fun either differ same => differ ?_⟩
  have method : a.method = b.method := by
    rcases either with method | ⟨plain, plain'⟩
    · exact method
    · refine capitalized_inj plain.lower plain'.lower ?_
      rcases agree.mp same with runs | runs
      · exact runs.same_method plain'.ending
      · exact (runs.same_method plain.ending).symm
  have line : a.line = b.line := by
    rcases agree.mp same with runs | runs
    · exact runs.same_line (congrArg capitalized method)
    · exact (runs.same_line (congrArg capitalized method.symm)).symm
  cases a
  cases b
  cases method
  cases line
  rfl

/-- Two tests of one class on one line. -/
theorem call_site_names_agree_iff_tests :
    let a : CallSite := ⟨"testSimple", 42⟩
    let b : CallSite := ⟨"testOther", 42⟩
    (a.method = b.method ∨ a.IsPlain ∧ b.IsPlain) ∧ a ≠ b ∧
      (fixtureName a ⟨"app/Tests", .callSite⟩).1 ≠ (fixtureName b ⟨"app/Tests", .callSite⟩).1 := by
  intro a b
  have plain : a.IsPlain ∧ b.IsPlain :=
    ⟨⟨⟨'t', by simp [a], rfl⟩, by simp [a]⟩, ⟨⟨'t', by simp [b], rfl⟩, by simp [b]⟩⟩
  have differ : a ≠ b := by decide
  exact ⟨.inr plain, differ, (call_site_names_agree_iff "app/Tests" a b).2 (.inr plain) differ⟩

/-- Methods that differ in the case of a letter, and a method that ends in a digit of the line. -/
theorem call_site_names_repeat :
    let name (site : CallSite) := (fixtureName site ⟨"app/Tests", .callSite⟩).1
    name ⟨"run", 12⟩ = name ⟨"Run", 12⟩ ∧ "run" ≠ "Run" ∧
      name ⟨"run", 12⟩ = name ⟨"run1", 2⟩ ∧ "run" ≠ "run1" ∧ (12 : UInt32) ≠ 2 := by
  decide +kernel

end Synthesizer

end ClassBench
