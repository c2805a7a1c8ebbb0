import ClassBench.Descriptor
import Mathlib.Tactic.Common

/-! The grammar of descriptors and the readers that decide it.  A field type is read to its end
whatever follows it, since no field type begins another one, and the parenthesis that closes a row
of parameters begins none. -/

namespace ClassBench.Descriptor

/-- The texts that give the type of a field. -/
inductive FieldType : List Char → Prop
  | primitive {c : Char} (letter : c ∈ ['B', 'C', 'D', 'F', 'I', 'J', 'S', 'Z']) : FieldType [c]
  | classRef {name : List Char} (named : name ≠ []) (closed : ';' ∉ name) :
      FieldType ('L' :: (name ++ [';']))
  | array {element : List Char} (type : FieldType element) : FieldType ('[' :: element)

/-- The texts that give the types of a method: its parameters and its result or none. -/
inductive MethodType : List Char → Prop
  | intro {parameters : List (List Char)} {result : List Char}
      (types : ∀ p ∈ parameters, FieldType p) (returns : result = ['V'] ∨ FieldType result) :
      MethodType ('(' :: (parameters.flatten ++ ')' :: result))

variable {text rest : List Char}

theorem isPrimitive_iff {c : Char} :
    isPrimitive c = true ↔ c ∈ ['B', 'C', 'D', 'F', 'I', 'J', 'S', 'Z'] := by
  simp [isPrimitive, or_assoc]

theorem afterSemicolon?_eq_some :
    afterSemicolon? text = some rest ↔ ∃ name, ';' ∉ name ∧ text = name ++ ';' :: rest := by
  constructor
  · intro found
    unfold afterSemicolon? at found
    split at found
    · next c rest' stops =>
      obtain rfl := Option.some.inj found
      -- The scan stops at the first semicolon and nowhere else.
      obtain rfl : c = ';' := by
        have head := List.head_dropWhile_not (· != ';') (l := text) (by simp [stops])
        simpa [stops] using head
      refine ⟨text.takeWhile (· != ';'), fun inside => ?_, ?_⟩
      · have passed := List.all_takeWhile (p := (· != ';')) (l := text)
        simpa using List.all_eq_true.mp passed _ inside
      · rw [← stops, List.takeWhile_append_dropWhile]
    · contradiction
  · rintro ⟨name, closed, rfl⟩
    have scan : (name ++ ';' :: rest).dropWhile (· != ';') = ';' :: rest := by
      rw [List.dropWhile_append_of_pos]
      · simp
      · intro c inside
        simp only [bne_iff_ne, ne_eq]
        rintro rfl
        exact closed inside
    rw [afterSemicolon?, scan]

/-- No field type begins with the parenthesis that closes the parameters. -/
theorem FieldType.head_ne (type : FieldType text) : text.head? ≠ some ')' := by
  cases type with
  | primitive letter =>
    rintro ⟨⟩
    simp at letter
  | classRef => simp
  | array => simp

theorem FieldType.reads (type : FieldType text) (rest : List Char) :
    fieldType? (text ++ rest) = some rest := by
  induction type with
  | @primitive c letter =>
    have bracket : c ≠ '[' := by
      rintro rfl
      simp at letter
    rw [List.singleton_append, fieldType?, if_neg bracket, if_pos (isPrimitive_iff.mpr letter)]
  | @classRef name named closed =>
    have first : (name ++ [';'] ++ rest).head? ≠ some ';' := by
      cases name with
      | nil => exact absurd rfl named
      | cons c name =>
        rintro ⟨⟩
        simp at closed
    rw [List.cons_append, fieldType?, if_neg (by decide), if_neg (by decide), if_pos ⟨rfl, first⟩]
    exact afterSemicolon?_eq_some.mpr ⟨name, closed, by simp⟩
  | array _ ih => rwa [List.cons_append, fieldType?, if_pos rfl]

theorem fieldType?_eq_some :
    fieldType? text = some rest ↔ ∃ type, text = type ++ rest ∧ FieldType type := by
  constructor
  · intro found
    induction text with
    | nil => simp [fieldType?] at found
    | cons c text ih =>
      rw [fieldType?] at found
      split at found
      · next bracket =>
        obtain ⟨element, rfl, type⟩ := ih found
        exact ⟨'[' :: element, by simp [bracket], .array type⟩
      · split at found
        · next letter =>
          obtain rfl := Option.some.inj found
          exact ⟨[c], rfl, .primitive (isPrimitive_iff.mp letter)⟩
        · split at found
          · next begins =>
            obtain ⟨rfl, first⟩ := begins
            obtain ⟨name, closed, rfl⟩ := afterSemicolon?_eq_some.mp found
            refine ⟨'L' :: (name ++ [';']), by simp, .classRef ?_ closed⟩
            rintro rfl
            exact first rfl
          · contradiction
  · rintro ⟨type, rfl, isType⟩
    exact isType.reads rest

theorem fieldType?_eq_nil : (fieldType? text == some []) = true ↔ FieldType text := by
  rw [beq_iff_eq, fieldType?_eq_some]
  simp

/-- A text is taken as a field type exactly if the grammar has it. -/
theorem isField_iff {text : String} : isField text = true ↔ FieldType text.toList :=
  fieldType?_eq_nil

theorem parameters?_eq_some :
    parameters? text = some rest ↔
      ∃ types : List (List Char), text = types.flatten ++ ')' :: rest ∧
        ∀ p ∈ types, FieldType p := by
  constructor
  · intro found
    fun_induction parameters? text with
    | case1 text closes =>
      have some : text ≠ [] := by
        rintro rfl
        simp at closes
      obtain ⟨c, tail, rfl⟩ := List.exists_cons_of_ne_nil some
      obtain rfl : c = ')' := by simpa using closes
      obtain rfl : tail = rest := by simpa using found
      exact ⟨[], rfl, by simp⟩
    | case2 text _ rest' first ih =>
      obtain ⟨type, rfl, isType⟩ := fieldType?_eq_some.mp first
      obtain ⟨types, rfl, areTypes⟩ := ih found
      exact ⟨type :: types, by simp, List.forall_mem_cons.mpr ⟨isType, areTypes⟩⟩
    | case3 => contradiction
  · rintro ⟨types, rfl, areTypes⟩
    induction types with
    | nil => rw [parameters?]; simp
    | cons type types ih =>
      rw [List.forall_mem_cons] at areTypes
      obtain ⟨isType, areTypes⟩ := areTypes
      have opens : (type ++ (types.flatten ++ ')' :: rest)).head? ≠ some ')' := by
        have other := isType.head_ne
        cases type with
        | nil => cases isType
        | cons c type => simpa using other
      rw [List.flatten_cons, List.append_assoc, parameters?, if_neg opens, isType.reads]
      exact ih areTypes

theorem isResult_iff : isResult text = true ↔ text = ['V'] ∨ FieldType text := by
  rw [isResult, Bool.or_eq_true, beq_iff_eq, fieldType?_eq_nil]

/-- A text is taken as a method descriptor exactly if the grammar has it. -/
theorem isMethod_iff {text : String} : isMethod text = true ↔ MethodType text.toList := by
  unfold isMethod
  constructor
  · intro valid
    split at valid
    · next rest opens =>
      split at valid
      · next result found =>
        obtain ⟨types, rfl, areTypes⟩ := parameters?_eq_some.mp found
        rw [opens]
        exact .intro areTypes (isResult_iff.mp valid)
      · contradiction
    · contradiction
  · intro grammar
    generalize text.toList = chars at grammar
    cases grammar with
    | @intro types result areTypes returns =>
      simp only [parameters?_eq_some.mpr ⟨types, rfl, areTypes⟩]
      exact isResult_iff.mpr returns

end ClassBench.Descriptor
