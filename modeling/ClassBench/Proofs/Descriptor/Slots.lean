import ClassBench.Proofs.Descriptor.Grammar

/-! Counting the slots of parameters.  The count takes a row of parameters as the grammar does and a
few texts besides: a class without a name, and an array of what begins no type.  No text that counts
as a parameter begins another one, so a descriptor falls into its parameters in one way only, and
each of them adds what its type takes. -/

namespace ClassBench.Descriptor

/-- The texts that count as a parameter although they are no field type. -/
inductive Misread : List Char → Prop
  | nameless : Misread ['L', ';']
  | element {c : Char} (ascii : c.toNat < 128) (opens : c ≠ '[' ∧ c ≠ 'L')
      (letter : c ∉ ['B', 'C', 'D', 'F', 'I', 'J', 'S', 'Z']) : Misread ['[', c]
  | array {element : List Char} (misread : Misread element) : Misread ('[' :: element)

/-- The texts that count as a parameter. -/
def Counted (text : List Char) : Prop := FieldType text ∨ Misread text

/-- A parameter that takes two slots. -/
def isWide (parameter : List Char) : Bool := parameter == ['J'] || parameter == ['D']

/-- The slots of a row of parameters: two for each wide one and one for each other. -/
def slotCount (parameters : List (List Char)) : Nat :=
  2 * parameters.countP isWide + parameters.countP (!isWide ·)

variable {text rest : List Char}

/-! ### Texts that are no field type -/

theorem fieldType?_singleton {c : Char} (opens : c ≠ '[' ∧ c ≠ 'L')
    (letter : c ∉ ['B', 'C', 'D', 'F', 'I', 'J', 'S', 'Z']) : fieldType? [c] = none := by
  rw [fieldType?, if_neg opens.1, if_neg (mt isPrimitive_iff.mp letter),
    if_neg fun begins => opens.2 begins.1]

theorem Misread.fieldType?_eq_none (misread : Misread text) : fieldType? text = none := by
  induction misread with
  | nameless => rfl
  | element _ opens letter =>
    rw [fieldType?, if_pos rfl]
    exact fieldType?_singleton opens letter
  | array _ ih => rwa [fieldType?, if_pos rfl]

theorem Misread.not_fieldType (misread : Misread text) : ¬FieldType text := by
  intro type
  have reads := type.reads []
  rw [List.append_nil, misread.fieldType?_eq_none] at reads
  contradiction

namespace Counted

theorem array {element : List Char} (counted : Counted element) : Counted ('[' :: element) :=
  counted.imp .array .array

theorem classRef {name : List Char} (closed : ';' ∉ name) : Counted ('L' :: (name ++ [';'])) := by
  by_cases named : name = []
  · subst named
    exact .inr .nameless
  · exact .inl (.classRef named closed)

theorem arrayOf {c : Char} (ascii : c.toNat < 128) (opens : c ≠ '[' ∧ c ≠ 'L') :
    Counted ['[', c] := by
  by_cases letter : c ∈ ['B', 'C', 'D', 'F', 'I', 'J', 'S', 'Z']
  · exact .inl (.array (.primitive letter))
  · exact .inr (.element ascii opens letter)

/-- A parameter is a letter, a class or an array. -/
theorem shape (counted : Counted text) :
    (∃ c ∈ ['B', 'C', 'D', 'F', 'I', 'J', 'S', 'Z'], text = [c]) ∨
    (∃ name, ';' ∉ name ∧ text = 'L' :: (name ++ [';'])) ∨ ∃ element, text = '[' :: element := by
  rcases counted with type | misread
  · cases type with
    | primitive letter => exact .inl ⟨_, letter, rfl⟩
    | classRef _ closed => exact .inr (.inl ⟨_, closed, rfl⟩)
    | array => exact .inr (.inr ⟨_, rfl⟩)
  · cases misread with
    | nameless => exact .inr (.inl ⟨[], by simp, rfl⟩)
    | element | array => exact .inr (.inr ⟨_, rfl⟩)

/-- No parameter begins with the parenthesis that closes the row. -/
theorem begins (counted : Counted text) : ∃ c rest, text = c :: rest ∧ c ≠ ')' := by
  rcases counted.shape with ⟨c, letter, rfl⟩ | ⟨name, -, rfl⟩ | ⟨element, rfl⟩
  · exact ⟨c, [], rfl, by rintro rfl; simp at letter⟩
  · exact ⟨_, _, rfl, by decide⟩
  · exact ⟨_, _, rfl, by decide⟩

end Counted

/-! ### Reading a parameter -/

theorem afterSemicolon?_append {name : List Char} (closed : ';' ∉ name) (rest : List Char) :
    afterSemicolon? (name ++ [';'] ++ rest) = some rest :=
  afterSemicolon?_eq_some.mpr ⟨name, closed, by simp⟩

theorem elementType?_cons {c : Char} (ascii : c.toNat < 128) (opens : c ≠ '[' ∧ c ≠ 'L')
    (rest : List Char) : elementType? (c :: rest) = some rest := by
  rw [elementType?, if_neg opens.1, if_neg opens.2, if_pos ascii]

theorem letter_opens : ∀ c ∈ ['B', 'C', 'D', 'F', 'I', 'J', 'S', 'Z'],
    c.toNat < 128 ∧ c ≠ '[' ∧ c ≠ 'L' := by
  simp only [List.forall_mem_cons, List.not_mem_nil, false_implies, implies_true, and_true]
  decide

/-- What counts as a parameter is taken whole as the element of an array. -/
theorem Counted.reads_element (counted : Counted text) (rest : List Char) :
    elementType? (text ++ rest) = some rest := by
  rcases counted with type | misread
  · induction type with
    | primitive letter =>
      obtain ⟨ascii, opens⟩ := letter_opens _ letter
      exact elementType?_cons ascii opens rest
    | classRef _ closed =>
      rw [List.cons_append, elementType?, if_neg (by decide), if_pos rfl]
      exact afterSemicolon?_append closed rest
    | array _ ih => rwa [List.cons_append, elementType?, if_pos rfl]
  · induction misread with
    | nameless => rfl
    | element ascii opens =>
      rw [List.cons_append, elementType?, if_pos rfl]
      exact elementType?_cons ascii opens rest
    | array _ ih => rwa [List.cons_append, elementType?, if_pos rfl]

theorem exists_element (found : elementType? text = some rest) :
    ∃ element, text = element ++ rest ∧ Counted ('[' :: element) := by
  induction text with
  | nil => simp [elementType?] at found
  | cons c text ih =>
    rw [elementType?] at found
    split at found
    · next bracket =>
      obtain ⟨element, rfl, counted⟩ := ih found
      exact ⟨'[' :: element, by rw [bracket]; rfl, counted.array⟩
    · next open₁ =>
      split at found
      · next begins =>
        subst begins
        obtain ⟨name, closed, rfl⟩ := afterSemicolon?_eq_some.mp found
        exact ⟨'L' :: (name ++ [';']), by simp, (Counted.classRef closed).array⟩
      · next open₂ =>
        split at found
        · next ascii =>
          obtain rfl := Option.some.inj found
          exact ⟨[c], rfl, .arrayOf ascii ⟨open₁, open₂⟩⟩
        · contradiction

theorem isWide_iff {parameter : List Char} :
    isWide parameter = true ↔ parameter = ['J'] ∨ parameter = ['D'] := by
  simp [isWide]

theorem Counted.reads (counted : Counted text) (rest : List Char) :
    parameterSlots? (text ++ rest) = some (if isWide text then 2 else 1, rest) := by
  rcases counted.shape with ⟨c, letter, rfl⟩ | ⟨name, closed, rfl⟩ | ⟨element, rfl⟩
  · rw [List.singleton_append, parameterSlots?]
    by_cases wide : c = 'J' ∨ c = 'D'
    · rw [if_pos wide, if_pos (by simpa [isWide_iff] using wide)]
    · rw [if_neg wide, if_pos (isPrimitive_iff.mpr letter),
        if_neg (by simpa [isWide_iff] using wide)]
  · rw [List.cons_append, parameterSlots?, if_neg (by decide), if_neg (by decide), if_pos rfl,
      afterSemicolon?_append closed]
    rfl
  · have taken : elementType? (element ++ rest) = some rest := counted.reads_element rest
    rw [List.cons_append, parameterSlots?, if_neg (by decide), if_neg (by decide),
      if_neg (by decide), if_pos rfl, taken]
    rfl

theorem exists_parameter {slots : UInt16} (found : parameterSlots? text = some (slots, rest)) :
    ∃ parameter, text = parameter ++ rest ∧ Counted parameter := by
  cases text with
  | nil => simp [parameterSlots?] at found
  | cons c text =>
    rw [parameterSlots?] at found
    split at found
    · next wide =>
      obtain ⟨-, rfl⟩ := Prod.mk.inj (Option.some.inj found)
      exact ⟨[c], rfl, .inl (.primitive (by rcases wide with rfl | rfl <;> simp))⟩
    · split at found
      · next letter =>
        obtain ⟨-, rfl⟩ := Prod.mk.inj (Option.some.inj found)
        exact ⟨[c], rfl, .inl (.primitive (isPrimitive_iff.mp letter))⟩
      · split at found
        · next begins =>
          subst begins
          obtain ⟨rest', taken, same⟩ := Option.map_eq_some_iff.mp found
          obtain ⟨-, rfl⟩ := Prod.mk.inj same
          obtain ⟨name, closed, rfl⟩ := afterSemicolon?_eq_some.mp taken
          exact ⟨'L' :: (name ++ [';']), by simp, .classRef closed⟩
        · split at found
          · next bracket =>
            subst bracket
            obtain ⟨rest', taken, same⟩ := Option.map_eq_some_iff.mp found
            obtain ⟨-, rfl⟩ := Prod.mk.inj same
            obtain ⟨element, rfl, counted⟩ := exists_element taken
            exact ⟨'[' :: element, rfl, counted⟩
          · contradiction

/-! ### Rows of parameters -/

theorem slotCount_cons (parameter : List Char) (parameters : List (List Char)) :
    slotCount (parameter :: parameters) =
      (if isWide parameter then 2 else 1) + slotCount parameters := by
  cases wide : isWide parameter <;> simp [slotCount, wide] <;> omega

theorem slotsFrom_flatten {parameters : List (List Char)} (start : UInt16)
    (counted : ∀ p ∈ parameters, Counted p) (result : List Char) :
    slotsFrom start (parameters.flatten ++ ')' :: result) =
      some (start + (slotCount parameters).toUInt16) := by
  induction parameters generalizing start with
  | nil =>
    rw [slotsFrom]
    simp [slotCount]
  | cons parameter parameters ih =>
    obtain ⟨here, counted⟩ := List.forall_mem_cons.mp counted
    obtain ⟨c, rest, same, opens⟩ := here.begins
    have opens : (parameter ++ (parameters.flatten ++ ')' :: result)).head? ≠ some ')' := by
      simpa [same] using opens
    have sum : start + (if isWide parameter then 2 else 1) + (slotCount parameters).toUInt16 =
        start + (slotCount (parameter :: parameters)).toUInt16 := by
      show start + _ + UInt16.ofNat _ = start + UInt16.ofNat _
      rw [slotCount_cons, UInt16.ofNat_add, UInt16.add_assoc]
      split <;> rfl
    rw [List.flatten_cons, List.append_assoc, slotsFrom, if_neg opens, here.reads, ← sum]
    exact ih _ counted

theorem exists_parameters {start total : UInt16} (found : slotsFrom start text = some total) :
    ∃ (parameters : List (List Char)) (result : List Char),
      text = parameters.flatten ++ ')' :: result ∧ ∀ p ∈ parameters, Counted p := by
  fun_induction slotsFrom start text with
  | case1 start text closes =>
    obtain ⟨c, rest, rfl⟩ : ∃ c rest, text = c :: rest := by
      cases text with
      | nil => contradiction
      | cons c rest => exact ⟨c, rest, rfl⟩
    obtain rfl : c = ')' := by simpa using closes
    exact ⟨[], rest, rfl, by simp⟩
  | case2 start text _ slots rest first ih =>
    obtain ⟨parameter, rfl, here⟩ := exists_parameter first
    obtain ⟨parameters, result, rfl, counted⟩ := ih found
    exact ⟨parameter :: parameters, result, by simp, List.forall_mem_cons.mpr ⟨here, counted⟩⟩
  | case3 => contradiction

theorem argumentSlots?_eq_some {text : String} {total : UInt16} :
    argumentSlots? text = some total ↔ ∃ (parameters : List (List Char)) (result : List Char),
      text.toList = '(' :: (parameters.flatten ++ ')' :: result) ∧
      (∀ p ∈ parameters, Counted p) ∧ total = (slotCount parameters).toUInt16 := by
  unfold argumentSlots?
  constructor
  · intro found
    split at found
    · next rest opens =>
      obtain ⟨parameters, result, rfl, counted⟩ := exists_parameters found
      rw [slotsFrom_flatten 0 counted, UInt16.zero_add] at found
      exact ⟨parameters, result, opens, counted, (Option.some.inj found).symm⟩
    · contradiction
  · rintro ⟨parameters, result, same, counted, rfl⟩
    simp only [same, slotsFrom_flatten 0 counted, UInt16.zero_add]

theorem isSome_argumentSlots? {text : String} : (argumentSlots? text).isSome = true ↔
    ∃ (parameters : List (List Char)) (result : List Char),
      text.toList = '(' :: (parameters.flatten ++ ')' :: result) ∧
      ∀ p ∈ parameters, Counted p := by
  rw [Option.isSome_iff_exists]
  constructor
  · rintro ⟨total, found⟩
    obtain ⟨parameters, result, written, counted, -⟩ := argumentSlots?_eq_some.mp found
    exact ⟨parameters, result, written, counted⟩
  · rintro ⟨parameters, result, written, counted⟩
    exact ⟨_, argumentSlots?_eq_some.mpr ⟨parameters, result, written, counted, rfl⟩⟩

theorem Counted.append_inj {parameter parameter' : List Char} (counted : Counted parameter)
    (counted' : Counted parameter') (same : parameter ++ text = parameter' ++ rest) :
    parameter = parameter' ∧ text = rest := by
  have reads := counted.reads text
  rw [same, counted'.reads rest] at reads
  obtain rfl := (Prod.mk.inj (Option.some.inj reads)).2
  exact ⟨List.append_cancel_right same, rfl⟩

/-- A row of parameters and the parenthesis behind it can be read in one way only. -/
theorem parameters_unique {parameters parameters' : List (List Char)}
    (counted : ∀ p ∈ parameters, Counted p) (counted' : ∀ p ∈ parameters', Counted p)
    (same : parameters.flatten ++ ')' :: text = parameters'.flatten ++ ')' :: rest) :
    parameters = parameters' ∧ text = rest := by
  induction parameters generalizing parameters' with
  | nil =>
    cases parameters' with
    | nil => exact ⟨rfl, (List.cons.inj same).2⟩
    | cons parameter' parameters' =>
      obtain ⟨c, behind, rfl, opens⟩ := (counted' _ List.mem_cons_self).begins
      exact absurd (List.cons.inj same).1.symm opens
  | cons parameter parameters ih =>
    obtain ⟨here, counted⟩ := List.forall_mem_cons.mp counted
    cases parameters' with
    | nil =>
      obtain ⟨c, behind, rfl, opens⟩ := here.begins
      exact absurd (List.cons.inj same).1 opens
    | cons parameter' parameters' =>
      obtain ⟨here', later'⟩ := List.forall_mem_cons.mp counted'
      rw [List.flatten_cons, List.flatten_cons, List.append_assoc, List.append_assoc] at same
      -- Reading takes the same parameter off both rows, whatever stands behind it.
      obtain ⟨rfl, behind⟩ := here.append_inj here' same
      obtain ⟨rfl, rfl⟩ := ih counted later' behind
      exact ⟨rfl, rfl⟩

/-! ### Method descriptors -/

/-- A text is a method descriptor with these parameters and this result. -/
structure Signature (text : List Char) (parameters : List (List Char)) (result : List Char) :
    Prop where
  written : text = '(' :: (parameters.flatten ++ ')' :: result)
  types : ∀ p ∈ parameters, FieldType p
  returns : result = ['V'] ∨ FieldType result

theorem isMethod_iff_signature {text : String} :
    isMethod text = true ↔ ∃ parameters result, Signature text.toList parameters result := by
  rw [isMethod_iff]
  constructor
  · intro type
    generalize text.toList = written at type ⊢
    obtain ⟨types, returns⟩ := type
    exact ⟨_, _, rfl, types, returns⟩
  · rintro ⟨parameters, result, written, types, returns⟩
    rw [written]
    exact .intro types returns

namespace Signature

variable {parameters parameters' : List (List Char)} {result result' : List Char}

theorem counted (signature : Signature text parameters result) : ∀ p ∈ parameters, Counted p :=
  fun p member => .inl (signature.types p member)

theorem argumentSlots?_eq {text : String} (signature : Signature text.toList parameters result) :
    argumentSlots? text = some (slotCount parameters).toUInt16 :=
  argumentSlots?_eq_some.mpr ⟨parameters, result, signature.written, signature.counted, rfl⟩

/-- However a text with a signature falls into parameters that count as such, it is the signature
that does so. -/
theorem unique (signature : Signature text parameters result)
    (written : text = '(' :: (parameters'.flatten ++ ')' :: result'))
    (counted : ∀ p ∈ parameters', Counted p) : parameters' = parameters ∧ result' = result :=
  parameters_unique counted signature.counted
    (List.cons.inj (written.symm.trans signature.written)).2

end Signature

/-- A text is taken as a method descriptor exactly if it is the parameters in parentheses and the
result, which it is in one way at most, and then the slots of its parameters are counted, modulo
65536. -/
theorem descriptor_parses_uniquely (text : String) :
    (isMethod text = true ↔ ∃ parameters result, Signature text.toList parameters result) ∧
    ∀ parameters result, Signature text.toList parameters result →
      (∀ parameters' result', Signature text.toList parameters' result' →
        parameters' = parameters ∧ result' = result) ∧
      (argumentSlots? text).map UInt16.toNat = some (slotCount parameters % 65536) := by
  refine ⟨isMethod_iff_signature, fun parameters result here => ⟨fun _ _ there => ?_, ?_⟩⟩
  · exact here.unique there.written there.counted
  · rw [argumentSlots?_eq_some.mpr ⟨parameters, result, here.written, here.counted, rfl⟩]
    rfl

/-- Class names with a parenthesis and a bracket in them, between wide parameters. -/
theorem descriptor_parses_uniquely_wide :
    let text := "(J[[L(;L[;D)V"
    let parameters := [['J'], ['[', '[', 'L', '(', ';'], ['L', '[', ';'], ['D']]
    Signature text.toList parameters ['V'] ∧ isMethod text = true ∧
      (argumentSlots? text).map UInt16.toNat = some 6 ∧
      ∀ parameters' result', Signature text.toList parameters' result' →
        parameters' = parameters ∧ result' = ['V'] := by
  intro text parameters
  have signature : Signature text.toList parameters ['V'] := by
    refine ⟨by decide, ?_, .inl rfl⟩
    simp only [parameters, List.forall_mem_cons, List.not_mem_nil, false_implies, implies_true,
      and_true]
    refine ⟨.primitive (by decide), .array (.array ?_), ?_, .primitive (by decide)⟩
    · exact @FieldType.classRef ['('] (by decide) (by decide)
    · exact @FieldType.classRef ['['] (by decide) (by decide)
  obtain ⟨accepted, signed⟩ := descriptor_parses_uniquely text
  obtain ⟨unique, counted⟩ := signed parameters ['V'] signature
  exact ⟨signature, accepted.mpr ⟨_, _, signature⟩, counted, unique⟩

/-- Every method descriptor has its slots counted.  Of the other texts, those have whose parameters
all count as such, although one of them is misread or what follows is no result. -/
theorem counting_accepts_more (text : String) :
    (isMethod text = true → (argumentSlots? text).isSome = true) ∧
    ((argumentSlots? text).isSome = true ∧ isMethod text = false ↔
      ∃ (parameters : List (List Char)) (result : List Char),
        text.toList = '(' :: (parameters.flatten ++ ')' :: result) ∧
        (∀ p ∈ parameters, FieldType p ∨ Misread p) ∧
        ((∃ p ∈ parameters, Misread p) ∨ ¬(result = ['V'] ∨ FieldType result))) := by
  refine ⟨fun valid => ?_, ?_, ?_⟩
  · obtain ⟨parameters, result, signature⟩ := isMethod_iff_signature.mp valid
    exact isSome_argumentSlots?.mpr ⟨parameters, result, signature.written, signature.counted⟩
  · rintro ⟨some, invalid⟩
    obtain ⟨parameters, result, written, counted⟩ := isSome_argumentSlots?.mp some
    refine ⟨parameters, result, written, counted, ?_⟩
    by_cases types : ∀ p ∈ parameters, FieldType p
    · refine .inr fun returns => ?_
      have valid := isMethod_iff_signature.mpr ⟨parameters, result, written, types, returns⟩
      rw [invalid] at valid
      contradiction
    · simp only [not_forall] at types
      obtain ⟨p, member, other⟩ := types
      exact .inl ⟨p, member, (counted p member).resolve_left other⟩
  · rintro ⟨parameters, result, written, counted, wrong⟩
    refine ⟨isSome_argumentSlots?.mpr ⟨parameters, result, written, counted⟩, ?_⟩
    rw [Bool.eq_false_iff]
    intro valid
    obtain ⟨_, _, signature⟩ := isMethod_iff_signature.mp valid
    -- The row falls apart in one way only, so the signature has these parameters and this result.
    obtain ⟨rfl, rfl⟩ := signature.unique written counted
    rcases wrong with ⟨p, member, misread⟩ | noResult
    · exact misread.not_fieldType (signature.types p member)
    · exact noResult signature.returns

/-- Texts without a result or with one that is none, a class without a name, and arrays of what
begins no type: the slots are counted, and none of them is a method descriptor. -/
theorem misread_descriptors_are_counted :
    ["()", "()Q", "(L;)V", "([Q)V", "([))V"].map (fun text =>
      ((argumentSlots? text).map UInt16.toNat, isMethod text)) =
        [(some 0, false), (some 0, false), (some 1, false), (some 1, false), (some 1, false)] := by
  decide +kernel

end ClassBench.Descriptor
