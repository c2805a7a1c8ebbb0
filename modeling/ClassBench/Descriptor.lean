import ClassBench.Bytes

/-! Descriptors, the texts that give the types of fields and methods.  A field type is any number
of `[` before one of the letters `BCDFIJSZ` or before a class name between `L` and `;`.  A method
descriptor is a row of field types in parentheses and the type of the result, where `V` is no
result.

Counting the slots of the parameters is more lenient than the grammar: it ignores the result,
takes the empty class name, and lets any ASCII character stand for the type of array elements. -/

namespace ClassBench.Descriptor

/-- The letters of the types other than classes. -/
def isPrimitive (c : Char) : Bool :=
  c = 'B' || c = 'C' || c = 'D' || c = 'F' || c = 'I' || c = 'J' || c = 'S' || c = 'Z'

/-- What follows the first semicolon. -/
def afterSemicolon? (text : List Char) : Option (List Char) :=
  match text.dropWhile (· != ';') with
  | _ :: rest => some rest
  | [] => none

/-- What follows the field type at the start. -/
def fieldType? : List Char → Option (List Char)
  | [] => none
  | c :: rest =>
    if c = '[' then fieldType? rest
    else if isPrimitive c then some rest
    else if c = 'L' ∧ rest.head? ≠ some ';' then afterSemicolon? rest
    else none

theorem length_afterSemicolon? {text rest : List Char} (h : afterSemicolon? text = some rest) :
    rest.length < text.length := by
  unfold afterSemicolon? at h
  have hle := (List.dropWhile_sublist (l := text) (· != ';')).length_le
  split at h
  · next heq =>
    rw [heq, List.length_cons] at hle
    cases h
    omega
  · simp at h

theorem length_fieldType? {text rest : List Char} (h : fieldType? text = some rest) :
    rest.length < text.length := by
  induction text with
  | nil => simp [fieldType?] at h
  | cons c cs ih =>
    rw [fieldType?] at h
    split at h
    · have := ih h
      simp
      omega
    · split at h
      · simp_all
      · split at h
        · have := length_afterSemicolon? h
          simp
          omega
        · simp at h

/-- Whether a text is exactly one field type. -/
def isField (text : String) : Bool := fieldType? text.toList == some []

/-- What follows a row of field types and the parenthesis that closes it. -/
def parameters? (text : List Char) : Option (List Char) :=
  if text.head? = some ')' then some text.tail
  else
    match _h : fieldType? text with
    | some rest => parameters? rest
    | none => none
  termination_by text.length
  decreasing_by exact length_fieldType? _h

/-- Whether a text is exactly one field type or the letter for no result. -/
def isResult (text : List Char) : Bool := text == ['V'] || fieldType? text == some []

/-- Whether a text is a method descriptor. -/
def isMethod (text : String) : Bool :=
  match text.toList with
  | '(' :: rest =>
    match parameters? rest with
    | some result => isResult result
    | none => false
  | _ => false

/-- What follows the element type of an array, taken leniently. -/
def elementType? : List Char → Option (List Char)
  | [] => none
  | c :: rest =>
    if c = '[' then elementType? rest
    else if c = 'L' then afterSemicolon? rest
    else if c.toNat < 128 then some rest
    else none

/-- The slots that the parameter at the start takes, and what follows it. -/
def parameterSlots? : List Char → Option (UInt16 × List Char)
  | [] => none
  | c :: rest =>
    if c = 'J' ∨ c = 'D' then some (2, rest)
    else if isPrimitive c then some (1, rest)
    else if c = 'L' then (afterSemicolon? rest).map (1, ·)
    else if c = '[' then (elementType? rest).map (1, ·)
    else none

theorem length_elementType? {text rest : List Char} (h : elementType? text = some rest) :
    rest.length < text.length := by
  induction text with
  | nil => simp [elementType?] at h
  | cons c cs ih =>
    rw [elementType?] at h
    split at h
    · have := ih h
      simp
      omega
    · split at h
      · have := length_afterSemicolon? h
        simp
        omega
      · split at h <;> simp_all

theorem length_parameterSlots? {text rest : List Char} {slots : UInt16}
    (h : parameterSlots? text = some (slots, rest)) : rest.length < text.length := by
  cases text with
  | nil => simp [parameterSlots?] at h
  | cons c cs =>
    rw [parameterSlots?] at h
    split at h
    · simp_all
    · split at h
      · simp_all
      · split at h
        · obtain ⟨r, hr, he⟩ := Option.map_eq_some_iff.mp h
          have := length_afterSemicolon? hr
          simp_all
          omega
        · split at h
          · obtain ⟨r, hr, he⟩ := Option.map_eq_some_iff.mp h
            have := length_elementType? hr
            simp_all
            omega
          · simp at h

/-- The slots of a row of parameters, on top of those counted before it, up to the parenthesis that
closes it.  The sum wraps at 65536. -/
def slotsFrom (slots : UInt16) (text : List Char) : Option UInt16 :=
  if text.head? = some ')' then some slots
  else
    match _h : parameterSlots? text with
    | some (more, rest) => slotsFrom (slots + more) rest
    | none => none
  termination_by text.length
  decreasing_by exact length_parameterSlots? _h

/-- The local variables that the parameters of a method descriptor take. -/
def argumentSlots? (text : String) : Option UInt16 :=
  match text.toList with
  | '(' :: rest => slotsFrom 0 rest
  | _ => none

end ClassBench.Descriptor
