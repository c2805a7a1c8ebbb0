import ClassBench.Text.Hex

/-! The part of TOML that configurations are written in: keys with texts or lists of texts,
comments, and nothing else.  Numbers, dates, truth values, dotted keys and tables are refused
along with everything that is no TOML at all, since no configuration has a place for them. -/

namespace ClassBench.Toml

/-- The values of keys. -/
inductive Value where
  | text (text : String)
  | texts (texts : List String)
  deriving DecidableEq, Repr

/-- Whether a character can stand for itself in a text or a comment. -/
def isPlain (c : Char) : Bool := c == '\t' || (0x20 ≤ c.toNat && c.toNat != 0x7F)

/-- Drops spaces and tabs. -/
def skipSpace (cs : List Char) : List Char := cs.dropWhile fun c => c == ' ' || c == '\t'

/-- Drops spaces, tabs and ends of lines. -/
def skipBlank : List Char → List Char
  | ' ' :: rest | '\t' :: rest | '\n' :: rest | '\r' :: '\n' :: rest => skipBlank rest
  | cs => cs

/-- Drops a comment up to the end of its line, after the mark that begins it. -/
def skipComment (cs : List Char) : List Char := cs.dropWhile isPlain

theorem length_skipBlank_le (cs : List Char) : (skipBlank cs).length ≤ cs.length := by
  fun_induction skipBlank cs <;> simp_all <;> omega

theorem length_skipComment_le (cs : List Char) : (skipComment cs).length ≤ cs.length :=
  (List.dropWhile_suffix _).length_le

/-- The character that a letter stands for after a backslash. -/
def escape? : Char → Option Char
  | 'b' => some '\x08'
  | 't' => some '\t'
  | 'n' => some '\n'
  | 'f' => some '\x0c'
  | 'r' => some '\r'
  | '"' => some '"'
  | '\\' => some '\\'
  | _ => none

/-- The character with a number in hexadecimal digits. -/
def scalar? (digits : List Char) : Option Char := do
  let n ← digits.foldlM (fun n d => do return n * 16 + (← Hex.digitValue? d)) 0
  if n.isValidChar then some (Char.ofNat n) else none

/-- Reads a text in double quotes after the first quote.  What was read already is given in
reverse. -/
def readBasic (read : List Char) : List Char → Option (String × List Char)
  | '"' :: rest => some (String.ofList read.reverse, rest)
  | '\\' :: 'u' :: a :: b :: c :: d :: rest =>
    (scalar? [a, b, c, d]).bind fun scalar => readBasic (scalar :: read) rest
  | '\\' :: 'U' :: a :: b :: c :: d :: e :: f :: g :: h :: rest =>
    (scalar? [a, b, c, d, e, f, g, h]).bind fun scalar => readBasic (scalar :: read) rest
  | '\\' :: letter :: rest =>
    (escape? letter).bind fun escaped => readBasic (escaped :: read) rest
  | c :: rest => if isPlain c ∧ c ≠ '\\' then readBasic (c :: read) rest else none
  | [] => none

/-- Reads a text in single quotes after the first quote. -/
def readLiteral (read : List Char) : List Char → Option (String × List Char)
  | '\'' :: rest => some (String.ofList read.reverse, rest)
  | c :: rest => if isPlain c then readLiteral (c :: read) rest else none
  | [] => none

/-- Reads a text of several lines after three double quotes.  Up to two quotes may stand right
before the last three; a backslash at the end of a line joins it with the next one that is not
blank. -/
def readLongBasic (read : List Char) : List Char → Option (String × List Char)
  | '"' :: '"' :: '"' :: '"' :: '"' :: rest =>
    some (String.ofList ('"' :: '"' :: read).reverse, rest)
  | '"' :: '"' :: '"' :: '"' :: rest => some (String.ofList ('"' :: read).reverse, rest)
  | '"' :: '"' :: '"' :: rest => some (String.ofList read.reverse, rest)
  | '\\' :: 'u' :: a :: b :: c :: d :: rest =>
    (scalar? [a, b, c, d]).bind fun scalar => readLongBasic (scalar :: read) rest
  | '\\' :: 'U' :: a :: b :: c :: d :: e :: f :: g :: h :: rest =>
    (scalar? [a, b, c, d, e, f, g, h]).bind fun scalar => readLongBasic (scalar :: read) rest
  | '\\' :: letter :: rest =>
    match escape? letter with
    | some escaped => readLongBasic (escaped :: read) rest
    | none =>
      match _h : skipSpace (letter :: rest) with
      | '\n' :: _ | '\r' :: '\n' :: _ => readLongBasic read (skipBlank (letter :: rest))
      | _ => none
  | '\n' :: rest | '\r' :: '\n' :: rest => readLongBasic ('\n' :: read) rest
  | c :: rest => if isPlain c ∧ c ≠ '\\' then readLongBasic (c :: read) rest else none
  | [] => none
  termination_by cs => cs.length
  decreasing_by
    all_goals
      try have := length_skipBlank_le (letter :: rest)
      simp_all only [List.length_cons]
      omega

/-- Reads a text of several lines after three single quotes. -/
def readLongLiteral (read : List Char) : List Char → Option (String × List Char)
  | '\'' :: '\'' :: '\'' :: '\'' :: '\'' :: rest =>
    some (String.ofList ('\'' :: '\'' :: read).reverse, rest)
  | '\'' :: '\'' :: '\'' :: '\'' :: rest => some (String.ofList ('\'' :: read).reverse, rest)
  | '\'' :: '\'' :: '\'' :: rest => some (String.ofList read.reverse, rest)
  | '\n' :: rest | '\r' :: '\n' :: rest => readLongLiteral ('\n' :: read) rest
  | c :: rest => if isPlain c then readLongLiteral (c :: read) rest else none
  | [] => none

/-- Reads a text of any form. -/
def readText : List Char → Option (String × List Char)
  | '"' :: '"' :: '"' :: '\n' :: rest | '"' :: '"' :: '"' :: '\r' :: '\n' :: rest
  | '"' :: '"' :: '"' :: rest => readLongBasic [] rest
  | '\'' :: '\'' :: '\'' :: '\n' :: rest | '\'' :: '\'' :: '\'' :: '\r' :: '\n' :: rest
  | '\'' :: '\'' :: '\'' :: rest => readLongLiteral [] rest
  | '"' :: rest => readBasic [] rest
  | '\'' :: rest => readLiteral [] rest
  | _ => none

/-- Drops blanks and comments. -/
def skipComments (cs : List Char) : List Char :=
  match _h : skipBlank cs with
  | '#' :: rest => skipComments (skipComment rest)
  | rest => rest
  termination_by cs.length
  decreasing_by
    have := length_skipBlank_le cs
    have := length_skipComment_le rest
    simp_all only [List.length_cons]
    omega

/-- Reads the texts of a list after its opening bracket, or after a comma, `fuel` texts at most. -/
def readTexts (read : List String) : (fuel : Nat) → List Char → Option (List String × List Char)
  | 0, _ => none
  | fuel + 1, cs =>
    match skipComments cs with
    | ']' :: rest => some (read.reverse, rest)
    | rest => do
      let (text, rest) ← readText rest
      match skipComments rest with
      | ',' :: rest => readTexts (text :: read) fuel rest
      | ']' :: rest => some ((text :: read).reverse, rest)
      | _ => none

/-- Reads a value. -/
def readValue : List Char → Option (Value × List Char)
  | '[' :: rest => do
    let (texts, rest) ← readTexts [] (rest.length + 1) rest
    return (.texts texts, rest)
  | cs => do
    let (text, rest) ← readText cs
    return (.text text, rest)

/-- Whether a character can stand in a key without quotes. -/
def isBare (c : Char) : Bool := c.isAlphanum || c == '_' || c == '-'

/-- Reads a key. -/
def readKey : List Char → Option (String × List Char)
  | '"' :: rest => readBasic [] rest
  | '\'' :: rest => readLiteral [] rest
  | cs =>
    match cs.takeWhile isBare with
    | [] => none
    | key => some (String.ofList key, cs.dropWhile isBare)

/-- Reads what may stand after a value on its line. -/
def readLineEnd (cs : List Char) : Option (List Char) :=
  let rest :=
    match skipSpace cs with
    | '#' :: rest => skipComment rest
    | rest => rest
  match rest with
  | [] => some []
  | '\n' :: rest | '\r' :: '\n' :: rest => some rest
  | _ => none

/-- Reads a key with its value, up to the end of the line. -/
def readEntry (cs : List Char) : Option ((String × Value) × List Char) := do
  let (key, rest) ← readKey cs
  match skipSpace rest with
  | '=' :: rest =>
    let (value, rest) ← readValue (skipSpace rest)
    return ((key, value), ← readLineEnd rest)
  | _ => none

/-- Reads the entries of a document, `fuel` of them at most. -/
def readEntries (read : List (String × Value)) : (fuel : Nat) → List Char →
    Option (List (String × Value))
  | 0, _ => none
  | fuel + 1, cs =>
    match skipComments cs with
    | [] => some read.reverse
    | rest => do
      let (entry, rest) ← readEntry rest
      if (read.lookup entry.1).isSome then none else readEntries (entry :: read) fuel rest

/-- The entries of a document, which may begin with a byte order mark. -/
def parse? (document : String) : Option (List (String × Value)) :=
  match document.toList with
  | '\uFEFF' :: cs => readEntries [] (cs.length + 1) cs
  | cs => readEntries [] (cs.length + 1) cs

end ClassBench.Toml
