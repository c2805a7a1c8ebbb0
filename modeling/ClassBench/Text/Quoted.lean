import ClassBench.Text.GraphemeExtender
import ClassBench.Text.Hex
import ClassBench.Text.Unprintable

/-! Text in double quotes.  The quote, the backslash and four controls are written with a backslash
before a letter or themselves; any other character that would not be seen on its own is written by
its number in braces. -/

namespace ClassBench.Quoted

/-- Whether a character is written by its number. -/
def isHidden (c : Char) : Bool :=
  !(0x20 ≤ c.toNat && c.toNat < 0x7F) && (Text.isExtender c || Text.isUnprintable c)

/-- A character between quotes. -/
def escape (c : Char) : List Char :=
  match c with
  | '"' => ['\\', '"']
  | '\\' => ['\\', '\\']
  | '\n' => ['\\', 'n']
  | '\r' => ['\\', 'r']
  | '\t' => ['\\', 't']
  | '\x00' => ['\\', '0']
  | _ => if isHidden c then ['\\', 'u', '\x7b'] ++ Hex.digits c.toNat ++ ['\x7d'] else [c]

end ClassBench.Quoted

namespace ClassBench

/-- A text in quotes. -/
def quoted (text : String) : String :=
  String.ofList ('"' :: text.toList.flatMap Quoted.escape ++ ['"'])

end ClassBench
