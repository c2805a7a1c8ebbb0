import ClassBench.ClassFile.Codec
import ClassBench.Decimal
import ClassBench.Instruction.Split
import ClassBench.Text.Quoted

/-! Listings of class files.  A listing has a header, the constant pool, the fields, and the methods
with one line for each instruction; an index into the pool is followed by what it leads to.  What
is missing or cannot be read has a placeholder: a question mark for a name, and a line that reports
the fault for a body. -/

namespace ClassBench

namespace Trace

/-- What stands in a listing for what is missing or cannot be read. -/
structure Placeholders where
  /-- For a name. -/
  unknown : String := "?"
  /-- For the class of exceptions that a handler is for. -/
  uncaught : String := "?"
  /-- For the pool entry of an instruction. -/
  invalid : String := "<invalid>"
  /-- The line for a body whose attribute is malformed. -/
  malformed : DecodeError → String := fun error =>
    s!"    // malformed Code attribute: {error.message}"
  /-- The line for code that is not made of instructions. -/
  undecodable : CodeError → String := fun error =>
    s!"    // undecodable code: {error.message}"

variable (marks : Placeholders)

/-- The text, or the placeholder for a name. -/
def orUnknown (text : Option String) : String := text.getD marks.unknown

/-- A member reference in one word. -/
def memberText (m : MemberRef) : String := s!"{m.owner}.{m.name}{m.descriptor}"

/-- What an entry holds. -/
def detail (pool : Pool) (index : UInt16) : Constant → String
  | .utf8 text => quoted text
  | .integer value => s!"{value}"
  | .float bits => FloatFormat.single.text bits.toNat ++ "f"
  | .long value => s!"{value}L"
  | .double bits => FloatFormat.double.text bits.toNat ++ "d"
  | .classRef name | .moduleRef name | .packageRef name =>
    s!"#{name} // {orUnknown marks (pool.utf8? name)}"
  | .string text => s!"#{text} // {quoted (orUnknown marks (pool.utf8? text))}"
  | .methodType descriptor => s!"#{descriptor} // {orUnknown marks (pool.utf8? descriptor)}"
  | .fieldRef owner signature | .methodRef owner signature | .interfaceMethodRef owner signature =>
    s!"#{owner}.#{signature} // {orUnknown marks ((pool.member? index).map memberText)}"
  | .nameAndType name descriptor =>
    s!"#{name}:#{descriptor} // {orUnknown marks (pool.utf8? name)}:" ++
      orUnknown marks (pool.utf8? descriptor)
  | .methodHandle mode member =>
    s!"{mode}:#{member} // {orUnknown marks ((pool.member? member).map memberText)}"
  | .dynamic bootstrap signature | .invokeDynamic bootstrap signature =>
    let (name, descriptor) := (pool.nameAndType? signature).getD (marks.unknown, marks.unknown)
    s!"#{bootstrap}:#{signature} // {name}:{descriptor}"

/-- The line of an entry. -/
def entryLine (pool : Pool) (index : UInt16) (c : Constant) : String :=
  s!"  #{index} = {c.kind.name} {detail marks pool index c}"

/-- What the index in an instruction leads to. -/
def comment (pool : Pool) (index : UInt16) : String :=
  match pool.get? index with
  | some (.classRef _) => " // " ++ orUnknown marks (pool.className? index)
  | some (.string text) => " // " ++ quoted (orUnknown marks (pool.utf8? text))
  | some (.integer value) => s!" // {value}"
  | some (.invokeDynamic _ signature) =>
    match pool.nameAndType? signature with
    | some (name, descriptor) => s!" // {name}{descriptor}"
    | none => ""
  | some _ =>
    match pool.member? index with
    | some m => " // " ++ memberText m
    | none => ""
  | none => " // " ++ marks.invalid

/-- A space and a value, if there is one. -/
def spaced [ToString α] (value : Option α) : String :=
  match value with
  | some v => s!" {v}"
  | none => ""

/-- The operands of an instruction without a pool index. -/
def operands (i : Instruction) : String :=
  let targets := if i.opcode.isSwitch then
      " [" ++ ", ".intercalate (i.switchTargets.map toString) ++ "]"
    else ""
  let widened := if i.opcode.layout = .wide then
      spaced (((i.operands.u8At? 0).bind Opcode.ofByte?).map Opcode.mnemonic)
    else ""
  spaced i.localIndex? ++ spaced i.immediate? ++ spaced i.branchTarget? ++ targets ++ widened

/-- An instruction with its offset. -/
def instruction (pool : Pool) (i : Instruction) : String :=
  s!"{i.offset}: {i.opcode.mnemonic}" ++
    match i.poolIndex? with
    | some index => s!" #{index}" ++ comment marks pool index
    | none => operands i

/-- The line of a handler. -/
def handlerLine (pool : Pool) (h : Handler) : String :=
  let caught := if h.caught = 0 then "any" else (pool.className? h.caught).getD marks.uncaught
  s!"    TRYCATCHBLOCK {h.first} {h.last} {h.target} {caught}"

/-- The lines of a body. -/
def code (pool : Pool) (c : Code) : List String :=
  let instructions := match Instruction.split c.code with
    | .ok is => is.map fun i => "    " ++ instruction marks pool i
    | .error error => [marks.undecodable error]
  instructions ++ c.handlers.map (handlerLine marks pool) ++
    [s!"    MAXSTACK = {c.maxStack}", s!"    MAXLOCALS = {c.maxLocals}"]

/-- The lines of the body of a method, if it has one. -/
def body (pool : Pool) (m : Member) : List String :=
  match m.code? pool with
  | .ok (some c) => code marks pool c
  | .ok none => []
  | .error error => [marks.malformed error]

/-- The lines of a member, with a text between its name and its descriptor. -/
def member (pool : Pool) (separator : String) (m : Member) : List String :=
  let words := Access.keywords m.access ++ [orUnknown marks (m.name? pool)]
  ["", "  // access flags " ++ Hex.marked m.access.toNat,
    "  " ++ " ".intercalate words ++ separator ++ orUnknown marks (m.descriptor? pool)]

/-- The word for the kind of a class. -/
def kindWord (c : ClassFile) : String :=
  if c.isInterface then "interface"
  else if Access.has c.access Access.isAbstract then "abstract class"
  else "class"

/-- The line that declares a class. -/
def declaration (c : ClassFile) : String :=
  let words := Access.keywords (c.access &&& ~~~Access.isAbstract) ++ [kindWord c]
  let super := match c.superName? with
    | some name => " extends " ++ name
    | none => ""
  let interfaces := if c.interfaceNames.isEmpty then ""
    else " implements " ++ ", ".intercalate c.interfaceNames
  " ".intercalate words ++ " " ++ orUnknown marks c.name? ++ super ++ interfaces ++ " \x7b"

/-- The lines of a listing. -/
def lines (c : ClassFile) : List String :=
  [s!"// class version {c.major}.{c.minor}", "// access flags " ++ Hex.marked c.access.toNat,
    declaration marks c, "", s!"  // constant pool ({c.pool.count} slots)"] ++
  (c.pool.indexed.map fun (index, entry) => entryLine marks c.pool index entry) ++
  c.fields.flatMap (member marks c.pool " ") ++
  (c.methods.flatMap fun m => member marks c.pool "" m ++ body marks c.pool m) ++ ["\x7d"]

end Trace

/-- The listing of a class, with these placeholders. -/
def ClassFile.traceWith (marks : Trace.Placeholders) (c : ClassFile) : String :=
  String.join ((Trace.lines marks c).map (· ++ "\n"))

/-- The listing of a class. -/
def ClassFile.trace (c : ClassFile) : String := c.traceWith {}

end ClassBench
