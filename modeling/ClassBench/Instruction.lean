import ClassBench.Bytes
import ClassBench.Opcode

/-! Instructions and what their operands say.  An instruction is an opcode at an offset with the raw
bytes after it.  The operands of a jump are distances from the offset of its opcode, and a distance
that leads before the start of the code leads nowhere. -/

namespace ClassBench

/-- An instruction of a method body.  The operands of a switch begin with its padding. -/
structure Instruction where
  offset : Nat
  opcode : Opcode
  operands : Bytes
  deriving DecidableEq, Repr

namespace Instruction

/-- The bytes that an instruction takes in the code. -/
def bytes (i : Instruction) : Bytes := i.opcode.byte :: i.operands

/-- The offset of the instruction after this one. -/
def next (i : Instruction) : Nat := i.offset + 1 + i.operands.length

/-- The number of bytes between a switch at `offset` and its table, which begins at a multiple of
four. -/
def padding (offset : Nat) : Nat := (4 - (offset + 1) % 4) % 4

/-- The index of the pool entry that the instruction uses. -/
def poolIndex? (i : Instruction) : Option UInt16 :=
  match i.opcode.layout with
  | .shortIndex => (i.operands.u8At? 0).map UInt8.toUInt16
  | .poolIndex | .interfaceCall | .dynamicCall | .arrayDimensions => i.operands.u16At? 0
  | _ => none

/-- The local variable that the operands name. -/
def localIndex? (i : Instruction) : Option UInt16 :=
  match i.opcode.layout with
  | .localIndex | .increment => (i.operands.u8At? 0).map UInt8.toUInt16
  | .wide => i.operands.u16At? 1
  | _ => none

/-- The number in the operands: a value to push or an increment. -/
def immediate? (i : Instruction) : Option Int :=
  match i.opcode.layout with
  | .signedByte => (i.operands.u8At? 0).map (·.toInt8.toInt)
  | .signedShort => (i.operands.u16At? 0).map (·.toInt16.toInt)
  | .increment => (i.operands.u8At? 1).map (·.toInt8.toInt)
  | _ => none

/-- The offset at this distance from the instruction. -/
def at? (i : Instruction) (distance : Int) : Option Nat :=
  let target := i.offset + distance
  if 0 ≤ target then some target.toNat else none

/-- The distance that a branch jumps. -/
def distance? (i : Instruction) : Option Int :=
  match i.opcode.layout with
  | .branch => (i.operands.u16At? 0).map (·.toInt16.toInt)
  | .longBranch => (i.operands.i32At? 0).map Int32.toInt
  | _ => none

/-- The offset that a branch jumps to. -/
def branchTarget? (i : Instruction) : Option Nat := i.distance?.bind i.at?

/-- The distances in a table of consecutive keys, after those read already (in reverse). -/
def tableDistances (read : List Int) : Bytes → List Int
  | a :: b :: c :: d :: rest => tableDistances ((Word.u32 a b c d).toInt32.toInt :: read) rest
  | _ => read.reverse

/-- The distances in a list of keys with distances, after those read already (in reverse). -/
def pairDistances (read : List Int) : Bytes → List Int
  | _ :: _ :: _ :: _ :: a :: b :: c :: d :: rest =>
    pairDistances ((Word.u32 a b c d).toInt32.toInt :: read) rest
  | _ => read.reverse

/-- The distances of a switch, the default first.  A table that is cut short counts as far as it
goes, unless one of the words before the cases is missing. -/
def switchDistances (i : Instruction) : List Int :=
  let table : Bytes := i.operands.drop (padding i.offset)
  match i.opcode with
  | .tableswitch =>
    match table.i32At? 0, table.i32At? 4, table.i32At? 8 with
    | some fallback, some low, some high =>
      let cases := (high.toInt - low.toInt + 1).toNat
      fallback.toInt :: (tableDistances [] (table.drop 12)).take cases
    | _, _, _ => []
  | .lookupswitch =>
    match table.i32At? 0, table.i32At? 4 with
    | some fallback, some pairs =>
      fallback.toInt :: (pairDistances [] (table.drop 8)).take pairs.toInt.toNat
    | _, _ => []
  | _ => []

/-- The offsets that a switch jumps to, the default first. -/
def switchTargets (i : Instruction) : List Nat := i.switchDistances.filterMap i.at?

/-- The local variable that a short form of load or store has in its opcode. -/
def impliedLocal? (op : Opcode) : Option UInt16 :=
  let b := op.byte
  if 0x1A ≤ b ∧ b ≤ 0x2D then some ((b - 0x1A) % 4).toUInt16
  else if 0x3B ≤ b ∧ b ≤ 0x4E then some ((b - 0x3B) % 4).toUInt16
  else none

end Instruction

end ClassBench
