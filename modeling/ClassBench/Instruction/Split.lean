import ClassBench.Instruction
import ClassBench.Text.Hex

/-! Splitting code into instructions.  Each instruction takes its opcode and the operands that the
layout asks for, and the next one begins right after it, until the code ends. -/

namespace ClassBench

/-- Why a byte string is no row of whole instructions.  The offset is that of the first instruction
at fault. -/
inductive CodeError where
  /-- No opcode has this byte. -/
  | invalidOpcode (found : UInt8) (offset : Nat)
  /-- The code ends within the instruction. -/
  | truncated (offset : Nat)
  /-- An opcode that has no wide form. -/
  | invalidWide (found : UInt8) (offset : Nat)
  /-- A table with its bounds in the wrong order, or a negative number of pairs. -/
  | invalidSwitch (offset : Nat)
  deriving DecidableEq, Repr

/-- The name of the cause. -/
def CodeError.kind : CodeError → String
  | invalidOpcode .. => "InvalidOpcode"
  | truncated .. => "Truncated"
  | invalidWide .. => "InvalidWide"
  | invalidSwitch .. => "InvalidSwitch"

/-- The text of an error. -/
def CodeError.message : CodeError → String
  | invalidOpcode found offset =>
    "Invalid opcode " ++ Hex.markedPadded 2 found.toNat ++ s!" at offset {offset}"
  | truncated offset => s!"Truncated instruction at offset {offset}"
  | invalidWide found offset =>
    "Invalid wide target " ++ Hex.markedPadded 2 found.toNat ++ s!" at offset {offset}"
  | invalidSwitch offset => s!"Malformed switch at offset {offset}"

namespace Instruction

/-- The number of operand bytes of the wide form of an opcode. -/
def wideLength? : Opcode → Option Nat
  | .iinc => some 5
  | .iload | .lload | .fload | .dload | .aload | .istore | .lstore | .fstore | .dstore | .astore
  | .ret => some 3
  | _ => none

/-- The number of operand bytes of `wide`, before the bytes `rest`. -/
def wideOperands (offset : Nat) (rest : Bytes) : Except CodeError Nat :=
  match rest with
  | [] => .error (.truncated offset)
  | b :: _ =>
    match (Opcode.ofByte? b).bind wideLength? with
    | some length => .ok length
    | none => .error (.invalidWide b offset)

/-- The number of operand bytes of a switch over consecutive keys, before the bytes `rest`. -/
def tableOperands (offset : Nat) (rest : Bytes) : Except CodeError Nat :=
  let pad := padding offset
  match rest.i32At? (pad + 4), rest.i32At? (pad + 8) with
  | some low, some high =>
    if high < low then .error (.invalidSwitch offset)
    else .ok (pad + 12 + (high.toInt - low.toInt + 1).toNat * 4)
  | _, _ => .error (.truncated offset)

/-- The number of operand bytes of a switch over listed keys, before the bytes `rest`. -/
def lookupOperands (offset : Nat) (rest : Bytes) : Except CodeError Nat :=
  let pad := padding offset
  match rest.i32At? (pad + 4) with
  | some pairs =>
    if pairs < 0 then .error (.invalidSwitch offset) else .ok (pad + 8 + pairs.toInt.toNat * 8)
  | none => .error (.truncated offset)

/-- The number of operand bytes of `op` at `offset`, before the bytes `rest`. -/
def operandLength (op : Opcode) (offset : Nat) (rest : Bytes) : Except CodeError Nat :=
  match op.layout.size? with
  | some size => .ok size
  | none =>
    match op.layout with
    | .tableSwitch => tableOperands offset rest
    | .lookupSwitch => lookupOperands offset rest
    | _ => wideOperands offset rest

/-- Splits the code from `offset` on, after the instructions already found (in reverse). -/
def splitInto (offset : Nat) (found : List Instruction) (code : Bytes) :
    Except CodeError (List Instruction) :=
  match code with
  | [] => .ok found.reverse
  | b :: rest =>
    match Opcode.ofByte? b with
    | none => .error (.invalidOpcode b offset)
    | some op =>
      match operandLength op offset rest with
      | .error error => .error error
      | .ok length =>
        let operands := rest.take length
        if operands.length = length then
          splitInto (offset + 1 + length) (⟨offset, op, operands⟩ :: found) (rest.drop length)
        else .error (.truncated offset)
  termination_by code.length
  decreasing_by
    simp only [List.length_drop, List.length_cons]
    omega

/-- The instructions of a code array. -/
def split (code : Bytes) : Except CodeError (List Instruction) := splitInto 0 [] code

end Instruction

end ClassBench
