import ClassBench.Reader

/-! Scripts of a reader: reading steps as data, and what each step of a row comes to.  A step that
fails does not end the row; the next one goes on from wherever the reader was left. -/

namespace ClassBench

/-- A step of reading. -/
inductive ReadStep where
  | u8
  | u16
  | u32
  | i32
  | i64
  | bytes (count : Nat)
  | skip (count : Nat)
  deriving DecidableEq, Repr

/-- What a step that succeeds has read. -/
inductive ReadValue where
  | u8 (byte : UInt8)
  | u16 (word : UInt16)
  | u32 (word : UInt32)
  | i32 (number : Int32)
  | i64 (number : Int64)
  | bytes (bytes : Bytes)
  | skipped
  deriving DecidableEq, Repr

/-- A step that was taken: where it began, what came of it and where it left the cursor. -/
structure Reading where
  step : ReadStep
  start : Cursor
  result : Except DecodeError ReadValue
  stop : Cursor

namespace ReadStep

/-- The reader of a step. -/
def reader : ReadStep → Reader ReadValue
  | u8 => do return .u8 (← Reader.u8)
  | u16 => do return .u16 (← Reader.u16)
  | u32 => do return .u32 (← Reader.u32)
  | i32 => do return .i32 (← Reader.i32)
  | i64 => do return .i64 (← Reader.i64)
  | bytes count => do return .bytes (← Reader.bytes count)
  | skip count => do
    Reader.skip count
    return .skipped

/-- Takes a step at a cursor. -/
def run (step : ReadStep) (start : Cursor) : Reading :=
  match step.reader start with
  | .ok value stop => ⟨step, start, .ok value, stop⟩
  | .error error stop => ⟨step, start, .error error, stop⟩

/-- Takes steps in a row, each where the one before has left the cursor. -/
def runAll : List ReadStep → Cursor → List Reading
  | [], _ => []
  | step :: steps, start =>
    let reading := step.run start
    reading :: runAll steps reading.stop

end ReadStep

/-- Takes steps in a row over a buffer, from its start. -/
def Reader.readings (buffer : Bytes) (steps : List ReadStep) : List Reading :=
  ReadStep.runAll steps ⟨buffer, 0⟩

end ClassBench
