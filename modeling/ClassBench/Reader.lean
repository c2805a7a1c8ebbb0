import ClassBench.DecodeError

/-! Reading a byte string from the front.  A reader works on a cursor and either returns a value
with the cursor past the bytes it used, or fails with the cursor where the failing read began.
Each basic read takes all of its bytes or none; a 64-bit word is two basic reads. -/

namespace ClassBench

/-- The bytes that are left, and the number of bytes before them. -/
structure Cursor where
  rest : Bytes
  position : Nat := 0
  deriving DecidableEq, Repr

/-- A computation that reads bytes at a cursor, which it moves also when it fails. -/
abbrev Reader := EStateM DecodeError Cursor

namespace Reader

/-- The next `count` bytes. -/
def bytes (count : Nat) : Reader Bytes := fun cursor =>
  let (taken, rest) := cursor.rest.splitAt count
  if taken.length = count then .ok taken ⟨rest, cursor.position + count⟩
  else .error (.unexpectedEnd cursor.position) cursor

/-- Passes over the next `count` bytes. -/
def skip (count : Nat) : Reader Unit := do
  let _ ← bytes count

/-- The next byte. -/
def u8 : Reader UInt8 := fun cursor =>
  match cursor.rest with
  | a :: rest => .ok a ⟨rest, cursor.position + 1⟩
  | [] => .error (.unexpectedEnd cursor.position) cursor

/-- The next 16-bit word. -/
def u16 : Reader UInt16 := fun cursor =>
  match cursor.rest with
  | a :: b :: rest => .ok (Word.u16 a b) ⟨rest, cursor.position + 2⟩
  | _ => .error (.unexpectedEnd cursor.position) cursor

/-- The next 32-bit word. -/
def u32 : Reader UInt32 := fun cursor =>
  match cursor.rest with
  | a :: b :: c :: d :: rest => .ok (Word.u32 a b c d) ⟨rest, cursor.position + 4⟩
  | _ => .error (.unexpectedEnd cursor.position) cursor

/-- The next signed 32-bit word. -/
def i32 : Reader Int32 := do return (← u32).toInt32

/-- The next 64-bit word, high half first. -/
def u64 : Reader UInt64 := do
  let high ← u32
  let low ← u32
  return Word.u64 high low

/-- The next signed 64-bit word. -/
def i64 : Reader Int64 := do return (← u64).toInt64

/-- The number of bytes passed so far. -/
def position : Reader Nat := fun cursor => .ok cursor.position cursor

/-- `count` items, one after the other, in front of those already read (in reverse). -/
def repeatInto (item : Reader α) : Nat → List α → Reader (List α)
  | 0, items => return items.reverse
  | count + 1, items => do
    let x ← item
    repeatInto item count (x :: items)

/-- A 16-bit count and that many items. -/
def counted (item : Reader α) : Reader (List α) := do
  let count ← u16
  repeatInto item count.toNat []

/-- The result of reading `bytes` from the start. -/
def run (reader : Reader α) (bytes : Bytes) : Except DecodeError α :=
  match reader ⟨bytes, 0⟩ with
  | .ok value _ => .ok value
  | .error error _ => .error error

end Reader

end ClassBench
