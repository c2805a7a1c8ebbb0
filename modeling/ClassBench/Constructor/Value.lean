import ClassBench.Pool

/-! The values that constructors handle, and the fields that hold them. -/

namespace ClassBench

/-- A value on the operand stack or in a field.  Floating-point numbers are kept as their bits. -/
inductive Value where
  | null
  /-- The instance under construction. -/
  | this
  | int (value : Int32)
  | long (value : Int64)
  | float (bits : UInt32)
  | double (bits : UInt64)
  | string (text : String)
  | classRef (name : String)
  deriving DecidableEq, Repr

/-- The value that a pool entry stands for. -/
def Value.ofConstant? (pool : Pool) (index : UInt16) : Option Value :=
  match pool.get? index with
  | some (.integer value) => some (.int value)
  | some (.float bits) => some (.float bits)
  | some (.long value) => some (.long value)
  | some (.double bits) => some (.double bits)
  | some (.string text) => (pool.utf8? text).map .string
  | some (.classRef _) => (pool.className? index).map .classRef
  | _ => none

/-- The values of fields, each by its name, in the order of the names. -/
abbrev Fields := List (String × Value)

/-- Stores a value under a name, in place of the one stored before. -/
def Fields.store (name : String) (value : Value) : Fields → Fields
  | [] => [(name, value)]
  | (key, old) :: rest =>
    if key = name then (name, value) :: rest
    else if name < key then (name, value) :: (key, old) :: rest
    else (key, old) :: store name value rest

end ClassBench
