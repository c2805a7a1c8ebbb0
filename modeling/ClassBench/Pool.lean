import ClassBench.Constant

/-! Constant pools.  A pool is a row of slots that grows at its end: slot 0 is empty, every entry
takes one slot, and a wide entry leaves the slot after it empty.  The field `laidOut` keeps this
layout.  Indices are 16-bit words; a pool may have more slots than that, and then its count and
the indices of its entries are taken modulo 65536.

Interning an entry returns the index of the first equal one and adds the entry only if there is
none. -/

namespace ClassBench

/-- A constant pool. -/
structure Pool where
  slots : Array (Option Constant) := #[none]
  laidOut : ∃ entries : List Constant, slots.toList = none :: entries.flatMap Constant.slots := by
    exact ⟨[], rfl⟩
  deriving DecidableEq

/-- The owner, name and descriptor that a member reference stands for. -/
structure MemberRef where
  owner : String
  name : String
  descriptor : String
  deriving DecidableEq, Repr

namespace Pool

/-- The pool without entries. -/
def empty : Pool := {}

instance : Inhabited Pool := ⟨empty⟩

/-- One more than the highest index. -/
def count (pool : Pool) : UInt16 := pool.slots.size.toUInt16

/-- The entry at an index. -/
def get? (pool : Pool) (index : UInt16) : Option Constant := pool.slots[index.toNat]?.join

/-- The entries in order of their indices. -/
def entries (pool : Pool) : List Constant := pool.slots.toList.filterMap id

/-- The entries in order, each with its index. -/
def indexed (pool : Pool) : List (UInt16 × Constant) :=
  pool.slots.toList.zipIdx.filterMap fun (slot, i) => slot.map (i.toUInt16, ·)

/-- The slots after an entry is added. -/
def extend (slots : Array (Option Constant)) (c : Constant) : Array (Option Constant) :=
  if c.isWide then (slots.push (some c)).push none else slots.push (some c)

theorem toList_extend (slots : Array (Option Constant)) (c : Constant) :
    (extend slots c).toList = slots.toList ++ c.slots := by
  unfold extend Constant.slots
  split <;> simp

/-- Adds an entry at the end, equal entries notwithstanding, and returns its index. -/
def push (c : Constant) : StateM Pool UInt16 := fun pool =>
  let index := pool.count
  (index,
    { slots := extend pool.slots c
      laidOut := by
        obtain ⟨entries, h⟩ := pool.laidOut
        exact ⟨entries ++ [c], by simp [toList_extend, h]⟩ })

/-- The index of the first entry equal to `c`. -/
def indexOf? (pool : Pool) (c : Constant) : Option UInt16 :=
  (pool.slots.findIdx? (· == some c)).map Nat.toUInt16

/-- The index of an entry, which is added if there is no equal one. -/
def intern (c : Constant) : StateM Pool UInt16 := do
  match (← get).indexOf? c with
  | some index => return index
  | none => push c

/-- Interns a text. -/
def utf8 (text : String) : StateM Pool UInt16 := intern (.utf8 text)

/-- Interns the class with this internal name, and the name. -/
def classRef (name : String) : StateM Pool UInt16 := do intern (.classRef (← utf8 name))

/-- Interns a string literal. -/
def string (text : String) : StateM Pool UInt16 := do intern (.string (← utf8 text))

/-- Interns an integer. -/
def integer (value : Int32) : StateM Pool UInt16 := intern (.integer value)

/-- Interns a name with a descriptor. -/
def nameAndType (name descriptor : String) : StateM Pool UInt16 := do
  let n ← utf8 name
  let d ← utf8 descriptor
  intern (.nameAndType n d)

/-- Interns the parts of a member reference, then the entry that `make` builds of them. -/
def memberWith (make : UInt16 → UInt16 → Constant) (member : MemberRef) : StateM Pool UInt16 := do
  let owner ← classRef member.owner
  let signature ← nameAndType member.name member.descriptor
  intern (make owner signature)

/-- Interns a reference to a field. -/
def fieldRef (member : MemberRef) : StateM Pool UInt16 := memberWith .fieldRef member

/-- Interns a reference to a method of a class. -/
def methodRef (member : MemberRef) : StateM Pool UInt16 := memberWith .methodRef member

/-- Interns a reference to a method of an interface. -/
def interfaceMethodRef (member : MemberRef) : StateM Pool UInt16 :=
  memberWith .interfaceMethodRef member

/-- The text at an index. -/
def utf8? (pool : Pool) (index : UInt16) : Option String :=
  match pool.get? index with
  | some (.utf8 text) => some text
  | _ => none

/-- The name of the class at an index. -/
def className? (pool : Pool) (index : UInt16) : Option String :=
  match pool.get? index with
  | some (.classRef name) => pool.utf8? name
  | _ => none

/-- The name and the descriptor at an index. -/
def nameAndType? (pool : Pool) (index : UInt16) : Option (String × String) :=
  match pool.get? index with
  | some (.nameAndType name descriptor) => do
    return (← pool.utf8? name, ← pool.utf8? descriptor)
  | _ => none

/-- The field or method that the entry at an index refers to. -/
def member? (pool : Pool) (index : UInt16) : Option MemberRef :=
  match pool.get? index with
  | some (.fieldRef owner signature) | some (.methodRef owner signature)
  | some (.interfaceMethodRef owner signature) => do
    let owner ← pool.className? owner
    let (name, descriptor) ← pool.nameAndType? signature
    return ⟨owner, name, descriptor⟩
  | _ => none

end Pool

end ClassBench
