import ClassBench.ClassFile.Codec

/-! An index of a constant pool that is still in bytes.  It keeps for every slot the raw payload
of its entry and where the payload begins, and it never decodes a text.  Indexing goes on to the
declared count or to the first entry that is cut short or of no kind.  The encoded names of classes
can be taken out of the bytes one by one; whether a class has a given name is told without that, by
comparing the two where they stand. -/

namespace ClassBench

/-- An entry as it stands in the bytes: its kind, and its payload with the offset of it. -/
structure RawEntry where
  offset : Nat
  kind : ConstantKind
  payload : Bytes
  deriving DecidableEq, Repr

/-- The entries that could be read, by slot. -/
structure PoolIndex where
  slots : Array (Option RawEntry)
  /-- The offset after the last entry. -/
  endOffset : Nat
  /-- Whether every declared slot was reached. -/
  isComplete : Bool
  deriving Repr

namespace RawEntry

/-- The length of the payload of an entry, before the bytes `rest`. -/
def payloadLength? (kind : ConstantKind) (rest : Bytes) : Option Nat :=
  match kind.payloadLength? with
  | some length => some length
  | none => (rest.u16At? 0).map (2 + ·.toNat)

/-- The entry whose tag is at `offset`, where `bytes` begin. -/
def read? (offset : Nat) : Bytes → Option RawEntry
  | [] => none
  | tag :: rest => do
    let kind ← ConstantKind.ofTag? tag
    let length ← payloadLength? kind rest
    let payload := rest.take length
    if payload.length = length then some ⟨offset + 1, kind, payload⟩ else none

/-- The slots that an entry takes. -/
def extend (slots : Array (Option RawEntry)) (e : RawEntry) : Array (Option RawEntry) :=
  if e.kind.isWide then (slots.push (some e)).push none else slots.push (some e)

theorem size_extend (slots : Array (Option RawEntry)) (e : RawEntry) :
    slots.size < (extend slots e).size := by
  unfold extend
  split <;> simp only [Array.size_push] <;> omega

/-- The encoded text of the entry, if it is one. -/
def text? (e : RawEntry) : Option Bytes := if e.kind = .utf8 then some (e.payload.drop 2) else none

/-- Whether the entry is this encoded text.  The bytes are compared only if the length is the same. -/
def isText (e : RawEntry) (text : Bytes) : Bool :=
  if e.kind ≠ .utf8 then false
  else
    match e.payload.u16At? 0 with
    | none => false
    | some length =>
      if length.toNat ≠ text.length then false else e.payload.slice? 2 text.length == some text

end RawEntry

namespace PoolIndex

/-- The offset of the count in a class file. -/
def countOffset : Nat := 8

/-- Indexes entries from `offset`, where `bytes` begin, until `declared` slots are reached. -/
def fill (declared offset : Nat) (slots : Array (Option RawEntry)) (bytes : Bytes) : PoolIndex :=
  if slots.size < declared then
    match RawEntry.read? offset bytes with
    | some e =>
      fill declared (offset + 1 + e.payload.length) (RawEntry.extend slots e)
        (bytes.drop (1 + e.payload.length))
    | none => ⟨slots, offset, false⟩
  else ⟨slots, offset, true⟩
  termination_by declared - slots.size
  decreasing_by
    have := RawEntry.size_extend slots e
    omega

/-- The index of a pool with a declared count, in a class file. -/
def ofCount (bytes : Bytes) (count : UInt16) : PoolIndex :=
  fill count.toNat (countOffset + 2) #[none] (bytes.drop (countOffset + 2))

/-- As much of the pool of a class file as can be read. -/
def parseLenient (bytes : Bytes) : PoolIndex :=
  match bytes.u16At? countOffset with
  | some count => ofCount bytes count
  | none => ⟨#[none], bytes.length, false⟩

/-- Reads what precedes the entries, the count last. -/
def readHeader : Reader UInt16 := do
  ClassFile.readMagic
  Reader.skip 4
  Reader.u16

/-- Why an index stopped early. -/
def fault (index : PoolIndex) (bytes : Bytes) : DecodeError :=
  match bytes[index.endOffset]? with
  | some tag =>
    if (ConstantKind.ofTag? tag).isNone then
      .unknownTag tag index.slots.size.toUInt16 index.endOffset
    else .unexpectedEnd index.endOffset
  | none => .unexpectedEnd index.endOffset

/-- The index of the whole pool of a class file. -/
def parse (bytes : Bytes) : Except DecodeError PoolIndex := do
  let count ← readHeader.run bytes
  let index := ofCount bytes count
  if index.isComplete then return index else throw (index.fault bytes)

/-- The number of slots. -/
def itemCount (index : PoolIndex) : UInt16 := index.slots.size.toUInt16

/-- The entry at a slot. -/
def entry? (index : PoolIndex) (slot : UInt16) : Option RawEntry := index.slots[slot.toNat]?.join

/-- The offset of the payload at a slot, or zero. -/
def item (index : PoolIndex) (slot : UInt16) : Nat :=
  match index.entry? slot with
  | some e => e.offset
  | none => 0

/-- The tag of the entry at a slot. -/
def tag? (index : PoolIndex) (slot : UInt16) : Option UInt8 := (index.entry? slot).map (·.kind.tag)

/-- The encoded text at a slot. -/
def textBytes? (index : PoolIndex) (slot : UInt16) : Option Bytes :=
  (index.entry? slot).bind RawEntry.text?

/-- The encoded name of the class at a slot. -/
def classNameBytes? (index : PoolIndex) (slot : UInt16) : Option Bytes := do
  let e ← index.entry? slot
  if e.kind = .classRef then
    let name ← e.payload.u16At? 0
    index.textBytes? name
  else none

/-- The slots that can hold entries. -/
def candidates (index : PoolIndex) : List UInt16 :=
  (List.range' 1 (index.itemCount.toNat - 1)).map Nat.toUInt16

/-- The encoded names of all classes in the pool, in order. -/
def classReferences (index : PoolIndex) : List Bytes :=
  index.candidates.filterMap index.classNameBytes?

/-- Whether the first index in an entry leads to this encoded text. -/
def leadsToText (index : PoolIndex) (e : RawEntry) (text : Bytes) : Bool :=
  match e.payload.u16At? 0 with
  | none => false
  | some slot =>
    if slot = 0 then false
    else
      match index.entry? slot with
      | none => false
      | some named => named.isText text

/-- Whether a class in the pool has this encoded name. -/
def references (index : PoolIndex) (name : Bytes) : Bool :=
  index.candidates.any fun slot =>
    match index.entry? slot with
    | none => false
    | some e => e.kind == .classRef && index.leadsToText e name

end PoolIndex

/-- A name to look for in class files, and its encoded form. -/
structure Scanner where
  symbol : String
  encoded : Bytes
  deriving DecidableEq, Repr

namespace Scanner

/-- The scanner for a class name. -/
def new (symbol : String) : Scanner := ⟨symbol, ModifiedUtf8.encode symbol⟩

/-- Whether the readable part of the pool of a class file refers to the class. -/
def isReferencedBy (scanner : Scanner) (bytes : Bytes) : Bool :=
  (PoolIndex.parseLenient bytes).references scanner.encoded

end Scanner

/-- Whether the readable part of the pool of a class file refers to a class. -/
def references (bytes : Bytes) (symbol : String) : Bool := (Scanner.new symbol).isReferencedBy bytes

end ClassBench
