import ClassBench.Proofs.Pool.Spelling

/-! Which bytes are read as which class file.  What stands before and after the pool has one
spelling, so a class file is read from its head, any spelling of its pool behind any count that runs
through the entries, and its tail.  Counts are written in 16 bits and lengths of attributes in 32,
cut to the field that holds them, so the tail is read back only as long as its parts fit. -/

namespace ClassBench

variable {cursor : Cursor}

/-! ### Attributes and members -/

/-- The length of the payload fits its field. -/
def Attribute.Fits (a : Attribute) : Prop := a.info.length < UInt32.size

/-- The number of attributes and the length of each fit their fields. -/
def Attribute.AllFit (attributes : List Attribute) : Prop :=
  attributes.length ≤ 65535 ∧ ∀ a ∈ attributes, a.Fits

/-- The attributes of a member fit their fields. -/
def Member.Fits (m : Member) : Prop := Attribute.AllFit m.attributes

/-- The number of members and the attributes of each fit their fields. -/
def Member.AllFit (members : List Member) : Prop :=
  members.length ≤ 65535 ∧ ∀ m ∈ members, m.Fits

instance Attribute.decidableFits (a : Attribute) : Decidable a.Fits := inferInstanceAs (Decidable (_ < _))

instance Attribute.decidableAllFit (attributes : List Attribute) : Decidable (AllFit attributes) :=
  inferInstanceAs (Decidable (_ ∧ _))

theorem Attribute.reads_encode (a : Attribute) (fits : a.Fits) : read.Reads a.encode a :=
  (Reader.Reads.u16 a.name).bind ((Reader.Reads.measured a.info fits).map (Attribute.mk a.name))

theorem Attribute.reads_all {attributes : List Attribute} (fit : AllFit attributes) :
    (Reader.counted read).Reads (Bytes.counted encode attributes) attributes :=
  Reader.Reads.counted fit.1 fun a ha => a.reads_encode (fit.2 a ha)

theorem Attribute.takes_encode (cursor : Cursor) :
    Reader.Takes read cursor fun taken a => taken = a.encode ∧ a.Fits := by
  refine Reader.Takes.u16.bind fun first name _ _ hFirst => ?_
  refine Reader.Takes.measured.map (Attribute.mk name) fun second info ⟨hSecond, short⟩ => ?_
  exact ⟨by rw [hFirst, hSecond]; rfl, short⟩

theorem Attribute.takes_all : Reader.Takes (Reader.counted read) cursor fun taken attributes =>
    taken = Bytes.counted encode attributes ∧ AllFit attributes :=
  Reader.Takes.counted takes_encode

theorem Member.reads_encode (m : Member) (fits : m.Fits) : read.Reads m.encode m := by
  rw [encode, List.append_assoc, List.append_assoc]
  refine (Reader.Reads.u16 m.access).bind ?_
  refine (Reader.Reads.u16 m.name).bind ?_
  refine (Reader.Reads.u16 m.descriptor).bind ?_
  exact (Attribute.reads_all fits).map (Member.mk m.access m.name m.descriptor)

theorem Member.reads_all {members : List Member} (fit : AllFit members) :
    (Reader.counted read).Reads (Bytes.counted encode members) members :=
  Reader.Reads.counted fit.1 fun m hm => m.reads_encode (fit.2 m hm)

theorem Member.takes_encode (cursor : Cursor) :
    Reader.Takes read cursor fun taken m => taken = m.encode ∧ m.Fits := by
  refine Reader.Takes.u16.bind fun _ access _ _ hAccess => ?_
  refine Reader.Takes.u16.bind fun _ name _ _ hName => ?_
  refine Reader.Takes.u16.bind fun _ descriptor _ _ hDescriptor => ?_
  refine Attribute.takes_all.map (Member.mk access name descriptor) ?_
  intro _ attributes ⟨hLast, fit⟩
  refine ⟨?_, fit⟩
  rw [hAccess, hName, hDescriptor, hLast, encode, List.append_assoc, List.append_assoc]

theorem Member.takes_all : Reader.Takes (Reader.counted read) cursor fun taken members =>
    taken = Bytes.counted encode members ∧ AllFit members :=
  Reader.Takes.counted takes_encode

/-! ### Class files -/

namespace ClassFile

/-- The bytes of a class before its pool. -/
def head (c : ClassFile) : Bytes :=
  Bytes.ofUInt32 magic ++ Bytes.ofUInt16 c.minor ++ Bytes.ofUInt16 c.major

/-- The bytes of a class after its pool. -/
def tail (c : ClassFile) : Bytes :=
  Bytes.ofUInt16 c.access ++ Bytes.ofUInt16 c.thisClass ++ Bytes.ofUInt16 c.superClass ++
    Bytes.counted Bytes.ofUInt16 c.interfaces ++ Bytes.counted Member.encode c.fields ++
    Bytes.counted Member.encode c.methods ++ Bytes.counted Attribute.encode c.attributes

/-- Every count and every length after the pool fits the field that holds it. -/
structure TailFits (c : ClassFile) : Prop where
  interfaces : c.interfaces.length ≤ 65535
  fields : Member.AllFit c.fields
  methods : Member.AllFit c.methods
  attributes : Attribute.AllFit c.attributes

variable {c : ClassFile} {b : Bytes}

theorem encode_eq (c : ClassFile) : c.encode = c.head ++ c.pool.encode ++ c.tail := by
  simp only [encode, head, tail, List.append_assoc]

theorem reads_magic : readMagic.Reads (Bytes.ofUInt32 magic) () :=
  (Reader.Reads.u32 magic).bind_nil (Reader.Reads.pure ())

/-- After any spelling of the pool and the tail the reader expects the end. -/
theorem read_around {pool : Bytes} (reads : Pool.read.Reads pool c.pool) (fits : c.TailFits)
    (rest : Bytes) (position : Nat) :
    read ⟨c.head ++ pool ++ c.tail ++ rest, position⟩ =
      (do readEnd; return c) ⟨rest, position + (c.head ++ pool ++ c.tail).length⟩ := by
  have interfaces : (Reader.counted Reader.u16).Reads (Bytes.counted Bytes.ofUInt16 c.interfaces)
      c.interfaces :=
    Reader.Reads.counted fits.interfaces fun index _ => Reader.Reads.u16 index
  have fields := Member.reads_all fits.fields
  have methods := Member.reads_all fits.methods
  have attributes := Attribute.reads_all fits.attributes
  simp only [head, tail, List.append_assoc, List.length_append, ← Nat.add_assoc]
  rw [read, reads_magic.bind_apply, (Reader.Reads.u16 c.minor).bind_apply,
    (Reader.Reads.u16 c.major).bind_apply, reads.bind_apply,
    (Reader.Reads.u16 c.access).bind_apply, (Reader.Reads.u16 c.thisClass).bind_apply,
    (Reader.Reads.u16 c.superClass).bind_apply, interfaces.bind_apply, fields.bind_apply,
    methods.bind_apply, attributes.bind_apply]

theorem takes_magic :
    Reader.Takes readMagic cursor fun taken _ => taken = Bytes.ofUInt32 magic := by
  refine Reader.Takes.u32.bind fun first found _ _ hFirst => ?_
  split
  · exact Reader.Takes.throw
  · next known =>
    refine Reader.Takes.pure ?_
    rw [List.append_nil, hFirst, Decidable.not_not.mp known]

theorem takes_end : Reader.Takes readEnd cursor fun taken _ => taken = [] ∧ cursor.rest = [] := by
  refine Reader.Takes.get ?_
  split
  · exact Reader.Takes.throw
  · next ended => exact Reader.Takes.pure ⟨rfl, Decidable.not_not.mp ended⟩

/-- Whatever is read as a class file is its head, a spelling of its pool and its tail. -/
theorem takes_read : Reader.Takes read cursor fun taken c => ∃ declared bytes,
    taken = c.head ++ (Bytes.ofUInt16 declared ++ bytes) ++ c.tail ∧
      Pool.Spells bytes c.pool.entries ∧ Pool.Runs (Pool.GoesOn declared) 1 c.pool.entries ∧
      c.TailFits := by
  have indices : ∀ cursor, Reader.Takes Reader.u16 cursor fun taken a =>
      taken = Bytes.ofUInt16 a ∧ True :=
    fun _ => Reader.Takes.u16.mono fun _ _ spelled => ⟨spelled, trivial⟩
  refine takes_magic.bind fun _ _ _ _ hMagic => ?_
  refine Reader.Takes.u16.bind fun _ minor _ _ hMinor => ?_
  refine Reader.Takes.u16.bind fun _ major _ _ hMajor => ?_
  refine Pool.takes_pool.bind fun _ pool _ _ ⟨declared, bytes, hPool, spelled, runs⟩ => ?_
  refine Reader.Takes.u16.bind fun _ access _ _ hAccess => ?_
  refine Reader.Takes.u16.bind fun _ thisClass _ _ hThis => ?_
  refine Reader.Takes.u16.bind fun _ superClass _ _ hSuper => ?_
  refine (Reader.Takes.counted indices).bind fun _ interfaces _ _ ⟨hInterfaces, few, _⟩ => ?_
  refine Member.takes_all.bind fun _ fields _ _ ⟨hFields, fieldsFit⟩ => ?_
  refine Member.takes_all.bind fun _ methods _ _ ⟨hMethods, methodsFit⟩ => ?_
  refine Attribute.takes_all.bind fun _ attributes _ _ ⟨hAttributes, attributesFit⟩ => ?_
  refine takes_end.bind fun _ _ _ _ ⟨hEnd, _⟩ => Reader.Takes.pure ?_
  refine ⟨declared, bytes, ?_, spelled, runs, few, fieldsFit, methodsFit, attributesFit⟩
  simp only [head, tail, hMagic, hMinor, hMajor, hPool, hAccess, hThis, hSuper, hInterfaces, hFields,
    hMethods, hAttributes, hEnd, List.append_assoc, List.append_nil]

/-- Bytes after the tail are told apart from a class. -/
theorem decode_around {pool : Bytes} (reads : Pool.read.Reads pool c.pool) (fits : c.TailFits)
    (rest : Bytes) : decode (c.head ++ pool ++ c.tail ++ rest) =
      if rest = [] then .ok c else .error (.trailingBytes rest.length) := by
  rw [decode, Reader.run, read_around reads fits]
  cases rest <;> rfl

/-- The bytes that are read as a class file. -/
theorem decode_eq_ok : decode b = .ok c ↔ ∃ declared bytes,
    b = c.head ++ (Bytes.ofUInt16 declared ++ bytes) ++ c.tail ∧
      Pool.Spells bytes c.pool.entries ∧ Pool.Runs (Pool.GoesOn declared) 1 c.pool.entries ∧
      c.TailFits := by
  have around {declared : UInt16} {bytes : Bytes} (spelled : Pool.Spells bytes c.pool.entries)
      (runs : Pool.Runs (Pool.GoesOn declared) 1 c.pool.entries) (fits : c.TailFits)
      (rest : Bytes) :=
    decode_around (Pool.pushAll_entries c.pool ▸ spelled.reads_pool runs) fits rest
  constructor
  · intro decoded
    obtain ⟨after, run⟩ := Reader.run_eq_ok.mp decoded
    obtain ⟨taken, split, -, declared, bytes, rfl, spelled, runs, fits⟩ := takes_read c after run
    -- What is left after the tail is nothing, or else the class would not have been accepted.
    have whole : after.rest = [] := by
      have all := around spelled runs fits after.rest
      rw [← show b = _ from split, decoded] at all
      split at all
      · assumption
      · contradiction
    rw [whole, List.append_nil] at split
    exact ⟨declared, bytes, split, spelled, runs, fits⟩
  · rintro ⟨declared, bytes, rfl, spelled, runs, fits⟩
    simpa using around spelled runs fits []

end ClassFile

end ClassBench
