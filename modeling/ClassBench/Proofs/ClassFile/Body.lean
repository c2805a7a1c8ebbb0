import ClassBench.Proofs.ClassFile.Spelling

/-! Bodies and their bytes.  A body takes all of its bytes in a row, every part behind its count or
length, so its encoding says where it ends: a body is read from the bytes that begin with its
encoding, whatever follows, and no encoding begins another one.  Counts and lengths are cut to their
fields, so this holds of the bodies that fit them. -/

namespace ClassBench

variable {cursor : Cursor}

/-! ### The parts of a body -/

theorem Handler.reads_encode (h : Handler) : read.Reads h.encode h := by
  rw [encode, List.append_assoc, List.append_assoc]
  refine (Reader.Reads.u16 h.first).bind ?_
  refine (Reader.Reads.u16 h.last).bind ?_
  refine (Reader.Reads.u16 h.target).bind ?_
  exact (Reader.Reads.u16 h.caught).map (Handler.mk h.first h.last h.target)

theorem Handler.takes_encode (cursor : Cursor) :
    Reader.Takes read cursor fun taken h => taken = h.encode ∧ True := by
  refine Reader.Takes.u16.bind fun _ first _ _ hFirst => ?_
  refine Reader.Takes.u16.bind fun _ last _ _ hLast => ?_
  refine Reader.Takes.u16.bind fun _ target _ _ hTarget => ?_
  refine Reader.Takes.u16.map (Handler.mk first last target) fun _ caught hCaught => ?_
  refine ⟨?_, trivial⟩
  rw [hFirst, hLast, hTarget, hCaught, encode, List.append_assoc, List.append_assoc]

/-- Every count and every length of a body fits the field that holds it. -/
structure Code.Fits (c : Code) : Prop where
  code : c.code.length < UInt32.size
  handlers : c.handlers.length ≤ 65535
  attributes : Attribute.AllFit c.attributes

instance Code.decidableFits (c : Code) : Decidable c.Fits :=
  decidable_of_iff (c.code.length < UInt32.size ∧ c.handlers.length ≤ 65535 ∧
      Attribute.AllFit c.attributes)
    ⟨fun ⟨code, handlers, attributes⟩ => ⟨code, handlers, attributes⟩,
    fun fits => ⟨fits.code, fits.handlers, fits.attributes⟩⟩

namespace Code

variable {bytes : Bytes} {c c' : Code}

theorem reads_encode (c : Code) (fits : c.Fits) : read.Reads c.encode c := by
  rw [encode, List.append_assoc, List.append_assoc, List.append_assoc]
  refine (Reader.Reads.u16 c.maxStack).bind ?_
  refine (Reader.Reads.u16 c.maxLocals).bind ?_
  refine (Reader.Reads.measured c.code fits.code).bind ?_
  refine (Reader.Reads.counted fits.handlers fun h _ => h.reads_encode).bind ?_
  exact (Attribute.reads_all fits.attributes).map
    (Code.mk c.maxStack c.maxLocals c.code c.handlers)

theorem takes_encode : Reader.Takes read cursor fun taken c => taken = c.encode ∧ c.Fits := by
  refine Reader.Takes.u16.bind fun _ maxStack _ _ hStack => ?_
  refine Reader.Takes.u16.bind fun _ maxLocals _ _ hLocals => ?_
  refine Reader.Takes.measured.bind fun _ code _ _ ⟨hCode, short⟩ => ?_
  refine (Reader.Takes.counted Handler.takes_encode).bind
    fun _ handlers _ _ ⟨hHandlers, few, _⟩ => ?_
  refine Attribute.takes_all.map (Code.mk maxStack maxLocals code handlers) ?_
  intro _ attributes ⟨hAttributes, fit⟩
  refine ⟨?_, short, few, fit⟩
  rw [hStack, hLocals, hCode, hHandlers, hAttributes, encode, List.append_assoc, List.append_assoc,
    List.append_assoc]

/-! ### Where a body ends -/

/-- The bytes that are read as a body. -/
theorem decode_eq_ok : decode bytes = .ok c ↔ c.Fits ∧ c.encode <+: bytes := by
  rw [decode, Reader.run_eq_ok]
  constructor
  · rintro ⟨after, run⟩
    obtain ⟨taken, split, -, rfl, fits⟩ := takes_encode c after run
    exact ⟨fits, after.rest, split.symm⟩
  · rintro ⟨fits, rest, rfl⟩
    exact ⟨_, c.reads_encode fits rest 0⟩

theorem decodes_encode (fits : c.Fits) : decode c.encode = .ok c :=
  decode_eq_ok.mpr ⟨fits, List.prefix_refl _⟩

/-- What is read from the bytes of a body is that body, so none begins with another one. -/
theorem eq_of_begins (fits : c.Fits) (fits' : c'.Fits) (begins : c.encode <+: c'.encode) :
    c = c' := by
  have first : decode c'.encode = .ok c := decode_eq_ok.mpr ⟨fits, begins⟩
  rw [decodes_encode fits'] at first
  exact (Except.ok.inj first).symm

/-- A body is read from the bytes that begin with its encoding, as long as its counts and lengths
fit their fields, and from no others.  So it comes back from its encoding, and of two bodies neither
encoding begins with the other one. -/
theorem bodies_form_prefix_code (bytes : Bytes) (c : Code) :
    (decode bytes = .ok c ↔ c.Fits ∧ c.encode <+: bytes) ∧
    (c.Fits → decode c.encode = .ok c) ∧
    ∀ c' : Code, c.Fits → c'.Fits → c ≠ c' →
      ¬c.encode <+: c'.encode ∧ ¬c'.encode <+: c.encode := by
  refine ⟨decode_eq_ok, decodes_encode, fun c' fits fits' other => ⟨?_, ?_⟩⟩
  · exact fun begins => other (eq_of_begins fits fits' begins)
  · exact fun begins => other (eq_of_begins fits' fits begins).symm

/-- A body with a handler and an attribute that is a body itself, before two other bytes; and that
inner body beside it. -/
theorem bodies_form_prefix_code_nested :
    let inner : Code := { maxStack := 0, maxLocals := 0, code := [0xB1] }
    let outer : Code :=
      { maxStack := 2, maxLocals := 1, code := [0x2A, 0xBF], handlers := [⟨0, 1, 1, 0⟩],
        attributes := [⟨5, inner.encode⟩, ⟨6, []⟩] }
    outer.Fits ∧ inner.Fits ∧ outer ≠ inner ∧
      decode (outer.encode ++ [0xCA, 0xFE]) = .ok outer ∧ decode outer.encode = .ok outer ∧
      ¬outer.encode <+: inner.encode ∧ ¬inner.encode <+: outer.encode := by
  intro inner outer
  have fits : outer.Fits := by decide +kernel
  have fitsInner : inner.Fits := by decide +kernel
  have other : outer ≠ inner := by decide +kernel
  obtain ⟨reads, back, apart⟩ := bodies_form_prefix_code (outer.encode ++ [0xCA, 0xFE]) outer
  exact ⟨fits, fitsInner, other, reads.mpr ⟨fits, List.prefix_append _ _⟩, back fits,
    apart inner fits fitsInner other⟩

end Code

end ClassBench
