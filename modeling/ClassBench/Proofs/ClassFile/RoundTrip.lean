import ClassBench.Proofs.ClassFile.Spelling
import ClassBench.Proofs.Pool.RoundTrip

/-! Class files come back from their encoding.  Counts are written in 16 bits and lengths of
attributes in 32, cut to the field that holds them, so a class is read back as it was if and as long
as it `Fits` these fields. -/

namespace ClassBench

/-- Every count and every length of a class fits the field that holds it. -/
structure ClassFile.Fits (c : ClassFile) : Prop where
  pool : c.pool.Fits
  interfaces : c.interfaces.length ≤ 65535
  fields : Member.AllFit c.fields
  methods : Member.AllFit c.methods
  attributes : Attribute.AllFit c.attributes

instance (m : Member) : Decidable m.Fits := inferInstanceAs (Decidable (Attribute.AllFit _))

instance (members : List Member) : Decidable (Member.AllFit members) :=
  inferInstanceAs (Decidable (_ ∧ _))

instance (c : ClassFile) : Decidable c.Fits :=
  decidable_of_iff (c.pool.Fits ∧ c.interfaces.length ≤ 65535 ∧ Member.AllFit c.fields ∧
      Member.AllFit c.methods ∧ Attribute.AllFit c.attributes)
    ⟨fun ⟨pool, interfaces, fields, methods, attributes⟩ =>
      ⟨pool, interfaces, fields, methods, attributes⟩,
    fun fits => ⟨fits.pool, fits.interfaces, fits.fields, fits.methods, fits.attributes⟩⟩

namespace ClassFile

theorem Fits.tail {c : ClassFile} (fits : c.Fits) : c.TailFits :=
  ⟨fits.interfaces, fits.fields, fits.methods, fits.attributes⟩

/-- The classes that come back from their encoding. -/
theorem decode_encode_eq_ok {c : ClassFile} : decode c.encode = .ok c ↔
    (∀ e ∈ c.pool.entries, e.Fits) ∧ c.pool.Counted ∧ c.TailFits := by
  rw [decode_eq_ok, encode_eq, ← Pool.runs_count_iff]
  constructor
  · rintro ⟨declared, bytes, same, spelled, runs, fits⟩
    rw [List.append_left_inj, List.append_right_inj] at same
    obtain ⟨-, -, rfl⟩ := (Reader.Reads.u16 _).cancel (Reader.Reads.u16 _) same
    exact ⟨spelled.fits, runs, fits⟩
  · rintro ⟨texts, runs, fits⟩
    exact ⟨c.pool.count, _, rfl, Pool.spells_encode texts, runs, fits⟩

/-- An encoded class is read back, and bytes after it are told apart from it. -/
theorem decode_append (c : ClassFile) (fits : c.Fits) (rest : Bytes) :
    decode (c.encode ++ rest) =
      if rest = [] then .ok c else .error (.trailingBytes rest.length) := by
  rw [encode_eq, decode_around (c.pool.reads_encode fits.pool) fits.tail]

/-- A class whose counts and lengths fit their fields comes back from its encoding, every index,
member and attribute as it was, and no byte is left. -/
theorem decode_encode (c : ClassFile) (fits : c.Fits) : decode c.encode = .ok c := by
  simpa using c.decode_append fits []

/-- A pool with wide entries, a surrogate pair, a zero character and an unused slot at its end, and
attributes within a member. -/
theorem decode_encode_wide :
    let pool := ((do
      let _ ← Pool.classRef "app/😀"
      let _ ← Pool.push (.long (-1))
      let _ ← Pool.utf8 "\x00é"
      Pool.push (.double 0x7ff8000000000001) : StateM Pool UInt16) Pool.empty).2
    let c : ClassFile :=
      { pool, thisClass := 2, superClass := 0, interfaces := [2, 7],
        fields := [{ access := 1, name := 1, descriptor := 5, attributes := [⟨5, [0xCA, 0]⟩] }],
        attributes := [⟨5, []⟩] }
    c.Fits ∧ decode c.encode = .ok c :=
  ⟨by decide +kernel, decode_encode _ (by decide +kernel)⟩

end ClassFile

end ClassBench
