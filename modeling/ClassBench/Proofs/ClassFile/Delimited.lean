import ClassBench.Proofs.ClassFile.Spelling
import ClassBench.Proofs.Except
import ClassBench.Proofs.Reader.Steady

/-! Class files end where their bytes say.  Every part of the format is read steadily, so a run on
the front of the bytes of a class follows the run on all of them until the front is used up.  What
is cut off is therefore missed as such and never taken for a shorter class or another fault, and
bytes added behind a class are told apart from it. -/

namespace ClassBench

/-! ### Entries and pools -/

namespace Constant

theorem steady_text : readText.Steady := by
  refine Reader.Steady.u16.bind fun length => Reader.Steady.position.bind fun start => ?_
  refine (Reader.Steady.bytes length.toNat).bind fun raw => ?_
  split
  · exact Reader.Steady.pure _
  · exact Reader.Steady.throw _

theorem steady_index (make : UInt16 → Constant) : (readIndex make).Steady :=
  Reader.Steady.u16.map make

theorem steady_indices (make : UInt16 → UInt16 → Constant) : (readIndices make).Steady :=
  Reader.Steady.u16.bind fun a => Reader.Steady.u16.map (make a)

theorem steady_payload (kind : ConstantKind) : (readPayload kind).Steady := by
  cases kind with
  | utf8 => exact steady_text.map utf8
  | integer => exact Reader.Steady.i32.map integer
  | float => exact Reader.Steady.u32.map float
  | long => exact Reader.Steady.i64.map long
  | double => exact Reader.Steady.u64.map double
  | methodHandle =>
    exact Reader.Steady.u8.bind fun mode => Reader.Steady.u16.map (methodHandle mode)
  | classRef | string | methodType | moduleRef | packageRef => exact steady_index _
  | fieldRef | methodRef | interfaceMethodRef | nameAndType | dynamic | invokeDynamic =>
    exact steady_indices _

theorem steady_read (index : UInt16) : (read index).Steady := by
  refine Reader.Steady.position.bind fun offset => Reader.Steady.u8.bind fun tag => ?_
  split
  · exact steady_payload _
  · exact Reader.Steady.throw _

end Constant

namespace Pool

/-- The numbers that bound the entries differ between the front and the whole, but each lasts as
long as there are bytes. -/
theorem agree_entries {declared : UInt16} {fuel fuel' : Nat} {rest more : Bytes}
    (enough : rest.length < fuel) (enough' : (rest ++ more).length < fuel') (pool : Pool)
    (position : Nat) :
    Reader.Agree more (position + rest.length) (readEntries declared fuel pool ⟨rest, position⟩)
      (readEntries declared fuel' pool ⟨rest ++ more, position⟩) := by
  induction fuel generalizing fuel' rest pool position with
  | zero => exact absurd enough (Nat.not_lt_zero _)
  | succ fuel ih =>
    cases fuel' with
    | zero => exact absurd enough' (Nat.not_lt_zero _)
    | succ fuel' =>
      rw [readEntries, readEntries]
      split
      · refine (Constant.steady_read pool.count rest position more).bind ?_
        intro c rest' position' run kept
        obtain ⟨first, split, -, spelled⟩ := Constant.takes_spelling pool.count c _ run
        have shorter : rest'.length < rest.length := by
          have := spelled.length_pos
          rw [show rest = first ++ rest' from split, List.length_append]
          omega
        rw [List.length_append] at enough'
        rw [← kept]
        exact ih (by omega) (by rw [List.length_append]; omega) _ position'
      · exact .goesOn rfl

theorem steady_read : read.Steady := by
  refine Reader.Steady.u16.bind fun declared rest position more => ?_
  exact agree_entries (Nat.lt_succ_self _) (Nat.lt_succ_self _) empty position

end Pool

/-! ### Members and classes -/

theorem Attribute.steady_read : read.Steady :=
  Reader.Steady.u16.bind fun name => Reader.Steady.measured.map (Attribute.mk name)

theorem Member.steady_read : read.Steady := by
  refine Reader.Steady.u16.bind fun access => Reader.Steady.u16.bind fun name => ?_
  refine Reader.Steady.u16.bind fun descriptor => ?_
  exact Attribute.steady_read.counted.map (Member.mk access name descriptor)

namespace ClassFile

/-- Reads a class and leaves what follows it. -/
def readOpen : Reader ClassFile := do
  readMagic
  let minor ← Reader.u16
  let major ← Reader.u16
  let pool ← Pool.read
  let access ← Reader.u16
  let thisClass ← Reader.u16
  let superClass ← Reader.u16
  let interfaces ← Reader.counted Reader.u16
  let fields ← Reader.counted Member.read
  let methods ← Reader.counted Member.read
  let attributes ← Reader.counted Attribute.read
  return {
    minor, major, pool, access, thisClass, superClass, interfaces, fields, methods, attributes }

theorem read_eq : read = (do let c ← readOpen; readEnd; return c) := by
  simp only [read, readOpen, bind_assoc, pure_bind]

theorem steady_magic : readMagic.Steady := by
  refine Reader.Steady.u32.bind fun found => ?_
  split
  · exact Reader.Steady.throw _
  · exact Reader.Steady.pure _

theorem steady_readOpen : readOpen.Steady := by
  refine steady_magic.bind fun _ => ?_
  refine Reader.Steady.u16.bind fun minor => Reader.Steady.u16.bind fun major => ?_
  refine Pool.steady_read.bind fun pool => Reader.Steady.u16.bind fun access => ?_
  refine Reader.Steady.u16.bind fun thisClass => Reader.Steady.u16.bind fun superClass => ?_
  refine Reader.Steady.u16.counted.bind fun interfaces => ?_
  refine Member.steady_read.counted.bind fun fields => ?_
  refine Member.steady_read.counted.bind fun methods => ?_
  exact Attribute.steady_read.counted.bind fun attributes => Reader.Steady.pure _

variable {b : Bytes} {c : ClassFile}

/-- A class is accepted where no bytes follow it. -/
theorem decode_eq (b : Bytes) : decode b =
    match readOpen ⟨b, 0⟩ with
    | .error error _ => .error error
    | .ok c after =>
      if after.rest = [] then .ok c else .error (.trailingBytes after.rest.length) := by
  rw [decode, Reader.run, read_eq]
  simp only [bind, EStateM.bind]
  cases readOpen ⟨b, 0⟩ with
  | error => rfl
  | ok c after =>
    obtain ⟨rest, position⟩ := after
    cases rest <;> rfl

theorem readOpen_of_decode (decoded : decode b = .ok c) :
    ∃ position, readOpen ⟨b, 0⟩ = .ok c ⟨[], position⟩ := by
  rw [decode_eq] at decoded
  cases run : readOpen ⟨b, 0⟩ with
  | error => simp [run] at decoded
  | ok found after =>
    obtain ⟨rest, position⟩ := after
    simp only [run] at decoded
    split at decoded
    · next ended =>
      obtain rfl := Except.ok.inj decoded
      exact ⟨position, by rw [← ended]⟩
    · contradiction

/-- Every proper front of the bytes of a class ends too early, at a place within it, and any bytes
behind a class are reported with their number. -/
theorem decode_is_self_delimiting (b : Bytes) (c : ClassFile) (decoded : decode b = .ok c) :
    (∀ front, front <+: b → front ≠ b →
      ∃ offset ≤ front.length, decode front = .error (.unexpectedEnd offset)) ∧
    ∀ rest, rest ≠ [] → decode (b ++ rest) = .error (.trailingBytes rest.length) := by
  obtain ⟨position, run⟩ := readOpen_of_decode decoded
  constructor
  · rintro front ⟨more, rfl⟩ proper
    have agree := steady_readOpen front 0 more
    rw [run, Nat.zero_add] at agree
    rw [decode_eq]
    generalize readOpen ⟨front, 0⟩ = short at agree
    generalize left : (⟨[], position⟩ : Cursor) = after at agree
    cases agree with
    | ends within => exact ⟨_, within, rfl⟩
    | goesOn kept =>
      -- Both runs would have read the class, and the front would be all of the bytes.
      have nothing : more = [] := (List.append_eq_nil_iff.mp (Cursor.mk.inj left).1.symm).2
      exact absurd (by rw [nothing, List.append_nil]) proper
  · intro rest some
    have agree := steady_readOpen b 0 rest
    rw [run] at agree
    rw [decode_eq]
    generalize readOpen ⟨b ++ rest, 0⟩ = long at agree
    cases agree with
    | goesOn kept => simp [some]

/-- A class cut within its last count and one with two bytes behind it. -/
theorem decode_is_self_delimiting_cut :
    let front : Bytes := [0xCA, 0xFE, 0xBA, 0xBE, 0, 0, 0, 52, 0, 3, 1, 0, 1, 65, 7, 0, 1,
      0, 33, 0, 2, 0, 0, 0, 0, 0, 0, 0, 0, 0]
    let b := front ++ [0]
    let c : ClassFile :=
      { pool := (Pool.classRef "A" Pool.empty).2, thisClass := 2, superClass := 0 }
    decode b = .ok c ∧ front <+: b ∧ front ≠ b ∧
      (∃ offset ≤ front.length, decode front = .error (.unexpectedEnd offset)) ∧
      decode (b ++ [0xCA, 0xFE]) = .error (.trailingBytes 2) := by
  intro front b c
  have decoded : decode b = .ok c := by decide +kernel
  have proper : front ≠ b := by decide +kernel
  obtain ⟨cut, added⟩ := decode_is_self_delimiting b c decoded
  exact ⟨decoded, List.prefix_append front [0], proper,
    cut front (List.prefix_append front [0]) proper, added [0xCA, 0xFE] (by decide)⟩

end ClassFile

end ClassBench
