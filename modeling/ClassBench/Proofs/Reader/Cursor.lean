import ClassBench.Proofs.Bytes
import ClassBench.Proofs.Reader.Strides
import ClassBench.Reader.Script

/-! The law of the cursor.  Over a buffer a step passes over exactly its bytes and returns what they
spell, or fails, names the place where it began and stays there.  One step breaks the law: a signed
64-bit number is read in two halves, so one that ends in its second half leaves the first behind. -/

namespace ClassBench

/-- The cursor is in the buffer, with the part of the buffer behind it still to come. -/
structure Cursor.Over (cursor : Cursor) (buffer : Bytes) : Prop where
  within : cursor.position ≤ buffer.length
  rest_eq : cursor.rest = buffer.drop cursor.position

namespace Cursor.Over

variable {cursor : Cursor} {buffer : Bytes} {count : Nat}

theorem start (buffer : Bytes) : Over ⟨buffer, 0⟩ buffer := ⟨Nat.zero_le _, rfl⟩

theorem length_rest (h : Over cursor buffer) :
    cursor.rest.length = buffer.length - cursor.position := by
  rw [h.rest_eq, List.length_drop]

theorem advance (h : Over cursor buffer) (enough : count ≤ cursor.rest.length) :
    (cursor.advance count).Over buffer := by
  have within := h.within
  have left := h.length_rest
  constructor
  · show cursor.position + count ≤ buffer.length
    omega
  · show cursor.rest.drop count = buffer.drop (cursor.position + count)
    rw [h.rest_eq, List.drop_drop]

end Cursor.Over

namespace ReadStep

variable {start : Cursor} {buffer : Bytes} {step : ReadStep}

@[simp] theorem step_run (step : ReadStep) (start : Cursor) : (step.run start).step = step := by
  unfold run
  split <;> rfl

@[simp] theorem start_run (step : ReadStep) (start : Cursor) :
    (step.run start).start = start := by
  unfold run
  split <;> rfl

/-- The number of bytes that a step reads. -/
def width : ReadStep → Nat
  | u8 => 1
  | u16 => 2
  | u32 | i32 => 4
  | i64 => 8
  | bytes count | skip count => count

/-- The strides in which a step reads its bytes. -/
def strides : ReadStep → List Nat
  | i64 => [4, 4]
  | step => [step.width]

/-- The value that a step reads off its bytes: numbers are big-endian, signed ones in two's
complement. -/
inductive Spells : ReadStep → Bytes → ReadValue → Prop
  | u8 {taken : Bytes} {byte : UInt8} (value : byte.toNat = taken.bigEndian) :
    Spells .u8 taken (.u8 byte)
  | u16 {taken : Bytes} {word : UInt16} (value : word.toNat = taken.bigEndian) :
    Spells .u16 taken (.u16 word)
  | u32 {taken : Bytes} {word : UInt32} (value : word.toNat = taken.bigEndian) :
    Spells .u32 taken (.u32 word)
  | i32 {taken : Bytes} {number : Int32} (value : number.toInt = taken.bigEndianSigned) :
    Spells .i32 taken (.i32 number)
  | i64 {taken : Bytes} {number : Int64} (value : number.toInt = taken.bigEndianSigned) :
    Spells .i64 taken (.i64 number)
  | bytes {taken : Bytes} {count : Nat} : Spells (.bytes count) taken (.bytes taken)
  | skip {taken : Bytes} {count : Nat} : Spells (.skip count) taken .skipped

theorem sum_strides (step : ReadStep) : step.strides.sum = step.width := by
  cases step <;> simp [strides, width]

theorem strides_reader (step : ReadStep) : step.reader.Strides step.strides := by
  cases step with
  | u8 => exact Reader.Strides.u8.map _
  | u16 => exact Reader.Strides.u16.map _
  | u32 => exact Reader.Strides.u32.map _
  | i32 => exact Reader.Strides.i32.map _
  | i64 => exact Reader.Strides.i64.map _
  | bytes count => exact (Reader.Strides.bytes count).map _
  | skip count => exact (Reader.Strides.skip count).map _

theorem takes_reader (step : ReadStep) (cursor : Cursor) :
    step.reader.Takes cursor step.Spells := by
  cases step with
  | u8 =>
    apply Reader.Takes.u8.map
    rintro taken byte rfl
    exact .u8 (by simp [Bytes.bigEndian])
  | u16 =>
    apply Reader.Takes.u16.map
    rintro taken word rfl
    exact .u16 (Bytes.bigEndian_ofUInt16 word).symm
  | u32 =>
    apply Reader.Takes.u32.map
    rintro taken word rfl
    exact .u32 (Bytes.bigEndian_ofUInt32 word).symm
  | i32 =>
    apply Reader.Takes.i32.map
    rintro taken number rfl
    exact .i32 (Bytes.bigEndianSigned_ofInt32 number).symm
  | i64 =>
    apply Reader.Takes.i64.map
    rintro taken number rfl
    exact .i64 (Bytes.bigEndianSigned_ofInt64 number).symm
  | bytes count =>
    apply (Reader.Takes.bytes count).map
    rintro taken _ ⟨rfl, -⟩
    exact .bytes
  | skip count =>
    apply (Reader.Takes.skip count).map
    intro taken _ _
    exact .skip

theorem run_of_width_le (step : ReadStep) (start : Cursor)
    (enough : step.width ≤ start.rest.length) :
    ∃ value, step.run start = ⟨step, start, .ok value, start.advance step.width⟩ ∧
      step.Spells (start.rest.take step.width) value := by
  rw [← step.sum_strides] at enough
  obtain ⟨value, read⟩ := step.strides_reader.arrives start enough
  obtain ⟨taken, split, moved, spelled⟩ := step.takes_reader start value _ read
  rw [step.sum_strides] at read moved split enough
  have length : taken.length = step.width := (Nat.add_left_cancel moved).symm
  refine ⟨value, by rw [run, read], ?_⟩
  rw [split, ← length, List.take_left]
  exact spelled

/-- A step that fails has passed over nothing, except for the first half of a 64-bit number. -/
theorem reach_strides {left : Nat} (short : left < step.width) :
    Reader.reach step.strides left = if step = .i64 ∧ 4 ≤ left then 4 else 0 := by
  cases step with
  | i64 =>
    have short : left < 8 := short
    have second : ¬4 ≤ left - 4 := by omega
    simp [strides, Reader.reach, second]
  | _ => simp [strides, Reader.reach, Nat.not_le.mpr short]

theorem run_of_lt_width (step : ReadStep) (start : Cursor)
    (short : start.rest.length < step.width) :
    let lost := if step = .i64 ∧ 4 ≤ start.rest.length then 4 else 0
    step.run start =
      ⟨step, start, .error (.unexpectedEnd (start.position + lost)), start.advance lost⟩ := by
  intro lost
  have failed := step.strides_reader.ends start (by rwa [step.sum_strides])
  rw [reach_strides short] at failed
  rw [run, failed]

/-- However a step ends, it leaves the cursor in the buffer. -/
theorem over_stop_run (lies : start.Over buffer) (step : ReadStep) :
    (step.run start).stop.Over buffer := by
  by_cases enough : step.strides.sum ≤ start.rest.length
  · obtain ⟨value, read⟩ := step.strides_reader.arrives start enough
    rw [run, read]
    exact lies.advance enough
  · rw [run, step.strides_reader.ends start (Nat.lt_of_not_le enough)]
    exact lies.advance (Reader.reach_le step.strides _)

theorem steps_runAll (steps : List ReadStep) (start : Cursor) :
    (runAll steps start).map Reading.step = steps := by
  induction steps generalizing start with
  | nil => rfl
  | cons step steps ih => rw [runAll, List.map_cons, step_run, ih]

/-- Each reading begins where the one before has ended, and the first where the row does. -/
theorem starts_runAll (steps : List ReadStep) (start : Cursor) :
    ∃ last, (runAll steps start).map Reading.start ++ [last] =
      start :: (runAll steps start).map Reading.stop := by
  induction steps generalizing start with
  | nil => exact ⟨start, rfl⟩
  | cons step steps ih =>
    obtain ⟨last, row⟩ := ih (step.run start).stop
    refine ⟨last, ?_⟩
    rw [runAll, List.map_cons, List.map_cons, List.cons_append, start_run, row]

theorem exists_of_mem_runAll {steps : List ReadStep} {reading : Reading}
    (lies : start.Over buffer) (mem : reading ∈ runAll steps start) :
    ∃ (step : ReadStep) (before : Cursor), before.Over buffer ∧ step.run before = reading := by
  -- the cursor is in the buffer wherever the rest of the row begins
  induction steps generalizing start with
  | nil => contradiction
  | cons step steps ih =>
    rcases List.mem_cons.mp mem with rfl | later
    · exact ⟨step, start, lies, rfl⟩
    · exact ih (over_stop_run lies step) later

end ReadStep

namespace Reading

/-- The law of the cursor: a reading stays in the buffer, one that succeeds passes over the bytes of
its step and returns what they spell, and one that fails stays where it began and names that place. -/
structure Lawful (reading : Reading) (buffer : Bytes) : Prop where
  within : reading.stop.position ≤ buffer.length
  passes : ∀ value, reading.result = .ok value →
    reading.stop.position = reading.start.position + reading.step.width ∧
      reading.step.Spells ((buffer.drop reading.start.position).take reading.step.width) value
  stays : ∀ error, reading.result = .error error →
    reading.stop = reading.start ∧ error = .unexpectedEnd reading.start.position

/-- The reading is of a 64-bit number whose second half the buffer does not have. -/
structure Halves (reading : Reading) (buffer : Bytes) : Prop where
  step_eq : reading.step = .i64
  first : reading.start.position + 4 ≤ buffer.length
  second : buffer.length < reading.start.position + 8

end Reading

namespace ReadStep

variable {start : Cursor} {buffer : Bytes} {step : ReadStep}

theorem halves_run_iff (lies : start.Over buffer) : (step.run start).Halves buffer ↔
    step = .i64 ∧ 4 ≤ start.rest.length ∧ start.rest.length < step.width := by
  have within := lies.within
  have left := lies.length_rest
  constructor
  · rintro ⟨number, first, second⟩
    rw [step_run] at number
    rw [start_run] at first second
    subst number
    exact ⟨rfl, by omega, by rw [width]; omega⟩
  · rintro ⟨rfl, first, second⟩
    rw [width] at second
    constructor
    · rw [step_run]
    · rw [start_run]
      omega
    · rw [start_run]
      omega

theorem run_of_halves (lies : start.Over buffer) (halves : (step.run start).Halves buffer) :
    step.run start =
      ⟨step, start, .error (.unexpectedEnd (start.position + 4)), start.advance 4⟩ := by
  obtain ⟨number, first, second⟩ := (halves_run_iff lies).mp halves
  have failed := step.run_of_lt_width start second
  rwa [if_pos ⟨number, first⟩] at failed

theorem lawful_run_iff (lies : start.Over buffer) :
    (step.run start).Lawful buffer ↔ ¬(step.run start).Halves buffer := by
  constructor
  · -- the law would leave the cursor where it was
    intro lawful halves
    have failed := run_of_halves lies halves
    rw [failed] at lawful
    have stays := congrArg Cursor.position (lawful.stays _ rfl).1
    exact absurd stays (by simp [Cursor.advance])
  · intro whole
    by_cases enough : step.width ≤ start.rest.length
    · obtain ⟨value, taken, spelled⟩ := step.run_of_width_le start enough
      rw [lies.rest_eq] at spelled
      rw [taken]
      refine ⟨(lies.advance enough).within, ?_, ?_⟩
      · rintro _ ⟨⟩
        exact ⟨rfl, spelled⟩
      · rintro error ⟨⟩
    · have short := Nat.lt_of_not_le enough
      have failed := step.run_of_lt_width start short
      rw [if_neg fun first => whole ((halves_run_iff lies).mpr ⟨first.1, first.2, short⟩)] at failed
      rw [failed]
      refine ⟨lies.within, ?_, ?_⟩
      · rintro value ⟨⟩
      · rintro _ ⟨⟩
        exact ⟨rfl, rfl⟩

theorem succeeds_run_iff (lies : start.Over buffer) :
    (∃ value, (step.run start).result = .ok value) ↔
      start.position + step.width ≤ buffer.length := by
  have within := lies.within
  have left := lies.length_rest
  by_cases enough : step.width ≤ start.rest.length
  · obtain ⟨value, taken, -⟩ := step.run_of_width_le start enough
    exact iff_of_true ⟨value, by rw [taken]⟩ (by omega)
  · refine iff_of_false ?_ (by omega)
    rw [step.run_of_lt_width start (Nat.lt_of_not_le enough)]
    rintro ⟨value, ⟨⟩⟩

end ReadStep

namespace Reader

/-- However steps are mixed, no reading leaves the buffer, and one succeeds exactly if its bytes are
there.  All readings keep the law of the cursor but those of a 64-bit number that ends in its second
half: such a reading leaves the cursor behind the first half and names that place. -/
theorem readings_lawful_iff (buffer : Bytes) (steps : List ReadStep) :
    let row := readings buffer steps
    row.map Reading.step = steps ∧
    (∃ last, row.map Reading.start ++ [last] = ⟨buffer, 0⟩ :: row.map Reading.stop) ∧
    ∀ reading ∈ row,
      reading.stop.position ≤ buffer.length ∧
      ((∃ value, reading.result = .ok value) ↔
        reading.start.position + reading.step.width ≤ buffer.length) ∧
      (reading.Lawful buffer ↔ ¬reading.Halves buffer) ∧
      (reading.Halves buffer →
        reading.result = .error (.unexpectedEnd (reading.start.position + 4)) ∧
          reading.stop = reading.start.advance 4) := by
  refine ⟨ReadStep.steps_runAll _ _, ReadStep.starts_runAll _ _, ?_⟩
  intro reading mem
  obtain ⟨step, start, lies, rfl⟩ := ReadStep.exists_of_mem_runAll (Cursor.Over.start buffer) mem
  refine ⟨(ReadStep.over_stop_run lies step).within, ?_, ReadStep.lawful_run_iff lies, ?_⟩
  · rw [step.step_run, step.start_run]
    exact ReadStep.succeeds_run_iff lies
  · intro halves
    rw [ReadStep.run_of_halves lies halves]
    exact ⟨rfl, rfl⟩

/-- Seven bytes are too few for a 64-bit number.  The word read next is not their first. -/
theorem readings_lawful_iff_halved :
    let buffer : Bytes := [0x00, 0x11, 0x22, 0x33, 0x44, 0x55, 0x66]
    let behind : Cursor := ⟨[0x44, 0x55, 0x66], 4⟩
    let number : Reading := ⟨.i64, ⟨buffer, 0⟩, .error (.unexpectedEnd 4), behind⟩
    let word : Reading := ⟨.u16, behind, .ok (.u16 0x4455), ⟨[0x66], 6⟩⟩
    readings buffer [.i64, .u16] = [number, word] ∧
      ¬number.Lawful buffer ∧ word.Lawful buffer := by
  intro buffer behind number word
  have row : readings buffer [.i64, .u16] = [number, word] := rfl
  obtain ⟨-, -, each⟩ := readings_lawful_iff buffer [.i64, .u16]
  rw [row] at each
  obtain ⟨-, -, numberLawful, -⟩ := each number List.mem_cons_self
  obtain ⟨-, -, wordLawful, -⟩ := each word (List.mem_cons_of_mem _ List.mem_cons_self)
  refine ⟨row, fun lawful => ?_, wordLawful.mpr fun halves => ?_⟩
  · exact numberLawful.mp lawful ⟨rfl, by decide, by decide⟩
  · exact absurd halves.step_eq (by decide)

/-- A reading of a 64-bit number fails and moves the cursor. -/
theorem halved_number_moves_cursor :
    ¬∀ (buffer : Bytes) (steps : List ReadStep),
      ∀ reading ∈ readings buffer steps, reading.Lawful buffer := by
  intro law
  have lawful := law [0x00, 0x11, 0x22, 0x33, 0x44] [.i64] _ (List.mem_singleton_self _)
  have stays := (lawful.stays (.unexpectedEnd 4) rfl).1
  exact absurd stays (by decide)

end Reader

end ClassBench
