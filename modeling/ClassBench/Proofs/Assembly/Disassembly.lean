import ClassBench.Proofs.Assembly.Drafts
import ClassBench.Proofs.Pool.References

/-! Reading back what a draft has written.  A step that writes an instruction together with its
operands leaves one that splitting finds at the place where the step began, whichever of its forms
was the shortest, and that says what the step was asked for; what it says by way of the pool it goes
on to say as the pool grows. -/

namespace ClassBench

/-! ### Steps and instructions -/

namespace MethodStep

open MethodDraft (Emits)

variable {q : Pool} {d : MethodDraft} {step : MethodStep} {steps : List MethodStep}

/-- The step writes one instruction with all its operands.  A call of an interface does so if the
slots of its arguments can be counted. -/
def IsEmitter : MethodStep → Prop
  | emit op => op.layout = .plain
  | branch op => op.layout = .branch
  | callInterface method => (Descriptor.argumentSlots? method.descriptor).isSome = true
  | accessLocal .. | iconst _ | ldcString _ | newObject _ | checkcast _ | accessField ..
  | call .. => True
  | emitMany .. | emitU8 _ | emitU16 _ | emitI16 _ | setMaxStack _ | reserveLocals _
  | lineNumber _ | patchJump .. => False

instance : (step : MethodStep) → Decidable step.IsEmitter
  | emit op => instDecidableEqLayout op.layout .plain
  | branch op => instDecidableEqLayout op.layout .branch
  | callInterface method =>
    instDecidableEqBool (Descriptor.argumentSlots? method.descriptor).isSome true
  | accessLocal .. | iconst _ | ldcString _ | newObject _ | checkcast _ | accessField ..
  | call .. => .isTrue trivial
  | emitMany .. | emitU8 _ | emitU16 _ | emitI16 _ | setMaxStack _ | reserveLocals _
  | lineNumber _ | patchJump .. => .isFalse id

/-- The instruction says what the step asks for, by the texts and the members of a pool. -/
def IsReadAs (q : Pool) (i : Instruction) : MethodStep → Prop
  | emit op => i.opcode = op
  | branch op => i.opcode = op ∧ i.distance? = some 0
  | accessLocal access index => i.IsAccess access index
  | iconst value => i.PushesInteger q value
  | ldcString text => (i.opcode = .ldc ∨ i.opcode = .ldc_w) ∧
    i.poolIndex?.bind q.interned? = some (.string text)
  | newObject name => i.opcode = .new ∧ i.poolIndex?.bind q.interned? = some (.classRef name)
  | checkcast name => i.opcode = .checkcast ∧ i.poolIndex?.bind q.interned? = some (.classRef name)
  | accessField access field => i.opcode = access.opcode ∧
    i.poolIndex?.bind q.interned? = some (.fieldRef field)
  | call kind method => i.opcode = kind.opcode ∧
    i.poolIndex?.bind q.interned? = some (.methodRef method)
  | callInterface method => i.opcode = .invokeinterface ∧
    i.poolIndex?.bind q.interned? = some (.interfaceMethodRef method)
  | _ => False

/-- What an instruction names in the pool is what was interned for it. -/
theorem interned_of_run {intern : StateM Pool UInt16} {request : PoolStep}
    (interning : request.isInterning = true)
    (run : request.run d.pool = (.index (some (intern d.pool).1), (intern d.pool).2))
    (later : (intern d.pool).2.Grows q) (few : q.slots.size ≤ 65535) :
    q.interned? (intern d.pool).1 = some request := by
  obtain ⟨index, answer, found⟩ := request.exists_index interning d.pool
  rw [run] at answer found
  obtain rfl : (intern d.pool).1 = index := by simpa using answer
  exact found q later few

/-- An instruction that names in two bytes what it interns. -/
theorem emits_indexed {op : Opcode} (intern : StateM Pool UInt16) {request : PoolStep}
    (layout : op.layout = .poolIndex) (interning : request.isInterning = true)
    (run : request.run d.pool = (.index (some (intern d.pool).1), (intern d.pool).2))
    (later : (intern d.pool).2.Grows q) (few : q.slots.size ≤ 65535) :
    ∃ i, Emits d ((do
        let index ← Drafting.onPool intern
        Drafting.emit op
        Drafting.emitU16 index : Drafting Unit) d).2 i ∧
      i.opcode = op ∧ i.poolIndex?.bind q.interned? = some request := by
  let index := (intern d.pool).1
  refine ⟨⟨d.code.size, op, Bytes.ofUInt16 index⟩, ⟨rfl, .fixed ?_, ?_⟩, rfl, ?_⟩
  · rw [layout]
    rfl
  · show (Array.appendList (d.code.push op.byte) (Bytes.ofUInt16 index)).toList = _
    simp [Instruction.bytes]
  · have word : Bytes.u16At? (Bytes.ofUInt16 index) 0 = some index := Bytes.u16At?_length [] [] _
    simp only [Instruction.poolIndex?, layout, word, Option.bind_some, index,
      interned_of_run interning run later few]

/-- A step leaves one instruction behind the code, which says what the step asked for. -/
theorem IsEmitter.emits (emitter : step.IsEmitter) (later : (step.run d).2.pool.Grows q)
    (few : q.slots.size ≤ 65535) :
    ∃ i, Emits d (step.run d).2 i ∧ step.IsReadAs q i := by
  cases step with
  | emit op =>
    have layout : op.layout = .plain := emitter
    refine ⟨⟨d.code.size, op, []⟩, ⟨rfl, .fixed (by rw [layout]; rfl), ?_⟩, rfl⟩
    show (d.code.push op.byte).toList = _
    simp [Instruction.bytes]
  | branch op =>
    have layout : op.layout = .branch := emitter
    refine ⟨⟨d.code.size, op, Bytes.ofUInt16 0⟩, ⟨rfl, .fixed (by rw [layout]; rfl), ?_⟩, rfl, ?_⟩
    · show (Array.appendList (d.code.push op.byte) (Bytes.ofUInt16 0)).toList = _
      simp [Instruction.bytes]
    · simp only [Instruction.distance?, layout]
      rfl
  | accessLocal access index =>
    obtain ⟨i, emits, isAccess, -⟩ := Drafting.emits_accessLocal access index d
    exact ⟨i, emits, isAccess⟩
  | iconst value =>
    obtain ⟨_, continues, i, rfl, pushes⟩ := (Drafting.writes_integer value).continues later few
    exact ⟨i, continues.emits, pushes⟩
  | ldcString text =>
    obtain ⟨_, continues, i, index, rfl, load, used, at', here, found⟩ :=
      (Drafting.writes_loadString text).continues later few
    refine ⟨i, continues.emits, load, ?_⟩
    simp only [used, Option.bind_some, Pool.interned?, here, Pool.utf8?_eq_some.mpr found,
      Option.map_some]
  | newObject name | checkcast name =>
    exact emits_indexed (Pool.classRef name) rfl rfl rfl later few
  | accessField access field =>
    exact emits_indexed (Pool.fieldRef field) (by cases access <;> rfl) rfl rfl later few
  | call kind method =>
    exact emits_indexed (Pool.methodRef method) (by cases kind <;> rfl) rfl rfl later few
  | callInterface method =>
    obtain ⟨slots, counted⟩ := Option.isSome_iff_exists.mp emitter
    obtain ⟨code, result, written⟩ := callInterface_eq counted d
    rw [draft_callInterface, result] at later ⊢
    let index := (Pool.interfaceMethodRef method d.pool).1
    refine ⟨⟨d.code.size, .invokeinterface, Bytes.ofUInt16 index ++ [(slots + 1).toUInt8, 0]⟩,
      ⟨rfl, .fixed rfl, written⟩, rfl, ?_⟩
    have named : q.interned? index = some (.interfaceMethodRef method) :=
      interned_of_run rfl rfl later few
    have word : Bytes.u16At? (Bytes.ofUInt16 index ++ [(slots + 1).toUInt8, 0]) 0 = some index :=
      Bytes.u16At?_length [] _ index
    simp only [Instruction.poolIndex?, Opcode.layout, word, Option.bind_some, named]
  | emitMany | emitU8 | emitU16 | emitI16 | setMaxStack | reserveLocals | lineNumber
  | patchJump => exact emitter.elim

/-- A run of such steps leaves as many instructions behind the code, each where its step began. -/
theorem emits_all (emitters : ∀ step ∈ steps, step.IsEmitter)
    (later : (steps.mapM run d).2.pool.Grows q) (few : q.slots.size ≤ 65535) :
    ∃ is, (steps.mapM run d).2.code.toList = d.code.toList ++ is.flatMap Instruction.bytes ∧
      Instruction.Tiles d.code.size (is.flatMap Instruction.bytes) is ∧
      is.length = steps.length ∧ ∀ k step i, steps[k]? = some step → is[k]? = some i →
        i.offset = ((steps.take k).mapM run d).2.code.size ∧ step.IsReadAs q i := by
  induction steps generalizing d with
  | nil => exact ⟨[], (List.append_nil _).symm, .nil, rfl, by simp⟩
  | cons first rest ih =>
    obtain ⟨emitter, emitters⟩ := List.forall_mem_cons.mp emitters
    rw [draft_cons] at later ⊢
    obtain ⟨i, emits, readAs⟩ := emitter.emits (((accrues_all rest).growing _).trans later) few
    obtain ⟨is, code, tiles, length, each⟩ := ih emitters later
    have next : (first.run d).2.code.size = i.next := by
      have size := congrArg List.length emits.code
      simp only [Array.length_toList, List.length_append, Instruction.bytes, List.length_cons]
        at size
      rw [Instruction.next, emits.start, size]
      omega
    refine ⟨i :: is, ?_, ?_, ?_, ?_⟩
    · rw [code, emits.code, List.flatMap_cons, List.append_assoc]
    · rw [List.flatMap_cons]
      exact .cons emits.start emits.whole (next ▸ tiles)
    · rw [List.length_cons, List.length_cons, length]
    · intro k step j asked found
      cases k with
      | zero =>
        obtain rfl := Option.some.inj asked
        obtain rfl := Option.some.inj found
        exact ⟨emits.start, readAs⟩
      | succ k =>
        rw [List.take_succ_cons, draft_cons]
        exact each k step j asked found

/-- Splitting the code that a run of such steps has written gives one instruction for each step, at
the place where the step began, and each says what its step asked for by the pool at the end. -/
theorem disassembly_reads_assembly (begun : d.code = #[])
    (emitters : ∀ step ∈ steps, step.IsEmitter)
    (few : (steps.mapM run d).2.pool.slots.size ≤ 65535) :
    ∃ is, Instruction.split (steps.mapM run d).2.code.toList = .ok is ∧
      is.length = steps.length ∧ ∀ k step i, steps[k]? = some step → is[k]? = some i →
        i.offset = ((steps.take k).mapM run d).2.code.size ∧
          step.IsReadAs (steps.mapM run d).2.pool i := by
  obtain ⟨is, code, tiles, length, each⟩ := emits_all emitters (.refl _) few
  refine ⟨is, ?_, length, each⟩
  rw [begun] at code tiles
  rw [code]
  exact Instruction.split_eq_ok.mpr tiles

/-- A local variable behind the 256th, numbers of all three forms, a call of an interface and a
branch. -/
theorem disassembly_reads_assembly_forms :
    let d : MethodDraft :=
      { owner := .new "A" "java/lang/Object", access := 9, name := "m", descriptor := "()V",
        maxLocals := 0 }
    let steps : List MethodStep :=
      [accessLocal .aload 300, iconst (-1), iconst 200, iconst 70000, ldcString "text",
        callInterface ⟨"I", "m", "(J)V"⟩, branch .goto, emit .return_]
    ∃ is, Instruction.split (steps.mapM run d).2.code.toList = .ok is ∧ is.length = 8 ∧
      ∀ k step i, steps[k]? = some step → is[k]? = some i →
        i.offset = ((steps.take k).mapM run d).2.code.size ∧
          step.IsReadAs (steps.mapM run d).2.pool i := by
  intro d steps
  exact disassembly_reads_assembly rfl (by decide +kernel) (by decide +kernel)

end MethodStep

end ClassBench
