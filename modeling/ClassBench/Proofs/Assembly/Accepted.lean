import ClassBench.Proofs.Assembly.Drafts

/-! The verifier accepts what the assembler writes.  As long as the bodies of a script are written
by typed steps, each of its steps leaves a class whose names, members and bodies are in order in
every pool that the pool of the class grows to.  What remains to be asked for is what no step looks
at: entries that are pushed as they are, the descriptors, and that no member is declared twice. -/

namespace ClassBench

/-! ### Classes of typed bodies -/

namespace ClassStep

/-- A method that a step adds has no body, or is neither abstract nor native and has a body of typed
steps. -/
def IsTyped (c : ClassFile) : ClassStep → Prop
  | addMethod .. => False
  | method access name descriptor steps dropped => dropped = false →
    ∀ d, MethodDraft.start c access name descriptor = .ok d →
      (steps.mapM MethodStep.run d).2.code.size ≤ 65535 →
        Access.has access (Access.isAbstract ||| Access.isNative) = false ∧
          MethodStep.TypedBody steps d
  | _ => True

/-- Every step of a script is typed where it is taken. -/
def AllTyped : List ClassStep → ClassFile → Prop
  | [], _ => True
  | step :: steps, c => step.IsTyped c ∧ AllTyped steps (step.run c).2

end ClassStep

/-- In a pool the class and what it extends and implements are classes, its members have names and
descriptors, and the bodies of its methods are sound. -/
structure ClassFile.Formed (q : Pool) (c : ClassFile) : Prop where
  thisClass : ∃ name, q.NamesClass c.thisClass name
  superClass : ∃ name, q.NamesClass c.superClass name
  interfaces : ∀ index ∈ c.interfaces, ∃ name, q.NamesClass index name
  fields : ∀ m ∈ c.fields, ∃ signature : String × String,
    m.signature q = signature.map some some
  methods : ∀ m ∈ c.methods, ∃ signature : String × String,
    m.signature q = signature.map some some
  bodies : ∀ m ∈ c.methods, m.SoundBody q

/-! ### What the steps leave in order -/

theorem Access.has_or_self {flag : UInt16} (some : flag ≠ 0) (access : UInt16) :
    has (access ||| flag) flag = true := by
  have same : (access ||| flag) &&& flag = flag := by
    apply UInt16.toNat_inj.mp
    apply Nat.eq_of_testBit_eq
    intro i
    simp only [UInt16.toNat_and, UInt16.toNat_or, Nat.testBit_and, Nat.testBit_or]
    cases access.toNat.testBit i <;> cases flag.toNat.testBit i <;> rfl
  simpa [has, same] using some

theorem Member.soundBody_abstract {q : Pool} {m : Member} {access : UInt16}
    (abstract : m.access = access ||| Access.isAbstract) (bare : m.attributes = []) :
    m.SoundBody q where
  present := by
    have bit : Access.has m.access Access.isAbstract = true :=
      abstract ▸ Access.has_or_self (by decide) access
    simp [bit, attribute?, bare]
  sound info found := by
    simp [attribute?, bare] at found

namespace ClassFile.Formed

variable {q : Pool} {c : ClassFile} {m : Member} {pool : Pool}

theorem addMethod (formed : c.Formed q) {name descriptor : String}
    (signed : m.signature q = (some name, some descriptor)) (sound : m.SoundBody q) :
    ({ c with pool, methods := c.methods ++ [m] } : ClassFile).Formed q :=
  { formed with
    methods := List.forall_mem_append.mpr
      ⟨formed.methods, List.forall_mem_singleton.mpr ⟨(name, descriptor), signed⟩⟩
    bodies := List.forall_mem_append.mpr
      ⟨formed.bodies, List.forall_mem_singleton.mpr sound⟩ }

theorem addTo {d : MethodDraft} {is : List Instruction} (formed : d.owner.Formed q)
    (concrete : Access.has d.access (Access.isAbstract ||| Access.isNative) = false)
    (short : d.code.size ≤ 65535) (lines : 2 + 4 * d.lines.size < UInt32.size) (some : is ≠ [])
    (tiles : Instruction.Tiles 0 d.code.toList is) (row : Instruction.SoundRow q d.maxLocals is)
    (later : (d.addTo d.owner).2.pool.Grows q) (few : q.slots.size ≤ 65535) :
    (d.addTo d.owner).2.Formed q := by
  obtain ⟨m, pool, code, made, access, signed, body, locals, written, read⟩ :=
    (Assembly.makes_addTo d).turns later few
  rw [made]
  refine formed.addMethod signed (Member.soundBody_iff.mpr ?_)
  rw [access, concrete, if_neg Bool.false_ne_true]
  rw [← written] at tiles
  rw [← locals] at row
  refine ⟨code, Member.code?_eq_some.mpr ⟨_, body, read short lines⟩,
    ⟨tiles.length_pos some, ?_⟩, is, tiles, row⟩
  simpa [written] using short

/-- A method that is written by typed steps is added with a sound body, or it is not added. -/
theorem writeMethod (formed : c.Formed q) {access : UInt16} {name descriptor : String}
    {steps : List MethodStep} {dropped : Bool}
    (typed : (ClassStep.method access name descriptor steps dropped).IsTyped c)
    (later : (Assembly.writeMethod access name descriptor steps dropped c).2.pool.Grows q)
    (few : q.slots.size ≤ 65535) :
    (Assembly.writeMethod access name descriptor steps dropped c).2.Formed q := by
  rcases Assembly.writeMethod_cases c access name descriptor steps dropped with
    same | ⟨d, started, final, run, owner, sameAccess, either⟩
  · rwa [same]
  have around : final.owner.Formed q := by
    rw [owner]
    exact { formed with }
  rcases either with left | ⟨kept, short, added⟩
  · rwa [left]
  · rw [added] at later ⊢
    subst run
    obtain ⟨concrete, body⟩ := typed kept d started short
    obtain ⟨maxLocals, begun⟩ := Assembly.start_eq_ok started
    obtain ⟨is, some, tiles, row⟩ :=
      body.sound (by rw [begun]) (((Assembly.makes_addTo _).growing _).trans later) few
    exact around.addTo (sameAccess ▸ concrete) short body.lines some tiles row later few

end ClassFile.Formed

namespace ClassStep

variable {q : Pool} {c : ClassFile} {step : ClassStep}

open ClassFile (Formed)

theorem formed (typed : step.IsTyped c) (later : (step.run c).2.pool.Grows q)
    (few : q.slots.size ≤ 65535) (formed : c.Formed q) : (step.run c).2.Formed q := by
  cases step with
  | setAccess | setMajor | setSourceFile | classRef | pool => exact { formed with }
  | hasMethod | currentName => exact formed
  | addInterface name =>
    obtain ⟨index, pool, interfaces, made, named, known⟩ :=
      (Assembly.makes_addInterface name).turns later few
    show (Assembly.addInterface name c).2.Formed q
    rw [made]
    refine { formed with interfaces := fun i member => ?_ }
    rcases (known i).mp member with before | rfl
    · exact formed.interfaces i before
    · exact ⟨name, named⟩
  | addField access name descriptor =>
    obtain ⟨m, pool, made, -, signed⟩ :=
      (Assembly.makes_addField access name descriptor).turns later few
    show (Assembly.addField access name descriptor c).2.Formed q
    rw [made]
    exact { formed with
      fields := List.forall_mem_append.mpr
        ⟨formed.fields, List.forall_mem_singleton.mpr ⟨(name, descriptor), signed⟩⟩ }
  | addAbstractMethod access name descriptor =>
    obtain ⟨m, pool, made, abstract, signed, bare⟩ :=
      (Assembly.makes_addAbstractMethod access name descriptor).turns later few
    show (Assembly.addAbstractMethod access name descriptor c).2.Formed q
    rw [made]
    exact formed.addMethod signed (Member.soundBody_abstract abstract bare)
  | addMethod => exact typed.elim
  | method access name descriptor steps dropped => exact formed.writeMethod typed later few

theorem AllTyped.formed {steps : List ClassStep} (typed : AllTyped steps c)
    (later : (Assembly.runSteps steps c).2.pool.Grows q) (few : q.slots.size ≤ 65535)
    (formed : c.Formed q) : (Assembly.runSteps steps c).2.Formed q := by
  induction steps generalizing c with
  | nil => exact formed
  | cons step steps ih =>
    rw [Assembly.runSteps_cons] at later ⊢
    have rest := (Assembly.accrues_runSteps steps).growing (step.run c).2
    exact ih typed.2 later (step.formed typed.1 (rest.trans later) few formed)

end ClassStep

/-! ### Assembled classes -/

namespace ClassFile

theorem formed_new {q : Pool} {name super : String} (later : (new name super).pool.Grows q)
    (few : q.slots.size ≤ 65535) : (new name super).Formed q := by
  obtain ⟨this, above⟩ := (interns_new name super).tells later few trivial
  exact {
    thisClass := ⟨name, this⟩
    superClass := ⟨super, above⟩
    interfaces := List.forall_mem_nil _
    fields := List.forall_mem_nil _
    methods := List.forall_mem_nil _
    bodies := List.forall_mem_nil _ }

theorem Formed.declares {q : Pool} {ms : List Member} {type : List Char → Prop}
    (signed : ∀ m ∈ ms, ∃ signature : String × String, m.signature q = signature.map some some)
    (typed : ∀ m ∈ ms, ∀ descriptor, m.descriptor? q = some descriptor → type descriptor.toList) :
    ∀ m ∈ ms, m.Declares q type := by
  intro m member
  obtain ⟨found, same⟩ := signed m member
  exact Verify.declares_iff.mpr ⟨found, same, typed m member _ (congrArg Prod.snd same)⟩

/-- For every script whose bodies are written by typed steps, as long as the pool has at most 65535
slots, what is pushed into it as it is refers to entries of the kinds that it asks for, the
descriptors give types, and no two fields and no two methods have one name and descriptor: the
verifier accepts the class that is assembled. -/
theorem assembled_is_accepted (name super : String) (steps : List ClassStep) :
    let c := assembled name super steps
    c.pool.slots.size ≤ 65535 → ClassStep.AllTyped steps (new name super) →
      (∀ step ∈ steps, ∀ e ∈ step.raw, e.Linked c.pool) →
      (∀ m ∈ c.fields, ∀ descriptor, m.descriptor? c.pool = some descriptor →
        Descriptor.FieldType descriptor.toList) →
      (∀ m ∈ c.methods, ∀ descriptor, m.descriptor? c.pool = some descriptor →
        Descriptor.MethodType descriptor.toList) →
      (c.fields.Pairwise fun m m' => m.signature c.pool ≠ m'.signature c.pool) →
      (c.methods.Pairwise fun m m' => m.signature c.pool ≠ m'.signature c.pool) →
      c.verify = .ok () := by
  intro c few typed raw fieldTypes methodTypes distinctFields distinctMethods
  have assembled := Assembly.accrues_runSteps steps
  have later := assembled.growing (new name super)
  have formed : c.Formed c.pool := typed.formed (.refl _) few (formed_new later few)
  have linked : c.pool.LinkedIn c.pool := by
    have gains := (gains_new later few).trans (assembled.gains (.refl _) few)
    refine gains.linked ?_ (by simp [Pool.LinkedIn, Pool.entries, Pool.empty])
    rw [List.nil_append]
    intro e member
    obtain ⟨step, taken, pushed⟩ := List.mem_flatMap.mp member
    exact raw step taken e pushed
  obtain ⟨own, this⟩ := formed.thisClass
  exact verify_eq_ok.mpr ⟨Pool.verify_eq_ok.mpr linked, own, this,
    (verifySuper_eq_ok this).mpr (.inl formed.superClass), formed.interfaces,
    Verify.fields_eq_ok.mpr ⟨Formed.declares formed.fields fieldTypes, distinctFields⟩,
    Verify.methods_eq_ok.mpr
      ⟨Formed.declares formed.methods methodTypes, distinctMethods, formed.bodies⟩⟩

/-- A body with a branch that is set and one that is left to lead to itself, with a local variable
beyond a byte and with entries of the pool. -/
theorem assembled_is_accepted_looping :
    let body : List MethodStep := [.accessLocal .iload 0, .branch .ifeq, .ldcString "on",
      .accessLocal .astore 300, .callInterface ⟨"java/lang/Runnable", "run", "()V"⟩,
      .patchJump 1 15, .emit .return_, .branch .goto]
    let steps : List ClassStep := [.addField 2 "count" "[J", .addAbstractMethod 1 "run" "()V",
      .pool (.push (.long 7)), .method 9 "run" "(I)V" body false]
    let c := assembled "app/Loop" "java/lang/Object" steps
    c.methods.length = 2 ∧ c.verify = .ok () := by
  intro body steps c
  have typed : ClassStep.AllTyped steps (new "app/Loop" "java/lang/Object") := by
    refine ⟨trivial, trivial, trivial, fun _ d started _ => ⟨rfl, ?_⟩, trivial⟩
    rw [MethodDraft.start, (by decide +kernel : Descriptor.argumentSlots? "(I)V" = some 1)]
      at started
    cases started
    exact {
      typed := by decide +kernel
      set p member := by
        obtain rfl : p = (1, 15) := by
          revert p
          decide +kernel
        exact ⟨⟨.ifeq, by decide +kernel⟩, .emit .return_, by decide +kernel⟩
      ending := ⟨16, .branch .goto, .goto, by decide +kernel, rfl, rfl⟩
      lines := by decide +kernel }
  have fields : ∀ m ∈ c.fields, (m.descriptor? c.pool).all Descriptor.isField = true := by
    decide +kernel
  have methods : ∀ m ∈ c.methods, (m.descriptor? c.pool).all Descriptor.isMethod = true := by
    decide +kernel
  refine ⟨by decide +kernel,
    assembled_is_accepted _ _ steps (by decide +kernel) typed ?_ ?_ ?_ ?_ ?_⟩
  · simp [steps, ClassStep.raw, PoolStep.raw, Constant.Linked]
  · intro m member descriptor found
    have valid := fields m member
    rw [found] at valid
    exact Descriptor.isField_iff.mp valid
  · intro m member descriptor found
    have valid := methods m member
    rw [found] at valid
    exact Descriptor.isMethod_iff.mp valid
  · decide +kernel
  · decide +kernel

/-- A class without members whose pool was given an entry that names nothing is refused. -/
theorem assembled_with_loose_entry_is_refused :
    let steps : List ClassStep := [.pool (.push (.classRef 999))]
    let c := assembled "A" "java/lang/Object" steps
    c.pool.slots.size ≤ 65535 ∧ ClassStep.AllTyped steps (new "A" "java/lang/Object") ∧
      c.fields = [] ∧ c.methods = [] ∧ c.verify = .error (.invalidConstantRef 999 .utf8) := by
  refine ⟨?_, ⟨trivial, trivial⟩, rfl, rfl, ?_⟩
  · decide +kernel
  · decide +kernel

end ClassFile

end ClassBench
