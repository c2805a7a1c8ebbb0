import ClassBench.Proofs.Constructor.Storing

/-! The steps of a constructor.  A step that does not fail passes, and has stored into a field that
the type declares if it has stored at all; or it calls the constructor of the super type; or it
returns.  A constructor that returns has passed some steps, called once, passed more, and returned
with the last. -/

namespace ClassBench

/-- A step that a constructor takes: whose constructor it is, the instruction, and what the body has
done before. -/
structure ConstructorStep where
  type : LoadedType
  instruction : Instruction
  frame : Frame

namespace ConstructorStep

/-- The super type whose constructor the step calls.  It is told by the failure of a constructor that
does nothing but name itself, with an error that no step raises by itself. -/
def called? (s : ConstructorStep) : Option String :=
  match s.type.execute (fun owner _ => .error (.endlessChain owner)) s.instruction s.frame with
  | .error (.endlessChain owner) => some owner
  | _ => none

/-- The field that the step stores into, and the value. -/
def write? (s : ConstructorStep) : Option (MemberRef × Value) :=
  if s.instruction.opcode = .putfield then do
    let field ← s.instruction.poolIndex?.bind s.type.classFile.pool.member?
    return (field, ← s.frame.stack.head?)
  else none

/-- What the step stores, under the name of the field. -/
def stores (s : ConstructorStep) : List (String × Value) :=
  s.write?.toList.map fun write => (write.1.name, write.2)

/-- The step goes on to the next one, and stores only into a field that the type declares. -/
structure Passes (s : ConstructorStep) : Prop where
  goesOn : s.instruction.opcode ≠ .return_
  silent : s.called? = none
  declared : ∀ write ∈ s.write?, s.type.declares write.1 = true

/-- The step calls the constructor of the super type, and goes on. -/
structure Calls (s : ConstructorStep) (owner : String) : Prop where
  goesOn : s.instruction.opcode ≠ .return_
  calls : s.called? = some owner
  super : s.type.classFile.superName? = some owner
  storeless : s.write? = none

structure Returns (s : ConstructorStep) : Prop where
  returns : s.instruction.opcode = .return_
  silent : s.called? = none

/-- What a step that does not fail does, and what it leaves behind. -/
inductive Outcome (s : ConstructorStep) (callSuper : LoadedType.SuperCall) : Bool → Frame → Prop
  | passes (stack : List Value) (passes : s.Passes) :
      Outcome s callSuper false ⟨stack, s.frame.superCalled, s.frame.fields.storeAll s.stores⟩
  | calls (stack : List Value) {owner : String} {fields : Fields} (calls : s.Calls owner)
      (first : s.frame.superCalled = false)
      (ran : callSuper owner s.frame.fields = .ok fields) :
      Outcome s callSuper false ⟨stack, true, fields⟩
  | returns (returns : s.Returns) (later : s.frame.superCalled = true) :
      Outcome s callSuper true s.frame

variable {s : ConstructorStep} {callSuper : LoadedType.SuperCall} {returned : Bool} {after : Frame}

theorem Returns.storeless (returns : s.Returns) : s.write? = none :=
  if_neg (by simp [returns.returns])

theorem write?_of_ne (other : s.instruction.opcode ≠ .putfield) : s.write? = none := if_neg other

theorem stores_of_ne (other : s.instruction.opcode ≠ .putfield) : s.stores = [] := by
  rw [stores, write?_of_ne other]
  rfl

end ConstructorStep

namespace LoadedType

variable {t : LoadedType} {i : Instruction}

/-- No other instruction takes notice of the super constructor. -/
theorem execute_congr (other : i.opcode ≠ .invokespecial) (callSuper callSuper' : SuperCall) :
    t.execute callSuper i = t.execute callSuper' i := by
  unfold execute
  cases h : i.opcode
  case invokespecial => exact absurd h other
  all_goals rfl

end LoadedType

namespace ConstructorStep

variable {s : ConstructorStep} {callSuper : LoadedType.SuperCall} {returned : Bool} {after : Frame}

/-- What is told is what the step calls, whatever the constructor does. -/
theorem called?_eq_some {owner : String} : s.called? = some owner ↔
    s.type.classFile.superName? = some owner ∧ ∃ stack, ∀ callSuper : LoadedType.SuperCall,
      s.type.execute callSuper s.instruction s.frame =
        (callSuper owner s.frame.fields).map fun fields => (false, ⟨stack, true, fields⟩) := by
  constructor
  · intro told
    rw [called?] at told
    cases s.type.conduct s.instruction s.frame.stack s.frame.superCalled with
    | fails e own run =>
      rw [run] at told
      cases e with
      | endlessChain => cases own
      | _ => cases told
    | returns _ run | goesOn _ _ run =>
      rw [run] at told
      cases told
    | calls _ other stack super run =>
      rw [run] at told
      obtain rfl : other = owner := Option.some.inj told
      exact ⟨super, stack, fun callSuper => run callSuper s.frame.fields⟩
  · rintro ⟨-, stack, run⟩
    rw [called?, run]
    rfl

theorem called?_of_ne (other : s.instruction.opcode ≠ .invokespecial)
    (ran : s.type.execute callSuper s.instruction s.frame = .ok (returned, after)) :
    s.called? = none := by
  rw [called?, LoadedType.execute_congr other _ callSuper, ran]

/-- A store that does not fail is of the topmost value, into a field that the type declares. -/
theorem outcome_putfield (h : s.instruction.opcode = .putfield)
    (ran : s.type.execute callSuper s.instruction s.frame = .ok (returned, after)) :
    s.Outcome callSuper returned after := by
  have silent := called?_of_ne (by simp [h]) ran
  have goesOn : s.instruction.opcode ≠ .return_ := by simp [h]
  obtain ⟨t, i, stack, called, fields⟩ := s
  rw [LoadedType.execute, h] at ran
  rcases stack with - | ⟨value, - | ⟨receiver, rest⟩⟩
  · cases ran
  · cases ran
  · by_cases this : receiver = .this
    · subst this
      cases found : i.poolIndex?.bind t.classFile.pool.member? with
      | none =>
        simp only [Execution.constant, found] at ran
        cases ran
      | some field =>
        have write : write? ⟨t, i, value :: .this :: rest, called, fields⟩ =
            some (field, value) := by
          rw [write?, if_pos h]
          simp [found]
        cases declared : t.declares field with
        | false =>
          simp only [Execution.constant, found, pure_bind, declared] at ran
          cases ran
        | true =>
          simp only [Execution.constant, found, pure_bind, declared] at ran
          cases ran
          have passed : Outcome _ callSuper false _ :=
            .passes rest ⟨goesOn, silent, by simp [write, declared]⟩
          rwa [stores, write] at passed
    · change Execution.popThis i.offset ⟨receiver :: rest, called, fields⟩ >>= _ = _ at ran
      rw [LoadedType.popThis_other this] at ran
      cases ran

/-- A call that does not fail is the first one, and of the constructor of the super type. -/
theorem outcome_invokespecial (h : s.instruction.opcode = .invokespecial)
    (ran : s.type.execute callSuper s.instruction s.frame = .ok (returned, after)) :
    s.Outcome callSuper returned after := by
  have goesOn : s.instruction.opcode ≠ .return_ := by simp [h]
  have noStore : s.instruction.opcode ≠ .putfield := by simp [h]
  obtain ⟨t, i, stack, called, fields⟩ := s
  have ran' := ran
  rw [LoadedType.execute, h] at ran'
  cases stack with
  | nil => cases ran'
  | cons receiver rest =>
    by_cases this : receiver = .this
    · subst this
      cases called with
      | true => cases ran'
      | false =>
        cases found : i.poolIndex?.bind t.classFile.pool.member? with
        | none =>
          simp only [Execution.constant, found] at ran'
          cases ran'
        | some method =>
          cases super : t.isSuperConstructor method with
          | false =>
            simp only [Execution.constant, found, pure_bind, super] at ran'
            cases ran'
          | true =>
            have run := t.execute_invokespecial h found super
            have named := LoadedType.superName?_of_isSuperConstructor super
            have calls : called? ⟨t, i, .this :: rest, false, fields⟩ = some method.owner :=
              called?_eq_some.mpr ⟨named, rest, fun callSuper => run callSuper rest fields⟩
            rw [run] at ran
            cases made : callSuper method.owner fields with
            | error e =>
              rw [made] at ran
              cases ran
            | ok fields' =>
              rw [made] at ran
              cases ran
              exact .calls rest ⟨goesOn, calls, named, write?_of_ne noStore⟩ rfl made
    · change Execution.popThis i.offset ⟨receiver :: rest, called, fields⟩ >>= _ = _ at ran'
      rw [LoadedType.popThis_other this] at ran'
      cases ran'

/-- Each step that does not fail passes, calls or returns. -/
theorem outcome (ran : s.type.execute callSuper s.instruction s.frame = .ok (returned, after)) :
    s.Outcome callSuper returned after := by
  -- Most instructions change the operand stack and nothing else.
  have plain {stack : List Value} (other : s.instruction.opcode ≠ .putfield ∧
      s.instruction.opcode ≠ .invokespecial ∧ s.instruction.opcode ≠ .return_) :
      s.Outcome callSuper false ⟨stack, s.frame.superCalled, s.frame.fields⟩ := by
    obtain ⟨noStore, noCall, noReturn⟩ := other
    have passed : s.Outcome callSuper false _ :=
      .passes stack ⟨noReturn, called?_of_ne noCall ran, by simp [write?_of_ne noStore]⟩
    rwa [stores_of_ne noStore] at passed
  obtain ⟨t, i, stack, called, fields⟩ := s
  cases h : i.opcode
  case aload_0 | aconst_null | iconst_m1 | iconst_0 | iconst_1 | iconst_2 | iconst_3 | iconst_4
      | iconst_5 =>
    rw [LoadedType.execute, h] at ran
    cases ran
    exact plain (by simp [h])
  case bipush | sipush =>
    rw [LoadedType.execute, h] at ran
    cases found : i.immediate? with
    | none =>
      simp only [found] at ran
      cases ran
    | some value =>
      simp only [found] at ran
      cases ran
      exact plain (by simp [h])
  case ldc | ldc_w | ldc2_w =>
    rw [LoadedType.execute, h] at ran
    cases found : i.poolIndex?.bind (Value.ofConstant? t.classFile.pool) with
    | none =>
      simp only [Execution.constant, found] at ran
      cases ran
    | some value =>
      simp only [Execution.constant, found] at ran
      cases ran
      exact plain (by simp [h])
  case dup =>
    rw [LoadedType.execute, h] at ran
    cases stack with
    | nil => cases ran
    | cons top rest =>
      cases ran
      exact plain (by simp [h])
  case pop =>
    rw [LoadedType.execute, h] at ran
    cases stack with
    | nil => cases ran
    | cons top rest =>
      cases ran
      exact plain (by simp [h])
  case putfield => exact outcome_putfield h ran
  case invokespecial => exact outcome_invokespecial h ran
  case return_ =>
    cases called with
    | false =>
      rw [LoadedType.execute, h] at ran
      cases ran
    | true =>
      have silent := called?_of_ne (by simp [h]) ran
      rw [LoadedType.execute, h] at ran
      cases ran
      exact .returns ⟨h, silent⟩ rfl
  all_goals
    rw [LoadedType.execute, h] at ran
    cases ran

/-! ### Rows of steps -/

variable {steps : List ConstructorStep} {key : String} {value : Value}

theorem lookup_stores (steps : List ConstructorStep) (key : String) :
    (steps.flatMap (·.stores)).reverse.lookup key =
      steps.reverse.findSome? (·.stores.lookup key) := by
  induction steps with
  | nil => rfl
  | cons s steps ih =>
    -- A step stores once at most.
    have single : s.stores.reverse = s.stores := by
      rw [stores]
      cases s.write? <;> rfl
    rw [List.flatMap_cons, List.reverse_append, List.lookup_append, ih, single, List.reverse_cons,
      List.findSome?_append]
    congr 1
    simp

theorem lookup_stores_self : s.stores.lookup key = some value ↔
    ∃ field, s.write? = some (field, value) ∧ field.name = key := by
  rw [stores]
  cases s.write? with
  | none => simp
  | some write =>
    obtain ⟨field, stored⟩ := write
    show List.lookup key [(field.name, stored)] = some value ↔ _
    rw [Fields.lookup_cons_eq]
    constructor
    · intro found
      split at found
      · next same =>
        obtain rfl := Option.some.inj found
        exact ⟨field, rfl, same.symm⟩
      · cases found
    · rintro ⟨_, ⟨⟩, rfl⟩
      exact if_pos rfl

theorem lookup_stores_self_none : s.stores.lookup key = none ↔
    ∀ write ∈ s.write?, write.1.name ≠ key := by
  rw [Option.eq_none_iff_forall_ne_some]
  constructor
  · rintro absent ⟨field, value⟩ write named
    exact absent value (lookup_stores_self.mpr ⟨field, write, named⟩)
  · intro other value found
    obtain ⟨field, write, named⟩ := lookup_stores_self.mp found
    exact other _ write named

/-- What is found last in a row of stores was stored by a step after which no other step stores
under the name. -/
theorem lookup_stores_eq_some : (steps.flatMap (·.stores)).reverse.lookup key = some value ↔
    ∃ before s later field, steps = before ++ s :: later ∧ s.write? = some (field, value) ∧
      field.name = key ∧ ∀ after ∈ later, ∀ write ∈ after.write?, write.1.name ≠ key := by
  rw [lookup_stores, List.findSome?_eq_some_iff]
  constructor
  · rintro ⟨later, s, before, split, stored, unstored⟩
    obtain ⟨field, write, named⟩ := lookup_stores_self.mp stored
    refine ⟨before.reverse, s, later.reverse, field, ?_, write, named, fun after inside =>
      lookup_stores_self_none.mp (unstored after (List.mem_reverse.mp inside))⟩
    rw [List.reverse_eq_iff.mp split]
    simp
  · rintro ⟨before, s, later, field, rfl, write, named, unstored⟩
    exact ⟨later.reverse, s, before.reverse, by simp, lookup_stores_self.mpr ⟨field, write, named⟩,
      fun after inside =>
        lookup_stores_self_none.mpr (unstored after (List.mem_reverse.mp inside))⟩

end ConstructorStep

namespace LoadedType

variable {t : LoadedType} {callSuper : SuperCall} {body : List Instruction} {stack : List Value}
  {called : Bool} {fields fields' : Fields} {frame : Frame}

/-! ### The whole body -/

/-- The steps that instructions take, up to the return or to a failure. -/
def stepsOf (t : LoadedType) (callSuper : SuperCall) :
    List Instruction → Frame → List ConstructorStep
  | [], _ => []
  | i :: rest, frame =>
    ⟨t, i, frame⟩ ::
      match t.execute callSuper i frame with
      | .ok (false, after) => t.stepsOf callSuper rest after
      | _ => []

theorem type_of_mem_stepsOf {s : ConstructorStep} (hs : s ∈ t.stepsOf callSuper body frame) :
    s.type = t := by
  induction body generalizing frame with
  | nil => cases hs
  | cons i body ih =>
    rw [stepsOf] at hs
    rcases List.mem_cons.mp hs with rfl | further
    · rfl
    · split at further
      · exact ih further
      · cases further

/-- The steps take the instructions from the first on. -/
theorem stepsOf_instructions (t : LoadedType) (callSuper : SuperCall) (body : List Instruction)
    (frame : Frame) : (t.stepsOf callSuper body frame).map (·.instruction) <+: body := by
  induction body generalizing frame with
  | nil => exact List.prefix_rfl
  | cons i body ih =>
    rw [stepsOf, List.map_cons, List.prefix_cons_inj]
    split
    · exact ih _
    · exact List.nil_prefix

/-- The steps of a constructor that returns, which was called on some fields and leaves others. -/
inductive Course (t : LoadedType) (callSuper : SuperCall) (fields fields' : Fields) :
    List ConstructorStep → Prop
  | intro {before later : List ConstructorStep} {call last : ConstructorStep} {owner : String}
      {between : Fields} (first : ∀ s ∈ before, s.Passes) (calls : call.Calls owner)
      (brings : call.frame.fields = fields.storeAll (before.flatMap (·.stores)))
      (ran : callSuper owner call.frame.fields = .ok between) (second : ∀ s ∈ later, s.Passes)
      (returns : last.Returns) (leaves : fields' = between.storeAll (later.flatMap (·.stores))) :
      Course t callSuper fields fields' (before ++ call :: (later ++ [last]))

theorem Course.cons {s : ConstructorStep} {steps : List ConstructorStep} (passes : s.Passes)
    (course : t.Course callSuper (fields.storeAll s.stores) fields' steps) :
    t.Course callSuper fields fields' (s :: steps) := by
  obtain ⟨first, calls, brings, ran, second, returns, leaves⟩ := course
  refine .intro (List.forall_mem_cons.mpr ⟨passes, first⟩) calls ?_ ran second returns leaves
  rw [brings, List.flatMap_cons, Fields.storeAll_append]

/-- After the call of the super constructor no other call is made. -/
theorem stepsOf_called (ran : t.fieldsAfter callSuper body ⟨stack, true, fields⟩ = .ok fields') :
    ∃ later last, t.stepsOf callSuper body ⟨stack, true, fields⟩ = later ++ [last] ∧
      (∀ s ∈ later, s.Passes) ∧ last.Returns ∧
      fields' = fields.storeAll (later.flatMap (·.stores)) := by
  induction body generalizing stack fields with
  | nil => cases ran
  | cons i body ih =>
    rw [fieldsAfter_cons] at ran
    rw [stepsOf]
    cases executed : t.execute callSuper i ⟨stack, true, fields⟩ with
    | error e =>
      rw [executed] at ran
      cases ran
    | ok r =>
      obtain ⟨returned, after⟩ := r
      rw [executed] at ran
      cases ConstructorStep.outcome (s := ⟨t, i, ⟨stack, true, fields⟩⟩) executed with
      | passes stack' passes =>
        obtain ⟨later, last, steps, further, returns, rfl⟩ := ih ran
        refine ⟨_ :: later, last, congrArg _ steps, List.forall_mem_cons.mpr ⟨passes, further⟩,
          returns, ?_⟩
        rw [List.flatMap_cons, Fields.storeAll_append]
      | calls _ _ first => cases first
      | returns returns =>
        cases ran
        exact ⟨[], _, rfl, by simp, returns, rfl⟩

theorem stepsOf_course (ran : t.fieldsAfter callSuper body ⟨stack, false, fields⟩ = .ok fields') :
    t.Course callSuper fields fields' (t.stepsOf callSuper body ⟨stack, false, fields⟩) := by
  -- As long as the steps pass the induction goes on; the call leads out of it.
  induction body generalizing stack fields with
  | nil => cases ran
  | cons i body ih =>
    rw [fieldsAfter_cons] at ran
    rw [stepsOf]
    cases executed : t.execute callSuper i ⟨stack, false, fields⟩ with
    | error e =>
      rw [executed] at ran
      cases ran
    | ok r =>
      obtain ⟨returned, after⟩ := r
      rw [executed] at ran
      cases ConstructorStep.outcome (s := ⟨t, i, ⟨stack, false, fields⟩⟩) executed with
      | passes stack' passes =>
        exact (ih ran).cons passes
      | calls stack' calls _ made =>
        obtain ⟨later, last, steps, second, returns, leaves⟩ := stepsOf_called ran
        simp only [steps]
        show t.Course callSuper fields fields' ([] ++ _ :: (later ++ [last]))
        exact .intro (by simp) calls rfl made second returns leaves
      | returns _ later => cases later

/-- The steps of the constructor, without those of the constructor of the super type. -/
def ownSteps (t : LoadedType) (callSuper : SuperCall) (fields : Fields) : List ConstructorStep :=
  match t.constructorBody with
  | .error _ => []
  | .ok body => t.stepsOf callSuper body { fields }

/-- The steps are those of one run of the constructor, from its first instruction to its one return,
with one call, which is of the constructor of the super type. -/
structure RunsOnce (t : LoadedType) (own : List ConstructorStep) : Prop where
  instructions : ∃ body, t.constructorBody = .ok body ∧ own.map (·.instruction) <+: body
  returns : ∃ front last, own = front ++ [last] ∧ last.instruction.opcode = .return_ ∧
    ∀ s ∈ front, s.instruction.opcode ≠ .return_
  calls : ∃ super, t.classFile.superName? = some super ∧ own.filterMap (·.called?) = [super]

/-- A constructor that returned has stored only into fields that the type declares. -/
theorem Course.declared {own : List ConstructorStep}
    (course : t.Course callSuper fields fields' own) :
    ∀ s ∈ own, ∀ write ∈ s.write?, s.type.declares write.1 = true := by
  cases course with
  | intro first calls _ _ second returns =>
    intro s hs
    rcases List.mem_append.mp hs with inside | inside
    · exact (first s inside).declared
    · rcases List.mem_cons.mp inside with rfl | inside
      · simp [calls.storeless]
      · rcases List.mem_append.mp inside with inside | inside
        · exact (second s inside).declared
        · obtain rfl := List.mem_singleton.mp inside
          simp [returns.storeless]

theorem Course.runsOnce {own : List ConstructorStep}
    (course : t.Course callSuper fields fields' own) (types : ∀ s ∈ own, s.type = t)
    (instructions : ∃ body, t.constructorBody = .ok body ∧ own.map (·.instruction) <+: body) :
    t.RunsOnce own := by
  cases course with
  | @intro before later call last super between first calls brings ran second returns leaves =>
    have silent {steps : List ConstructorStep} (pass : ∀ s ∈ steps, s.Passes) :
        steps.filterMap (·.called?) = [] :=
      List.filterMap_eq_nil_iff.mpr fun s hs => (pass s hs).silent
    have callType : call.type = t := types call (by simp)
    refine ⟨instructions, ⟨before ++ call :: later, last, by simp, returns.returns, ?_⟩, super,
      callType ▸ calls.super, ?_⟩
    · intro s hs
      rcases List.mem_append.mp hs with inside | inside
      · exact (first s inside).goesOn
      · rcases List.mem_cons.mp inside with rfl | inside
        · exact calls.goesOn
        · exact (second s inside).goesOn
    · rw [List.filterMap_append, silent first, List.filterMap_cons_some calls.calls,
        List.filterMap_append, silent second, List.filterMap_cons_none returns.silent]
      rfl

theorem ownSteps_of_body (found : t.constructorBody = .ok body) :
    t.ownSteps callSuper fields = t.stepsOf callSuper body { fields } := by
  rw [ownSteps, found]

theorem type_of_mem_ownSteps {s : ConstructorStep} (hs : s ∈ t.ownSteps callSuper fields) :
    s.type = t := by
  rw [ownSteps] at hs
  split at hs
  · cases hs
  · exact type_of_mem_stepsOf hs

theorem body_of_runConstructor (ran : t.runConstructor callSuper fields = .ok fields') :
    ∃ body, t.constructorBody = .ok body ∧
      t.fieldsAfter callSuper body ⟨[], false, fields⟩ = .ok fields' := by
  rw [runConstructor] at ran
  cases found : t.constructorBody with
  | error e =>
    rw [found] at ran
    cases ran
  | ok body =>
    rw [found] at ran
    exact ⟨body, rfl, ran⟩

theorem ownSteps_course (ran : t.runConstructor callSuper fields = .ok fields') :
    t.Course callSuper fields fields' (t.ownSteps callSuper fields) := by
  obtain ⟨body, found, ran⟩ := body_of_runConstructor ran
  rw [ownSteps_of_body found]
  exact stepsOf_course ran

/-- A constructor that returns runs once. -/
theorem runsOnce_ownSteps (ran : t.runConstructor callSuper fields = .ok fields') :
    t.RunsOnce (t.ownSteps callSuper fields) := by
  obtain ⟨body, found, -⟩ := body_of_runConstructor ran
  refine (ownSteps_course ran).runsOnce (fun s hs => type_of_mem_ownSteps hs) ⟨body, found, ?_⟩
  rw [ownSteps_of_body found]
  exact stepsOf_instructions t callSuper body _

end LoadedType

end ClassBench
