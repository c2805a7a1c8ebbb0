import ClassBench.Proofs.Constructor.Body
import ClassBench.Proofs.Instruction.Accessors
import ClassBench.Proofs.Verify.Linked

/-! Why the constructor of a sound class fails.  Its body is a row of whole instructions with a
terminator at its end, and every pool entry that an instruction names leads to texts.  So a
constructor that fails has no body, or meets operands that it cannot use, or loads one of the
constants that have no value here. -/

namespace ClassBench

/-! ### Constants -/

namespace Pool

variable {pool : Pool} {index : UInt16} (linked : ∀ e ∈ pool.entries, e.Linked pool)
include linked

/-- Of the constants that can be loaded those of three kinds have no value. -/
theorem Holds.ofConstant? (holds : pool.Holds Opcode.ldc.operandKinds index)
    (none : Value.ofConstant? pool index = none) :
    pool.Holds [.methodType, .methodHandle, .dynamic] index := by
  obtain ⟨c, found, kind⟩ := holds
  unfold Value.ofConstant? at none
  simp only [found] at none
  cases c with
  | methodType | methodHandle | dynamic => exact ⟨_, found, by simp [Constant.kind]⟩
  | integer | float | long | double => cases none
  | string text =>
    obtain ⟨s, isText⟩ := Holds.utf8? (linked _ (mem_entries_of_get? found))
    simp [isText] at none
  | classRef name =>
    obtain ⟨s, isName⟩ := Holds.className? linked ⟨_, found, by simp [Constant.kind]⟩
    simp [isName] at none
  | _ => simp [Constant.kind, Opcode.operandKinds] at kind

omit linked in
theorem Holds.ofConstant?_wide (holds : pool.Holds Opcode.ldc2_w.operandKinds index) :
    Value.ofConstant? pool index ≠ none := by
  obtain ⟨c, found, kind⟩ := holds
  unfold Value.ofConstant?
  simp only [found]
  cases c with
  | long | double => exact nofun
  | _ => simp [Constant.kind, Opcode.operandKinds] at kind

end Pool

/-! ### Steps that fail -/

/-- Whether the error tells of a body that is missing or is no body, or of a constant without a
value. -/
def ConstructError.isStructural : ConstructError → Bool
  | missingBody _ | malformed _ | badConstant _ _ | noReturn _ => true
  | _ => false

/-- Whenever the step fails, it is for such a cause. -/
def Execution.Raises (step : Execution α) (cause : ConstructError → Prop) : Prop :=
  ∀ frame e, step frame = .error e → cause e

namespace Execution.Raises

variable {α β : Type} {cause : ConstructError → Prop} {step : Execution α}

theorem bind {next : α → Execution β} (h : step.Raises cause) (hNext : ∀ a, (next a).Raises cause) :
    (step >>= next).Raises cause := by
  intro frame e failed
  have run : (step >>= next) frame = step frame >>= fun r => next r.1 r.2 := rfl
  rw [run] at failed
  cases first : step frame with
  | error e' =>
    rw [first] at failed
    cases failed
    exact h frame _ first
  | ok r =>
    rw [first] at failed
    exact hNext r.1 r.2 e failed

protected theorem pure (a : α) : (pure a : Execution α).Raises cause := nofun

protected theorem throw {e : ConstructError} (here : cause e) :
    (throw e : Execution α).Raises cause := by
  rintro frame _ ⟨⟩
  exact here

/-- What would follow a fault plays no part. -/
theorem throw_bind {e : ConstructError} {next : α → Execution β} (here : cause e) :
    (throw e >>= next).Raises cause := by
  rintro frame _ ⟨⟩
  exact here

theorem lift_ok (a : α) : (liftM (Except.ok a : Except ConstructError α) : Execution α).Raises
    cause := nofun

protected theorem get : (get : Execution Frame).Raises cause := nofun

protected theorem set (frame : Frame) : (set frame : Execution PUnit).Raises cause := nofun

protected theorem modify (f : Frame → Frame) : (modify f : Execution PUnit).Raises cause := nofun

theorem pop {offset : Nat} (underflow : cause (.stackUnderflow offset)) :
    (Execution.pop offset).Raises cause := by
  refine Raises.get.bind fun frame => ?_
  split
  · exact Raises.throw underflow
  · exact (Raises.set _).bind fun _ => Raises.pure _

theorem popThis {offset : Nat} (underflow : cause (.stackUnderflow offset))
    (notThis : cause (.notThis offset)) : (Execution.popThis offset).Raises cause := by
  refine (pop underflow).bind fun value => ?_
  split
  · exact Raises.throw notThis
  · exact Raises.pure ()

theorem constant {i : Instruction} {find : UInt16 → Option α}
    (bad : i.poolIndex?.bind find = none → cause (.badConstant (i.poolIndex?.getD 0) i.offset)) :
    (Execution.constant i find).Raises cause := by
  unfold Execution.constant
  split
  · exact Raises.pure _
  · next none => exact Raises.throw (bad none)

end Execution.Raises

namespace LoadedType

variable {t : LoadedType} {i : Instruction}

/-- How an instruction of a sound body fails by itself: what it finds on the stack or in the class
is not what it needs, or the constant that it loads has no value. -/
inductive Fault (t : LoadedType) (i : Instruction) : ConstructError → Prop
  | content {e : ConstructError} (other : e.isStructural = false) : Fault t i e
  | constant {index : UInt16} (loads : i.opcode = .ldc ∨ i.opcode = .ldc_w)
      (used : i.poolIndex? = some index)
      (kind : t.classFile.pool.Holds [.methodType, .methodHandle, .dynamic] index) :
      Fault t i (.badConstant index i.offset)

/-- The entry that a store or a call of a sound body names is a field or a method. -/
theorem member_found (whole : i.Whole)
    (entries : ∀ index, i.poolIndex? = some index →
      t.classFile.pool.Holds i.opcode.operandKinds index)
    (linked : ∀ e ∈ t.classFile.pool.entries, e.Linked t.classFile.pool)
    (uses : i.opcode = .putfield ∨ i.opcode = .invokespecial) :
    i.poolIndex?.bind t.classFile.pool.member? ≠ none := by
  obtain ⟨index, used⟩ := Option.isSome_iff_exists.mp <|
    whole.isSome_poolIndex?.mpr (by rcases uses with h | h <;> rw [h] <;> decide)
  have holds : t.classFile.pool.Holds [.fieldRef, .methodRef, .interfaceMethodRef] index := by
    refine (entries index used).mono ?_
    rcases uses with h | h <;> rw [h] <;> decide
  obtain ⟨member, found⟩ := holds.member? linked
  simp [used, found]

/-- Next to super constructors that do not fail, an instruction fails by itself. -/
theorem raises_execute (whole : i.Whole)
    (entries : ∀ index, i.poolIndex? = some index →
      t.classFile.pool.Holds i.opcode.operandKinds index)
    (linked : ∀ e ∈ t.classFile.pool.entries, e.Linked t.classFile.pool) :
    (t.execute (fun _ fields => .ok fields) i).Raises (t.Fault i) := by
  cases h : i.opcode
  case aload_0 | aconst_null | iconst_m1 | iconst_0 | iconst_1 | iconst_2 | iconst_3 | iconst_4
      | iconst_5 =>
    rw [execute, h]
    exact (Execution.Raises.modify _).bind fun _ => Execution.Raises.pure _
  case bipush | sipush =>
    obtain ⟨value, found⟩ := Option.isSome_iff_exists.mp <|
      whole.isSome_immediate?.mpr (by rw [h]; decide)
    rw [execute, h]
    simp only [found]
    exact (Execution.Raises.modify _).bind fun _ => Execution.Raises.pure _
  case ldc | ldc_w =>
    rw [execute, h]
    refine (Execution.Raises.constant fun bad => ?_).bind fun _ =>
      (Execution.Raises.modify _).bind fun _ => Execution.Raises.pure _
    obtain ⟨index, used⟩ := Option.isSome_iff_exists.mp <|
      whole.isSome_poolIndex?.mpr (by rw [h]; decide)
    rw [used] at bad ⊢
    have holds := entries index used
    rw [h] at holds
    exact .constant (by simp [h]) used (Pool.Holds.ofConstant? linked holds bad)
  case ldc2_w =>
    rw [execute, h]
    refine (Execution.Raises.constant fun bad => ?_).bind fun _ =>
      (Execution.Raises.modify _).bind fun _ => Execution.Raises.pure _
    obtain ⟨index, used⟩ := Option.isSome_iff_exists.mp <|
      whole.isSome_poolIndex?.mpr (by rw [h]; decide)
    rw [used] at bad
    have holds := entries index used
    rw [h] at holds
    exact absurd bad holds.ofConstant?_wide
  case dup =>
    rw [execute, h]
    refine (Execution.Raises.pop (.content rfl)).bind fun _ => ?_
    exact (Execution.Raises.modify _).bind fun _ => (Execution.Raises.modify _).bind fun _ =>
      Execution.Raises.pure _
  case pop =>
    rw [execute, h]
    exact ((Execution.Raises.pop (.content rfl)).bind fun _ => Execution.Raises.pure _).bind
      fun _ => Execution.Raises.pure _
  case putfield =>
    rw [execute, h]
    refine (Execution.Raises.pop (.content rfl)).bind fun value => ?_
    refine (Execution.Raises.popThis (.content rfl) (.content rfl)).bind fun _ => ?_
    refine (Execution.Raises.constant fun bad => ?_).bind fun field => ?_
    · exact absurd bad (member_found whole entries linked (.inl h))
    · split
      · exact Execution.Raises.throw_bind (.content rfl)
      · exact (Execution.Raises.modify _).bind fun _ => Execution.Raises.pure _
  case invokespecial =>
    rw [execute, h]
    refine (Execution.Raises.popThis (.content rfl) (.content rfl)).bind fun _ => ?_
    refine Execution.Raises.get.bind fun frame => ?_
    split
    · exact Execution.Raises.throw_bind (.content rfl)
    refine (Execution.Raises.constant fun bad => ?_).bind fun method => ?_
    · exact absurd bad (member_found whole entries linked (.inr h))
    · split
      · exact Execution.Raises.throw_bind (.content rfl)
      · -- Here the super constructor does not fail, and what follows the call cannot.
        refine Execution.Raises.get.bind fun frame => (Execution.Raises.lift_ok _).bind fun _ => ?_
        exact (Execution.Raises.modify _).bind fun _ => Execution.Raises.pure _
  case return_ =>
    rw [execute, h]
    refine Execution.Raises.get.bind fun frame => ?_
    split
    · exact Execution.Raises.throw_bind (.content rfl)
    · exact Execution.Raises.pure _
  all_goals
    rw [execute, h]
    exact Execution.Raises.throw (.content rfl)

/-! ### The instruction that fails -/

/-- Instructions that are executed one after the other, none of which returns. -/
inductive Passes (t : LoadedType) (callSuper : SuperCall) : List Instruction → Frame → Frame → Prop
  | nil {frame : Frame} : Passes t callSuper [] frame frame
  | cons {i : Instruction} {rest : List Instruction} {before middle after : Frame}
      (step : t.execute callSuper i before = .ok (false, middle))
      (more : Passes t callSuper rest middle after) : Passes t callSuper (i :: rest) before after

/-- The constructor, run on these fields, comes to execute the instruction, in this frame. -/
def Executes (t : LoadedType) (callSuper : SuperCall) (fields : Fields) (i : Instruction)
    (frame : Frame) : Prop :=
  ∃ before after, t.constructorBody = .ok (before ++ i :: after) ∧
    t.Passes callSuper before { fields } frame

/-- In this frame the instruction calls the constructor of the super type. -/
def CallsSuper (t : LoadedType) (i : Instruction) (frame : Frame) (owner : String) : Prop :=
  t.classFile.superName? = some owner ∧ ∃ stack, ∀ callSuper : SuperCall,
    t.execute callSuper i frame =
      (callSuper owner frame.fields).map fun fields => (false, ⟨stack, true, fields⟩)

/-- The type has no constructor with a body: it declares none, or an abstract or a native one. -/
def Bodiless (t : LoadedType) : Prop :=
  ∀ m, t.classFile.constructor? = some m →
    Access.has m.access Access.isAbstract = true ∨ Access.has m.access Access.isNative = true

variable {callSuper : SuperCall} {frame : Frame} {e : ConstructError}

/-- An instruction fails by itself, or the super constructor that it calls fails. -/
theorem execute_error (whole : i.Whole)
    (entries : ∀ index, i.poolIndex? = some index →
      t.classFile.pool.Holds i.opcode.operandKinds index)
    (linked : ∀ e ∈ t.classFile.pool.entries, e.Linked t.classFile.pool)
    (failed : t.execute callSuper i frame = .error e) :
    t.Fault i e ∨
      ∃ owner, t.CallsSuper i frame owner ∧ callSuper owner frame.fields = .error e := by
  cases t.conduct i frame.stack frame.superCalled with
  | fails e' _ run =>
    obtain rfl : e' = e := Except.error.inj ((run callSuper frame.fields).symm.trans failed)
    exact .inl (raises_execute whole entries linked frame e' (run _ frame.fields))
  | returns _ run => cases (run callSuper frame.fields).symm.trans failed
  | goesOn stack' stores run => cases (run callSuper frame.fields).symm.trans failed
  | calls before owner stack' super run =>
    refine .inr ⟨owner, ⟨super, stack', fun callSuper => run callSuper frame.fields⟩, ?_⟩
    exact Except.map_eq_error.mp ((run callSuper frame.fields).symm.trans failed)

/-- Nothing passes a terminator: a return returns, and constructors know no other. -/
theorem execute_terminator (terminator : i.opcode.isTerminator = true) (after : Frame) :
    t.execute callSuper i frame ≠ .ok (false, after) := by
  cases h : i.opcode
  case return_ =>
    obtain ⟨stack, called, fields⟩ := frame
    cases called with
    | true =>
      have run : t.execute callSuper i ⟨stack, true, fields⟩ =
          .ok (true, ⟨stack, true, fields⟩) := by
        rw [execute, h]
        rfl
      rw [run]
      rintro ⟨⟩
    | false =>
      have run : t.execute callSuper i ⟨stack, false, fields⟩ =
          .error (.missingSuperCall t.name) := by
        rw [execute, h]
        rfl
      rw [run]
      rintro ⟨⟩
  case goto | goto_w | tableswitch | lookupswitch | ireturn | lreturn | freturn | dreturn | areturn
      | athrow | ret =>
    rw [execute, h]
    rintro ⟨⟩
  all_goals
    rw [h] at terminator
    cases terminator

/-- Instructions fail at one of them, unless all of them pass. -/
theorem executeAll_error {body : List Instruction}
    (failed : t.executeAll callSuper body frame = .error e) :
    (∃ before i after frame', body = before ++ i :: after ∧
      t.Passes callSuper before frame frame' ∧ t.execute callSuper i frame' = .error e) ∨
    ∃ frame', t.Passes callSuper body frame frame' := by
  induction body generalizing frame with
  | nil => exact .inr ⟨frame, .nil⟩
  | cons i body ih =>
    have first : t.executeAll callSuper (i :: body) frame =
        t.execute callSuper i frame >>= fun (returned, frame) =>
          (if !returned then t.executeAll callSuper body else pure ()) frame := rfl
    rw [first] at failed
    cases step : t.execute callSuper i frame with
    | error e' =>
      rw [step] at failed
      cases failed
      exact .inl ⟨[], i, body, frame, rfl, .nil, step⟩
    | ok r =>
      obtain ⟨returned, middle⟩ := r
      rw [step] at failed
      cases returned with
      | true => cases failed
      | false =>
        rcases ih failed with ⟨before, j, after, frame', rfl, passed, here⟩ | ⟨frame', passed⟩
        · exact .inl ⟨i :: before, j, after, frame', rfl, .cons step passed, here⟩
        · exact .inr ⟨frame', .cons step passed⟩

theorem Passes.last_goesOn {body : List Instruction} {frame' : Frame} {last : Instruction}
    (passed : t.Passes callSuper body frame frame') (ends : body.getLast? = some last) :
    last.opcode.isTerminator = false := by
  induction passed with
  | nil => cases ends
  | @cons i rest before middle after step more ih =>
    cases rest with
    | nil =>
      rw [List.getLast?_singleton, Option.some.injEq] at ends
      subst ends
      by_contra terminator
      exact execute_terminator (Bool.not_eq_false _ ▸ terminator) middle step
    | cons j rest => exact ih (by rwa [List.getLast?_cons_cons] at ends)

/-! ### The constructors of verified classes -/

/-- The constructor of a verified class has no body because it is not declared, or is abstract or
native; or it has one, and this is a sound row of whole instructions, at least one of them. -/
theorem constructorBody_of_verified (verified : t.classFile.verify = .ok ()) :
    (t.constructorBody = .error (.missingBody t.name) ∧ t.Bodiless) ∨
      ∃ body maxLocals, t.constructorBody = .ok body ∧ body ≠ [] ∧ (∀ i ∈ body, i.Whole) ∧
        Instruction.SoundRow t.classFile.pool maxLocals body := by
  cases found : t.classFile.constructor? with
  | none =>
    refine .inl ⟨by rw [constructorBody, found], fun m declared => ?_⟩
    rw [found] at declared
    cases declared
  | some m =>
    have sound := (ClassFile.sound_of_verify verified).bodies m (List.mem_of_find?_eq_some found)
    have rule := Member.soundBody_iff.mp sound
    split at rule
    · next bodiless =>
      refine .inl ⟨by rw [constructorBody, found]; simp only [rule], fun m' declared => ?_⟩
      obtain rfl := Option.some.inj (found.symm.trans declared)
      rwa [Access.has_or, Bool.or_eq_true] at bodiless
    · obtain ⟨code, body, ⟨nonempty, -⟩, is, tiles, row⟩ := rule
      refine .inr ⟨is, code.maxLocals, ?_, ?_, tiles.whole, row⟩
      · rw [constructorBody, found]
        simp only [body, Instruction.split_eq_ok.mpr tiles]
        rfl
      · obtain ⟨i, member, -⟩ := tiles.starts (List.ne_nil_of_length_pos nonempty)
        exact List.ne_nil_of_mem member

/-- Why the constructor of a verified class fails: it has no body, or comes to an instruction that
fails by itself or calls a super constructor that fails. -/
theorem runConstructor_error {fields : Fields} (verified : t.classFile.verify = .ok ())
    (failed : t.runConstructor callSuper fields = .error e) :
    (e = .missingBody t.name ∧ t.Bodiless) ∨
      ∃ i frame, t.Executes callSuper fields i frame ∧ (t.Fault i e ∨
        ∃ owner, t.CallsSuper i frame owner ∧ callSuper owner frame.fields = .error e) := by
  rcases constructorBody_of_verified verified with
    ⟨missing, bodiless⟩ | ⟨body, maxLocals, isBody, some, whole, row⟩
  · rw [runConstructor, missing] at failed
    cases failed
    exact .inl ⟨rfl, bodiless⟩
  · rw [runConstructor, isBody] at failed
    have stops : t.executeAll callSuper body { fields } = .error e := Except.map_eq_error.mp failed
    have linked := (ClassFile.sound_of_verify verified).entries
    rcases executeAll_error stops with ⟨before, i, after, frame, rfl, passed, here⟩ | ⟨_, passed⟩
    · have member : i ∈ before ++ i :: after := List.mem_append_right _ List.mem_cons_self
      exact .inr ⟨i, frame, ⟨before, after, isBody, passed⟩,
        execute_error (whole i member) (row.entries i member) linked here⟩
    · -- The last instruction is a terminator, which nothing passes.
      have ends := List.getLast?_eq_some_getLast some
      exact absurd (row.ending _ ends) (by simp [passed.last_goesOn ends])

end LoadedType

end ClassBench
