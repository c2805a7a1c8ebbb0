import ClassBench.Constructor

/-! What the body of a constructor does, whatever the fields of the instance are.  Fields are only
ever stored, never read, so every instruction fails, returns, stores, or calls the constructor of
the super type, and which of these it does depends on the operand stack alone.  The super
constructor is called at most once, and no body returns without the call.  So a constructor either
fails before the call, or it stores into fields, calls, and then stores into the fields that come
back. -/

namespace ClassBench

/-- Whether the error tells of a chain without end, which no constructor runs into by itself. -/
def ConstructError.isEndless : ConstructError → Bool
  | .endlessChain _ => true
  | _ => false

/-- Stores under names, in a row. -/
def Fields.storeAll (fields : Fields) (stores : List (String × Value)) : Fields :=
  stores.foldl (fun fields s => fields.store s.1 s.2) fields

theorem Fields.storeAll_append (fields : Fields) (first second : List (String × Value)) :
    fields.storeAll (first ++ second) = (fields.storeAll first).storeAll second :=
  List.foldl_append

namespace LoadedType

/-- What runs the constructor of a type, by its name, on the fields of an instance. -/
abbrev SuperCall := String → Fields → Except ConstructError Fields

/-! ### One instruction -/

/-- What an instruction does on an operand stack, before or after the super constructor was called,
to all fields alike. -/
inductive Conduct (t : LoadedType) (i : Instruction) (stack : List Value) (called : Bool) : Prop
  | fails (e : ConstructError) (own : e.isEndless = false)
      (run : ∀ (callSuper : SuperCall) fields,
        t.execute callSuper i ⟨stack, called, fields⟩ = .error e)
  | returns (after : called = true)
      (run : ∀ (callSuper : SuperCall) fields,
        t.execute callSuper i ⟨stack, called, fields⟩ = .ok (true, ⟨stack, called, fields⟩))
  | goesOn (stack' : List Value) (stores : List (String × Value))
      (run : ∀ (callSuper : SuperCall) fields,
        t.execute callSuper i ⟨stack, called, fields⟩ =
          .ok (false, ⟨stack', called, fields.storeAll stores⟩))
  | calls (before : called = false) (owner : String) (stack' : List Value)
      (super : t.classFile.superName? = some owner)
      (run : ∀ (callSuper : SuperCall) fields,
        t.execute callSuper i ⟨stack, called, fields⟩ =
          (callSuper owner fields).map fun fields => (false, ⟨stack', true, fields⟩))

variable {t : LoadedType} {i : Instruction}

theorem conduct_push {stack : List Value} {called : Bool} (value : Value)
    (run : ∀ callSuper : SuperCall,
      t.execute callSuper i = (do Execution.push value; return false)) :
    t.Conduct i stack called :=
  .goesOn (value :: stack) [] fun callSuper _ => by rw [run callSuper]; rfl

theorem popThis_other {value : Value} (other : value ≠ .this) (offset : Nat) (rest : List Value)
    (called : Bool) (fields : Fields) :
    Execution.popThis offset ⟨value :: rest, called, fields⟩ = .error (.notThis offset) := by
  show (if value ≠ .this then throw (.notThis offset) else pure () : Execution Unit) _ = _
  rw [if_pos other]
  rfl

/-- A store needs a value above the instance, and a field that the type declares. -/
theorem conduct_putfield (stack : List Value) (called : Bool) (h : i.opcode = .putfield) :
    t.Conduct i stack called := by
  match stack with
  | [] => exact .fails (.stackUnderflow i.offset) rfl fun _ _ => by rw [execute, h]; rfl
  | [_] => exact .fails (.stackUnderflow i.offset) rfl fun _ _ => by rw [execute, h]; rfl
  | value :: receiver :: stack =>
    by_cases this : receiver = .this
    · subst this
      cases found : i.poolIndex?.bind t.classFile.pool.member? with
      | none =>
        refine .fails (.badConstant (i.poolIndex?.getD 0) i.offset) rfl fun _ _ => ?_
        rw [execute, h]
        simp only [Execution.constant, found]
        rfl
      | some field =>
        cases declared : t.declares field with
        | false =>
          refine .fails (.unknownField field.owner field.name) rfl fun _ _ => ?_
          rw [execute, h]
          simp only [Execution.constant, found, pure_bind, declared]
          rfl
        | true =>
          refine .goesOn stack [(field.name, value)] fun _ _ => ?_
          rw [execute, h]
          simp only [Execution.constant, found, pure_bind, declared]
          rfl
    · refine .fails (.notThis i.offset) rfl fun _ fields => ?_
      rw [execute, h]
      show Execution.popThis i.offset ⟨receiver :: stack, called, fields⟩ >>= _ = _
      rw [popThis_other this]
      rfl

/-- The first call of the constructor of the super type, on the instance. -/
theorem execute_invokespecial {method : MemberRef} (h : i.opcode = .invokespecial)
    (found : i.poolIndex?.bind t.classFile.pool.member? = some method)
    (super : t.isSuperConstructor method = true) (callSuper : SuperCall) (stack : List Value)
    (fields : Fields) :
    t.execute callSuper i ⟨.this :: stack, false, fields⟩ =
      (callSuper method.owner fields).map fun fields => (false, ⟨stack, true, fields⟩) := by
  rw [execute, h]
  simp only [Execution.constant, found, pure_bind, super]
  show (callSuper method.owner fields >>= fun fields => _) >>= _ = _
  cases callSuper method.owner fields <;> rfl

theorem superName?_of_isSuperConstructor {method : MemberRef}
    (super : t.isSuperConstructor method = true) :
    t.classFile.superName? = some method.owner := by
  simp only [isSuperConstructor, Bool.and_eq_true, beq_iff_eq] at super
  exact super.2

/-- The one call is that of the super constructor, and it is made once. -/
theorem conduct_invokespecial (stack : List Value) (called : Bool)
    (h : i.opcode = .invokespecial) : t.Conduct i stack called := by
  match stack with
  | [] => exact .fails (.stackUnderflow i.offset) rfl fun _ _ => by rw [execute, h]; rfl
  | receiver :: stack =>
    by_cases this : receiver = .this
    · subst this
      cases called with
      | true => exact .fails (.duplicateSuperCall t.name) rfl fun _ _ => by rw [execute, h]; rfl
      | false =>
        cases found : i.poolIndex?.bind t.classFile.pool.member? with
        | none =>
          refine .fails (.badConstant (i.poolIndex?.getD 0) i.offset) rfl fun _ _ => ?_
          rw [execute, h]
          simp only [Execution.constant, found]
          rfl
        | some method =>
          cases super : t.isSuperConstructor method with
          | false =>
            refine .fails (.invalidSuperCall method.owner method.name method.descriptor) rfl
              fun _ _ => ?_
            rw [execute, h]
            simp only [Execution.constant, found, pure_bind, super]
            rfl
          | true =>
            exact .calls rfl method.owner stack (superName?_of_isSuperConstructor super)
              fun callSuper fields => execute_invokespecial h found super callSuper stack fields
    · refine .fails (.notThis i.offset) rfl fun _ fields => ?_
      rw [execute, h]
      show Execution.popThis i.offset ⟨receiver :: stack, called, fields⟩ >>= _ = _
      rw [popThis_other this]
      rfl

/-- An instruction stops or goes on by the operand stack and the class file alone. -/
theorem conduct (t : LoadedType) (i : Instruction) (stack : List Value) (called : Bool) :
    t.Conduct i stack called := by
  cases h : i.opcode
  case aload_0 | aconst_null | iconst_m1 | iconst_0 | iconst_1 | iconst_2 | iconst_3 | iconst_4
      | iconst_5 =>
    exact conduct_push _ fun _ => by rw [execute, h]
  case bipush | sipush =>
    cases found : i.immediate? with
    | none =>
      refine .fails (.malformed s!"missing immediate at offset {i.offset}") rfl fun _ _ => ?_
      rw [execute, h]
      simp only [found]
      rfl
    | some value =>
      refine conduct_push (.int (Int32.ofInt value)) fun _ => ?_
      rw [execute, h]
      simp only [found]
  case ldc | ldc_w | ldc2_w =>
    cases found : i.poolIndex?.bind (Value.ofConstant? t.classFile.pool) with
    | none =>
      refine .fails (.badConstant (i.poolIndex?.getD 0) i.offset) rfl fun _ _ => ?_
      rw [execute, h]
      simp only [Execution.constant, found]
      rfl
    | some value =>
      refine conduct_push value fun _ => ?_
      rw [execute, h]
      simp only [Execution.constant, found, pure_bind]
  case dup =>
    match stack with
    | [] => exact .fails (.stackUnderflow i.offset) rfl fun _ _ => by rw [execute, h]; rfl
    | top :: rest => exact .goesOn (top :: top :: rest) [] fun _ _ => by rw [execute, h]; rfl
  case pop =>
    match stack with
    | [] => exact .fails (.stackUnderflow i.offset) rfl fun _ _ => by rw [execute, h]; rfl
    | _ :: rest => exact .goesOn rest [] fun _ _ => by rw [execute, h]; rfl
  case putfield => exact conduct_putfield stack called h
  case invokespecial => exact conduct_invokespecial stack called h
  case return_ =>
    cases called with
    | false => exact .fails (.missingSuperCall t.name) rfl fun _ _ => by rw [execute, h]; rfl
    | true => exact .returns rfl fun _ _ => by rw [execute, h]; rfl
  all_goals exact .fails (.unsupported _ i.offset) rfl fun _ _ => by rw [execute, h]; rfl

/-! ### The whole body -/

/-- The fields that instructions leave behind. -/
def fieldsAfter (t : LoadedType) (callSuper : SuperCall) (body : List Instruction)
    (frame : Frame) : Except ConstructError Fields :=
  (t.executeAll callSuper body frame).map fun r => r.2.fields

/-- The fields that the constructor leaves behind. -/
def runConstructor (t : LoadedType) (callSuper : SuperCall) (fields : Fields) :
    Except ConstructError Fields := do
  let body ← t.constructorBody
  t.fieldsAfter callSuper body { fields }

theorem fieldsAfter_cons (callSuper : SuperCall) (body : List Instruction) (frame : Frame) :
    t.fieldsAfter callSuper (i :: body) frame =
      match t.execute callSuper i frame with
      | .error e => .error e
      | .ok (true, frame) => .ok frame.fields
      | .ok (false, frame) => t.fieldsAfter callSuper body frame := by
  have first : t.executeAll callSuper (i :: body) frame =
      t.execute callSuper i frame >>= fun (returned, frame) =>
        (if !returned then t.executeAll callSuper body else pure ()) frame := rfl
  rw [fieldsAfter, first]
  cases t.execute callSuper i frame with
  | error e => rfl
  | ok r =>
    obtain ⟨returned, frame⟩ := r
    cases returned <;> rfl

/-- After the call of the super constructor instructions only store, and fail or return. -/
theorem fieldsAfter_called (body : List Instruction) (stack : List Value) :
    ∃ rest : Except ConstructError (List (String × Value)),
      (∀ e, rest = .error e → e.isEndless = false) ∧ ∀ (callSuper : SuperCall) fields,
        t.fieldsAfter callSuper body ⟨stack, true, fields⟩ = rest.map fields.storeAll := by
  induction body generalizing stack with
  | nil =>
    refine ⟨.error (.noReturn t.name), ?_, fun _ _ => rfl⟩
    rintro _ ⟨⟩
    rfl
  | cons i body ih =>
    cases t.conduct i stack true with
    | fails e own run =>
      refine ⟨.error e, ?_, fun callSuper fields => by rw [fieldsAfter_cons, run]; rfl⟩
      rintro _ ⟨⟩
      exact own
    | returns _ run =>
      exact ⟨.ok [], by simp, fun callSuper fields => by rw [fieldsAfter_cons, run]; rfl⟩
    | goesOn stack' stores run =>
      obtain ⟨rest, own, runs⟩ := ih stack'
      cases rest with
      | error e =>
        refine ⟨.error e, own, fun callSuper fields => ?_⟩
        rw [fieldsAfter_cons, run]
        exact runs callSuper _
      | ok later =>
        refine ⟨.ok (stores ++ later), by simp, fun callSuper fields => ?_⟩
        rw [fieldsAfter_cons, run]
        refine (runs callSuper _).trans ?_
        rw [Except.map, Except.map, Fields.storeAll_append]
    | calls before => exact absurd before (by decide)

/-- How a constructor treats all fields alike: it fails before it calls the super constructor, or
it stores, calls the super constructor once, and then stores and fails or returns. -/
inductive Discipline (t : LoadedType)
    (run : SuperCall → Fields → Except ConstructError Fields) : Prop
  | fails (e : ConstructError) (own : e.isEndless = false)
      (stops : ∀ callSuper fields, run callSuper fields = .error e)
  | calls (owner : String) (super : t.classFile.superName? = some owner)
      (before : List (String × Value)) (rest : Except ConstructError (List (String × Value)))
      (own : ∀ e, rest = .error e → e.isEndless = false)
      (runs : ∀ callSuper fields, run callSuper fields =
        callSuper owner (fields.storeAll before) >>= fun fields => rest.map fields.storeAll)

theorem discipline_body (body : List Instruction) (stack : List Value) :
    t.Discipline fun callSuper fields => t.fieldsAfter callSuper body ⟨stack, false, fields⟩ := by
  -- The call of the super constructor is the one step that leads out of the induction.
  induction body generalizing stack with
  | nil => exact .fails (.noReturn t.name) rfl fun _ _ => rfl
  | cons i body ih =>
    cases t.conduct i stack false with
    | fails e own run =>
      exact .fails e own fun callSuper fields => by rw [fieldsAfter_cons, run]
    | returns after => exact absurd after (by decide)
    | goesOn stack' stores run =>
      cases ih stack' with
      | fails e own stops =>
        refine .fails e own fun callSuper fields => ?_
        rw [fieldsAfter_cons, run]
        exact stops callSuper _
      | calls owner super before rest own runs =>
        refine .calls owner super (stores ++ before) rest own fun callSuper fields => ?_
        rw [fieldsAfter_cons, run, Fields.storeAll_append]
        exact runs callSuper _
    | calls _ owner stack' super run =>
      obtain ⟨rest, own, runs⟩ := t.fieldsAfter_called body stack'
      refine .calls owner super [] rest own fun callSuper fields => ?_
      rw [fieldsAfter_cons, run]
      show _ = callSuper owner fields >>= _
      cases callSuper owner fields with
      | error e => rfl
      | ok fields => exact runs callSuper fields

theorem constructorBody_error {e : ConstructError} (failed : t.constructorBody = .error e) :
    e.isEndless = false := by
  unfold constructorBody at failed
  split at failed
  · cases failed
    rfl
  · split at failed
    · cases failed
      rfl
    · cases failed
      rfl
    · next code _ =>
      cases split : Instruction.split code.code with
      | error source =>
        rw [split] at failed
        cases failed
        rfl
      | ok body =>
        rw [split] at failed
        cases failed

/-- Every constructor keeps the discipline. -/
theorem discipline (t : LoadedType) : t.Discipline t.runConstructor := by
  cases body : t.constructorBody with
  | error e =>
    refine .fails e (constructorBody_error body) fun callSuper fields => ?_
    rw [runConstructor, body]
    rfl
  | ok body' =>
    have same (callSuper : SuperCall) (fields : Fields) : t.runConstructor callSuper fields =
        t.fieldsAfter callSuper body' ⟨[], false, fields⟩ := by
      rw [runConstructor, body]
      rfl
    cases t.discipline_body body' [] with
    | fails e own stops => exact .fails e own fun callSuper fields => (same _ _).trans (stops _ _)
    | calls owner super before rest own runs =>
      exact .calls owner super before rest own fun _ _ => (same _ _).trans (runs _ _)

end LoadedType

end ClassBench
