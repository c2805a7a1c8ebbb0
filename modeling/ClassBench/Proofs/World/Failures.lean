import ClassBench.Proofs.Constructor.Failures
import ClassBench.Proofs.World.ConstructorChain

/-! What stops the constructors of loaded types.  Loaded classes are verified, so the constructor
that an instantiation runs, and those of the loaded super types that it comes to run in turn, never
turn out to be malformed or to lack a return.  Each failure is traced to the constructor that it
comes from. -/

namespace ClassBench

namespace World

variable {w : World} {id : ScopeId} {fuel : Nat} {t u : LoadedType} {fields fields' : Fields}
  {call : LoadedType.SuperCall} {e : ConstructError}

/-- The constructors that the constructor of a type, run on these fields in a chain of fewer than
`fuel` types, comes to run, each with the fields that it is run on and what it has run for its super
constructor: itself, and what the constructor of the loaded type that it calls comes to run. -/
inductive Enters (w : World) (id : ScopeId) : Nat → LoadedType → Fields → LoadedType →
    LoadedType.SuperCall → Fields → Prop
  | self {fuel : Nat} {t : LoadedType} {fields : Fields} :
    Enters w id (fuel + 1) t fields t (w.callSuper id fuel) fields
  | super {fuel : Nat} {t u v : LoadedType} {fields fields' : Fields} {i : Instruction}
      {frame : Frame} {owner : String} {call : LoadedType.SuperCall}
      (comes : t.Executes (w.callSuper id fuel) fields i frame) (calls : t.CallsSuper i frame owner)
      (loaded : w.loaded? id owner = some u)
      (further : Enters w id fuel u frame.fields v call fields') :
    Enters w id (fuel + 1) t fields v call fields'

/-- What stops a chain of constructors of verified types: one of them has no body, or one executes a
load of a constant that has no value, or what stops it is of another nature. -/
inductive Cause (w : World) (id : ScopeId) (fuel : Nat) (t : LoadedType) (fields : Fields) :
    ConstructError → Prop
  | bodiless {u : LoadedType} {call : LoadedType.SuperCall} {fields' : Fields}
      (entered : w.Enters id fuel t fields u call fields') (bodiless : u.Bodiless) :
      Cause w id fuel t fields (.missingBody u.name)
  | constant {u : LoadedType} {call : LoadedType.SuperCall} {fields' : Fields} {i : Instruction}
      {frame : Frame} {index : UInt16} (entered : w.Enters id fuel t fields u call fields')
      (comes : u.Executes call fields' i frame) (loads : i.opcode = .ldc ∨ i.opcode = .ldc_w)
      (used : i.poolIndex? = some index)
      (kind : u.classFile.pool.Holds [.methodType, .methodHandle, .dynamic] index) :
      Cause w id fuel t fields (.badConstant index i.offset)
  | other {e : ConstructError} (other : e.isStructural = false) : Cause w id fuel t fields e

theorem Enters.mem (entered : w.Enters id fuel t fields u call fields')
    (ht : t ∈ w.loadedOf id) : u ∈ w.loadedOf id := by
  induction entered with
  | self => exact ht
  | super comes calls loaded further ih => exact ih (loaded?_eq_some loaded).1

/-- What stops the super constructor that a constructor calls stops that constructor. -/
theorem Cause.of_super {i : Instruction} {frame : Frame} {owner : String}
    (comes : t.Executes (w.callSuper id fuel) fields i frame) (calls : t.CallsSuper i frame owner)
    (loaded : w.loaded? id owner = some u) (cause : w.Cause id fuel u frame.fields e) :
    w.Cause id (fuel + 1) t fields e := by
  cases cause with
  | bodiless entered bodiless => exact .bodiless (.super comes calls loaded entered) bodiless
  | constant entered executes loads used kind =>
    exact .constant (.super comes calls loaded entered) executes loads used kind
  | other other => exact .other other

theorem callSuper_absent_error {owner : String} (absent : w.loaded? id owner = none)
    (failed : w.callSuper id fuel owner fields = .error e) : e = .noDefaultConstructor owner := by
  rw [callSuper, absent] at failed
  cases found : w.resolve? id owner with
  | none =>
    rw [found] at failed
    exact (Except.error.inj failed).symm
  | some host =>
    simp only [found] at failed
    split at failed
    · cases failed
    · exact (Except.error.inj failed).symm

theorem runChain_error (verified : ∀ u ∈ w.loadedOf id, u.classFile.verify = .ok ())
    (ht : t ∈ w.loadedOf id) (failed : w.runChain id fuel t fields = .error e) :
    w.Cause id fuel t fields e := by
  induction fuel generalizing t fields with
  | zero =>
    -- A chain that goes on for too long is no fault of a body.
    cases failed
    exact .other rfl
  | succ fuel ih =>
    rw [runChain_succ] at failed
    rcases LoadedType.runConstructor_error (verified t ht) failed with
      ⟨rfl, bodiless⟩ | ⟨i, frame, comes, fault | ⟨owner, calls, stops⟩⟩
    · exact .bodiless .self bodiless
    · cases fault with
      | content other => exact .other other
      | constant loads used kind => exact .constant .self comes loads used kind
    · cases loaded : w.loaded? id owner with
      | none =>
        rw [callSuper_absent_error loaded stops]
        exact .other rfl
      | some u =>
        rw [callSuper_loaded loaded] at stops
        exact (ih (loaded?_eq_some loaded).1 stops).of_super comes calls loaded

/-- An instantiation that fails in a constructor ran the chain of constructors from the type. -/
theorem instantiate_constructor_error {name typeName : String}
    (failed : w.instantiate id name = .error (.constructor typeName e)) :
    typeName = name ∧ ∃ t, w.loaded? id name = some t ∧ w.construct id t = .error e := by
  rw [instantiate] at failed
  cases loaded : w.loaded? id name with
  | none =>
    rw [loaded] at failed
    cases failed
  | some t =>
    simp only [loaded] at failed
    split at failed
    · cases failed
    split at failed
    · cases failed
    cases made : w.construct id t with
    | ok fields =>
      rw [made] at failed
      cases failed
    | error e' =>
      rw [made] at failed
      cases failed
      exact ⟨rfl, t, rfl, made⟩

/-- After every history, when the constructor of a loaded type fails, it is never because a body is
malformed or does not return.  It fails at an unusable constant only where a constructor that was
entered executes a load of a constant and names a method type, a method handle or a dynamic
constant, and it lacks a body only where a loaded type whose constructor was entered declares none,
or an abstract or a native one. -/
theorem constructor_failures (operations : List Operation) (id : ScopeId) (name typeName : String)
    (e : ConstructError)
    (failed : (after operations).instantiate id name = .error (.constructor typeName e)) :
    let w := after operations
    typeName = name ∧ ∃ t, w.loaded? id name = some t ∧
      (∀ text, e ≠ .malformed text) ∧ (∀ last, e ≠ .noReturn last) ∧
      (∀ index offset, e = .badConstant index offset →
        ∃ u ∈ w.loadedOf id, ∃ call fields,
          w.Enters id ((w.loadedOf id).length + 1) t [] u call fields ∧
          ∃ i frame, u.Executes call fields i frame ∧ (i.opcode = .ldc ∨ i.opcode = .ldc_w) ∧
            i.offset = offset ∧ i.poolIndex? = some index ∧
            u.classFile.pool.Holds [.methodType, .methodHandle, .dynamic] index) ∧
      (∀ last, e = .missingBody last →
        ∃ u ∈ w.loadedOf id, ∃ call fields,
          w.Enters id ((w.loadedOf id).length + 1) t [] u call fields ∧ u.name = last ∧
            u.Bodiless) := by
  intro w
  obtain ⟨same, t, loaded, stopped⟩ := instantiate_constructor_error failed
  have ht := (loaded?_eq_some loaded).1
  have verified (u : LoadedType) (hu : u ∈ w.loadedOf id) : u.classFile.verify = .ok () :=
    ((loads_after operations id).holds u hu).faithful.verified
  rw [construct_eq] at stopped
  refine ⟨same, t, loaded, ?_⟩
  cases runChain_error verified ht stopped with
  | @bodiless u call fields entered bodiless =>
    refine ⟨nofun, nofun, nofun, ?_⟩
    rintro _ ⟨⟩
    exact ⟨u, entered.mem ht, call, fields, entered, rfl, bodiless⟩
  | @constant u call fields i frame _ entered comes loads used kind =>
    refine ⟨nofun, nofun, ?_, nofun⟩
    rintro _ _ ⟨⟩
    exact ⟨u, entered.mem ht, call, fields, entered, i, frame, comes, loads, rfl, used, kind⟩
  | other other =>
    cases e with
    | missingBody | malformed | badConstant | noReturn => cases other
    | _ => exact ⟨nofun, nofun, nofun, nofun⟩

/-- The bytes of a class whose constructor loads a method type. -/
def methodTypeClass : Bytes :=
  let build : Assembly Unit := do
    Assembly.setAccess (Access.isPublic ||| Access.callsSuper)
    let type ← Assembly.onPool do Pool.intern (.methodType (← Pool.utf8 plainDescriptor))
    Assembly.addMethod Access.isPublic constructorName plainDescriptor
      { maxStack := 1, maxLocals := 1,
        code := [Opcode.ldc.byte, type.toUInt8, Opcode.return_.byte] }
  (build (ClassFile.new "S" objectName)).2.encode

/-- A class is loaded below one whose constructor loads a method type, and below one that declares
no constructor. -/
theorem constructor_failures_super :
    let below (super : Bytes) : List Operation :=
      [.bootstrap, .isolated ⟨0⟩, .define ⟨1⟩ super, .define ⟨1⟩ (chainClass "T" "S" 0x0021)]
    let loading := below methodTypeClass
    let bodiless := below (ClassFile.new "S" objectName).encode
    (after loading).instantiate ⟨1⟩ "T" = .error (.constructor "T" (.badConstant 6 0)) ∧
      (∃ u ∈ (after loading).loadedOf ⟨1⟩, ∃ i call fields frame, u.Executes call fields i frame ∧
        (i.opcode = .ldc ∨ i.opcode = .ldc_w) ∧ i.poolIndex? = some 6 ∧
        u.classFile.pool.Holds [.methodType, .methodHandle, .dynamic] 6) ∧
    (after bodiless).instantiate ⟨1⟩ "T" = .error (.constructor "T" (.missingBody "S")) ∧
      ∃ u ∈ (after bodiless).loadedOf ⟨1⟩, u.name = "S" ∧ u.Bodiless := by
  intro below loading bodiless
  have first : (after loading).instantiate ⟨1⟩ "T" =
      .error (.constructor "T" (.badConstant 6 0)) :=
    (Except.map_eq_error (f := fun _ => ())).mp (by decide +kernel)
  have second : (after bodiless).instantiate ⟨1⟩ "T" =
      .error (.constructor "T" (.missingBody "S")) :=
    (Except.map_eq_error (f := fun _ => ())).mp (by decide +kernel)
  refine ⟨first, ?_, second, ?_⟩
  · obtain ⟨-, t, -, -, -, constant, -⟩ := constructor_failures loading ⟨1⟩ "T" "T" _ first
    obtain ⟨u, hu, call, fields, -, i, frame, comes, loads, -, used, kind⟩ := constant 6 0 rfl
    exact ⟨u, hu, i, call, fields, frame, comes, loads, used, kind⟩
  · obtain ⟨-, t, -, -, -, -, missing⟩ := constructor_failures bodiless ⟨1⟩ "T" "T" _ second
    obtain ⟨u, hu, call, fields, -, named, without⟩ := missing "S" rfl
    exact ⟨u, hu, named, without⟩

end World

end ClassBench
