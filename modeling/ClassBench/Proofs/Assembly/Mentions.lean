import ClassBench.Fixture
import ClassBench.Proofs.Assembly.Drafting
import ClassBench.Proofs.Assembly.Steps
import ClassBench.Proofs.Pool.Mentions

/-! What the steps of assembling mention.  A step on a body or on a class adds to the pool the
classes that it names, whether or not the member that it belongs to is finished: the pool keeps
what a draft has interned also when the draft is dropped or refused.  A step that is refused before
it begins mentions nothing. -/

namespace ClassBench

open Pool (Accrues)

/-! ### Steps on bodies -/

namespace Drafting

variable {raw : List Constant} {names : List String} {α : Type} {step : StateM Pool α}

theorem accrues_onPool (accrues : Accrues id step raw names) :
    Accrues MethodDraft.pool (onPool step) raw names :=
  accrues.lift MethodDraft.pool (fun _ => rfl) fun _ => rfl

theorem pool_accessLocal (access : LocalAccess) (index : UInt16) (d : MethodDraft) :
    (accessLocal access index d).2.pool = d.pool := by
  obtain ⟨code, same⟩ := accessLocal_eq access index d
  rw [same]
  rfl

theorem pool_loadConstant (index : UInt16) (d : MethodDraft) :
    (loadConstant index d).2.pool = d.pool := by
  obtain ⟨code, same⟩ := loadConstant_eq index d
  rw [same]
  rfl

theorem accrues_iconst (value : Int32) : Accrues MethodDraft.pool (iconst value) [] [] := by
  unfold iconst
  split
  · exact .of_same fun _ => rfl
  · split
    · exact .of_same fun _ => rfl
    · split
      · exact .of_same fun _ => rfl
      · exact (accrues_onPool (Pool.accrues_integer value)).before pool_loadConstant

theorem accrues_callInterface (method : MemberRef) :
    Accrues MethodDraft.pool (callInterface method) []
      (if (Descriptor.argumentSlots? method.descriptor).isSome then [method.owner] else []) := by
  unfold callInterface
  cases Descriptor.argumentSlots? method.descriptor with
  | none => exact .of_same fun _ => rfl
  | some slots =>
    exact (accrues_onPool (Pool.accrues_interfaceMethodRef method)).before fun _ _ => rfl

end Drafting

namespace MethodStep

open Drafting (accrues_onPool)

/-- The classes that a step names, as such or as the owner of a member.  A call of an interface
whose descriptor cannot be counted is refused before it names any. -/
def mentions : MethodStep → List String
  | newObject name | checkcast name => [name]
  | accessField _ field => [field.owner]
  | call _ method => [method.owner]
  | callInterface method =>
    if (Descriptor.argumentSlots? method.descriptor).isSome then [method.owner] else []
  | _ => []

/-- A step on a body adds the classes that it names. -/
theorem accrues (step : MethodStep) :
    Accrues MethodDraft.pool step.run [] step.mentions := by
  cases step with
  | emit | emitMany | emitU8 | emitU16 | emitI16 | setMaxStack | reserveLocals | lineNumber
  | branch => exact .of_same fun _ => rfl
  | accessLocal access index => exact .of_same (Drafting.pool_accessLocal access index)
  | iconst value => exact (Drafting.accrues_iconst value).before fun _ _ => rfl
  | ldcString text =>
    exact ((accrues_onPool (Pool.accrues_string text)).before Drafting.pool_loadConstant).before
      fun _ _ => rfl
  | newObject name | checkcast name =>
    exact ((accrues_onPool (Pool.accrues_classRef name)).before fun _ _ => rfl).before
      fun _ _ => rfl
  | accessField access field =>
    exact ((accrues_onPool (Pool.accrues_fieldRef field)).before fun _ _ => rfl).before
      fun _ _ => rfl
  | call kind method =>
    exact ((accrues_onPool (Pool.accrues_methodRef method)).before fun _ _ => rfl).before
      fun _ _ => rfl
  | callInterface method =>
    refine (Drafting.accrues_callInterface method).before fun answer _ => ?_
    cases answer <;> rfl
  | patchJump offset target =>
    refine .of_same fun d => ?_
    rcases run_patchJump offset target d with ⟨e, refused⟩ | ⟨-, -, set⟩
    · rw [refused]
    · rw [set]
      rfl

theorem accrues_all (steps : List MethodStep) :
    Accrues MethodDraft.pool (steps.mapM run) [] (steps.flatMap mentions) := by
  have all := Accrues.mapM accrues steps
  rwa [List.flatMap_eq_nil_iff.mpr fun _ _ => rfl] at all

end MethodStep

/-! ### Steps on classes -/

namespace Assembly

theorem accrues_onPool {raw : List Constant} {names : List String} {α : Type} {step : StateM Pool α}
    (accrues : Accrues id step raw names) : Accrues ClassFile.pool (onPool step) raw names :=
  accrues.lift ClassFile.pool (fun _ => rfl) fun _ => rfl

theorem accrues_utf8 (text : String) : Accrues ClassFile.pool (onPool (Pool.utf8 text)) [] [] :=
  accrues_onPool (Pool.accrues_utf8 text)

theorem accrues_addInterface (name : String) :
    Accrues ClassFile.pool (addInterface name) [] [name] := by
  refine (accrues_onPool (Pool.accrues_classRef name)).before fun index c => ?_
  show ClassFile.pool (if c.interfaces.contains index then c else _) = c.pool
  split <;> rfl

theorem accrues_addMethod (access : UInt16) (name descriptor : String) (code : Code) :
    Accrues ClassFile.pool (addMethod access name descriptor code) [] [] :=
  (accrues_utf8 name).bind fun _ => (accrues_utf8 descriptor).bind fun _ =>
    (accrues_utf8 codeName).before fun _ _ => rfl

theorem accrues_addTo (d : MethodDraft) : Accrues ClassFile.pool d.addTo [] [] := by
  have lines : Accrues ClassFile.pool d.lineAttributes [] [] := by
    unfold MethodDraft.lineAttributes
    split
    · exact .of_same fun _ => rfl
    · exact (accrues_utf8 "LineNumberTable").before fun _ _ => rfl
  exact lines.bind fun _ => accrues_addMethod _ _ _ _

/-- Gives the class what becomes of a draft, which is left out if it is dropped. -/
def finishing (dropped : Bool) : Drafting Unit :=
  modify fun d => { d with owner := if dropped then d.owner else d.finish.2 }

theorem accrues_finishing (dropped : Bool) :
    Accrues MethodDraft.pool (finishing dropped) [] [] := by
  have cases (d : MethodDraft) : (finishing dropped d).2.pool = d.pool ∨
      (finishing dropped d).2.pool = (d.addTo d.owner).2.pool := by
    cases dropped with
    | true => exact .inl rfl
    | false =>
      show d.finish.2.pool = _ ∨ d.finish.2.pool = _
      unfold MethodDraft.finish
      split
      · exact .inl rfl
      · exact .inr rfl
  constructor
  · intro d
    rcases cases d with same | added
    · exact same ▸ .refl _
    · exact added ▸ (accrues_addTo d).growing d.owner
  · intro d q later few
    rcases cases d with same | added
    · exact same ▸ .refl q _
    · rw [added] at later ⊢
      exact (accrues_addTo d).gains later few

section WriteMethod

variable {c : ClassFile} {access : UInt16} {name descriptor : String}

theorem writeMethod_refused {e : BuildError}
    (refused : MethodDraft.start c access name descriptor = .error e) (steps : List MethodStep)
    (dropped : Bool) : (writeMethod access name descriptor steps dropped c).2 = c := by
  dsimp only [writeMethod, bind, StateT.bind, get, getThe, MonadStateOf.get, StateT.get, pure]
  rw [refused]
  rfl

theorem writeMethod_eq {draft : MethodDraft}
    (started : MethodDraft.start c access name descriptor = .ok draft)
    (steps : List MethodStep) (dropped : Bool) :
    (writeMethod access name descriptor steps dropped c).2 =
      (finishing dropped (steps.mapM MethodStep.run draft).2).2.owner := by
  dsimp only [writeMethod, bind, StateT.bind, get, getThe, MonadStateOf.get, StateT.get, pure]
  rw [started]
  dsimp only
  generalize steps.mapM MethodStep.run draft = d
  obtain ⟨body, d⟩ := d
  cases dropped with
  | true => rfl
  | false =>
    change _ = d.finish.2
    simp only [Bool.false_eq_true, if_false]
    generalize d.finish = finished
    rcases finished with ⟨_ | _, owner⟩ <;> rfl

/-- A method is refused at once, or it is written; then it is left out, by itself or for its length,
or it is added as it was written. -/
theorem writeMethod_turns (c : ClassFile) (access : UInt16) (name descriptor : String)
    (steps : List MethodStep) (dropped : Bool) :
    (∃ e, writeMethod access name descriptor steps dropped c = (.refused e, c)) ∨
    ∃ d, MethodDraft.start c access name descriptor = .ok d ∧ ∃ body final,
      steps.mapM MethodStep.run d = (body, final) ∧
      final.owner = { c with pool := final.pool } ∧ final.access = access ∧ final.name = name ∧
      final.descriptor = descriptor ∧
      ((∃ left, writeMethod access name descriptor steps dropped c =
          (.method body left, final.owner) ∧
          (left = .dropped ∨ left = .refused (.codeTooLarge final.code.size))) ∨
        dropped = false ∧ final.code.size ≤ 65535 ∧
          writeMethod access name descriptor steps dropped c =
            (.method body .added, (final.addTo final.owner).2)) := by
  dsimp only [writeMethod, bind, StateT.bind, get, getThe, MonadStateOf.get, StateT.get, pure]
  cases started : MethodDraft.start c access name descriptor with
  | error e => exact .inl ⟨e, rfl⟩
  | ok d =>
    have same := Drafting.Frames.mapM MethodStep.frames steps d
    obtain ⟨maxLocals, rfl⟩ := start_eq_ok started
    dsimp only
    generalize ran : steps.mapM MethodStep.run _ = run at same ⊢
    obtain ⟨body, final⟩ := run
    refine .inr ⟨_, rfl, body, final, ran, same.owner, same.access, same.name, same.descriptor, ?_⟩
    cases dropped with
    | true => exact .inl ⟨_, rfl, .inl rfl⟩
    | false =>
      simp only [Bool.false_eq_true, if_false, MethodDraft.finish]
      split
      · exact .inl ⟨_, rfl, .inr rfl⟩
      · next long => exact .inr ⟨trivial, Nat.le_of_not_lt long, rfl⟩

/-- A class is left alone by a method that is refused at once, and keeps what the draft has interned
of one that is dropped or too long; any other method is added. -/
theorem writeMethod_cases (c : ClassFile) (access : UInt16) (name descriptor : String)
    (steps : List MethodStep) (dropped : Bool) :
    (writeMethod access name descriptor steps dropped c).2 = c ∨
    ∃ d, MethodDraft.start c access name descriptor = .ok d ∧
      ∃ final, final = (steps.mapM MethodStep.run d).2 ∧
        final.owner = { c with pool := final.pool } ∧ final.access = access ∧
        ((writeMethod access name descriptor steps dropped c).2 = final.owner ∨
          dropped = false ∧ final.code.size ≤ 65535 ∧
            (writeMethod access name descriptor steps dropped c).2 =
              (final.addTo final.owner).2) := by
  rcases writeMethod_turns c access name descriptor steps dropped with
    ⟨e, refused⟩ | ⟨d, started, body, final, run, owner, sameAccess, -, -, either⟩
  · exact .inl (congrArg Prod.snd refused)
  · refine .inr ⟨d, started, final, by rw [run], owner, sameAccess, ?_⟩
    rcases either with ⟨left, turned, -⟩ | ⟨kept, short, turned⟩
    · exact .inl (congrArg Prod.snd turned)
    · exact .inr ⟨kept, short, congrArg Prod.snd turned⟩

end WriteMethod

/-- A method adds what its steps do, unless its descriptor is refused: then they are not taken. -/
theorem accrues_writeMethod (access : UInt16) (name descriptor : String)
    (steps : List MethodStep) (dropped : Bool) :
    Accrues ClassFile.pool (writeMethod access name descriptor steps dropped) []
      (if (Descriptor.argumentSlots? descriptor).isSome then steps.flatMap MethodStep.mentions
        else []) := by
  cases counted : Descriptor.argumentSlots? descriptor with
  | none =>
    have refused (c : ClassFile) :
        MethodDraft.start c access name descriptor = .error (.invalidDescriptor descriptor) := by
      rw [MethodDraft.start, counted]
    exact .of_same fun c => congrArg ClassFile.pool (writeMethod_refused (refused c) steps dropped)
  | some slots =>
    let draft (c : ClassFile) : MethodDraft :=
      { owner := c, access, name, descriptor,
        maxLocals := slots + if Access.has access Access.isStatic then 0 else 1 }
    have started (c : ClassFile) :
        MethodDraft.start c access name descriptor = .ok (draft c) := by
      rw [MethodDraft.start, counted]
    have accrues := (MethodStep.accrues_all steps).bind fun _ => accrues_finishing dropped
    simp only [List.append_nil] at accrues
    exact accrues.lift draft
      (fun c => congrArg ClassFile.pool (writeMethod_eq (started c) steps dropped)) fun _ => rfl

end Assembly

namespace ClassStep

/-- The entries that a step pushes as they are. -/
def raw : ClassStep → List Constant
  | pool step => step.raw
  | _ => []

/-- The classes that a step names: as such, as interfaces, or in the body of a method, which is
not written if its descriptor cannot be counted. -/
def mentions : ClassStep → List String
  | addInterface name | classRef name => [name]
  | pool step => step.mentions
  | method _ _ descriptor steps _ =>
    if (Descriptor.argumentSlots? descriptor).isSome then steps.flatMap MethodStep.mentions else []
  | _ => []

theorem accrues (step : ClassStep) : Accrues ClassFile.pool step.run step.raw step.mentions := by
  cases step with
  | setAccess | setMajor | hasMethod | currentName => exact .of_same fun _ => rfl
  | addInterface name => exact (Assembly.accrues_addInterface name).before fun _ _ => rfl
  | addField access name descriptor | addAbstractMethod access name descriptor =>
    exact ((Assembly.accrues_utf8 name).bind fun _ =>
      (Assembly.accrues_utf8 descriptor).before fun _ _ => rfl).before fun _ _ => rfl
  | addMethod access name descriptor code =>
    exact (Assembly.accrues_addMethod access name descriptor code).before fun _ _ => rfl
  | setSourceFile file =>
    exact ((Assembly.accrues_utf8 "SourceFile").bind fun _ =>
      (Assembly.accrues_utf8 file).before fun _ _ => rfl).before fun _ _ => rfl
  | classRef name =>
    exact (Assembly.accrues_onPool (Pool.accrues_classRef name)).before fun _ _ => rfl
  | pool step => exact (Assembly.accrues_onPool step.accrues).before fun _ _ => rfl
  | method access name descriptor steps dropped =>
    exact Assembly.accrues_writeMethod access name descriptor steps dropped

end ClassStep

/-- A class begins with its own name and that of its super class. -/
theorem ClassFile.gains_new {q : Pool} {name super : String}
    (later : (ClassFile.new name super).pool.Grows q) (few : q.slots.size ≤ 65535) :
    Pool.Gains q Pool.empty (ClassFile.new name super).pool [] [name, super] := by
  have both : Pool.Accrues id (do
      let this ← Pool.classRef name
      let above ← Pool.classRef super
      return (this, above)) [] [name, super] :=
    (Pool.accrues_classRef name).bind fun _ =>
      (Pool.accrues_classRef super).before fun _ _ => rfl
  exact both.gains (s := Pool.empty) later few

namespace Assembly

theorem runSteps_cons (step : ClassStep) (steps : List ClassStep) (c : ClassFile) :
    (runSteps (step :: steps) c).2 = (runSteps steps (step.run c).2).2 := by
  rw [runSteps, List.mapM_cons]
  rfl

theorem accrues_runSteps (steps : List ClassStep) : Accrues ClassFile.pool (runSteps steps)
    (steps.flatMap ClassStep.raw) (steps.flatMap ClassStep.mentions) :=
  .mapM ClassStep.accrues steps

end Assembly

end ClassBench
