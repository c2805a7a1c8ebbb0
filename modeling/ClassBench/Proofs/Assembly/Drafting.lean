import ClassBench.Assembly.Script

/-! Steps on a draft and what they leave alone.  A step writes code, counts and lines, and interns
names in the pool of the class around the draft; the class joins in nothing else, and the method
keeps its access flags.  A branch is set in place, and only if one stands there. -/

namespace ClassBench

/-- The pool of the class around a draft. -/
def MethodDraft.pool (d : MethodDraft) : Pool := d.owner.pool

/-! ### Setting a branch -/

/-- The draft in which the branch at an offset leads to a target. -/
def MethodDraft.setBranch (d : MethodDraft) (offset target : Nat) : MethodDraft :=
  { d with
    code := Drafting.overwrite d.code (offset + 1)
      ((target : Int) - offset).toInt16.toUInt16 }

theorem MethodDraft.size_setBranch (d : MethodDraft) (offset target : Nat) :
    (d.setBranch offset target).code.size = d.code.size := by
  simp [setBranch, Drafting.overwrite]

namespace Drafting

/-- The distance from an offset to a target fits in a signed 16-bit word. -/
def Near (offset target : Nat) : Prop :=
  -32768 ≤ (target : Int) - offset ∧ (target : Int) - offset ≤ 32767

variable {offset target : Nat} {d : MethodDraft}

theorem patchJump_other (other : isBranchAt d.code offset = false) :
    patchJump offset target d = (.error (.notABranch offset), d) := by
  unfold patchJump
  show (if isBranchAt d.code offset = true then _ else _ : Drafting _) d = _
  rw [if_neg (by rw [other]; decide)]
  rfl

theorem patchJump_far (isBranch : isBranchAt d.code offset = true) (far : ¬Near offset target) :
    patchJump offset target d = (.error (.jumpOutOfRange offset target), d) := by
  unfold patchJump
  show (if isBranchAt d.code offset = true then _ else _ : Drafting _) d = _
  unfold Near at far
  rw [if_pos isBranch, if_neg far]
  rfl

theorem patchJump_near (isBranch : isBranchAt d.code offset = true) (near : Near offset target) :
    patchJump offset target d = (.ok (), d.setBranch offset target) := by
  unfold patchJump
  show (if isBranchAt d.code offset = true then _ else _ : Drafting _) d = _
  unfold Near at near
  rw [if_pos isBranch, if_pos near]
  rfl

end Drafting

/-! ### The class around a draft -/

/-- From the one draft to the other only the pool of the class and the body have changed. -/
structure MethodDraft.SameMethod (d d' : MethodDraft) : Prop where
  owner : d'.owner = { d.owner with pool := d'.pool }
  access : d'.access = d.access
  name : d'.name = d.name
  descriptor : d'.descriptor = d.descriptor

namespace MethodDraft.SameMethod

theorem refl (d : MethodDraft) : d.SameMethod d := ⟨rfl, rfl, rfl, rfl⟩

theorem trans {d d' d'' : MethodDraft} (first : d.SameMethod d') (second : d'.SameMethod d'') :
    d.SameMethod d'' where
  owner := by
    rw [second.owner, first.owner]
  access := second.access.trans first.access
  name := second.name.trans first.name
  descriptor := second.descriptor.trans first.descriptor

end MethodDraft.SameMethod

namespace Drafting

variable {α β : Type} {step : Drafting α} {next : α → Drafting β}

/-- A step on a body changes neither the class around it, but for the pool, nor the method that it
is the body of. -/
def Frames (step : Drafting α) : Prop := ∀ d : MethodDraft, d.SameMethod (step d).2

theorem Frames.bind (first : Frames step) (second : ∀ a, Frames (next a)) :
    Frames (step >>= next) :=
  fun d => (first d).trans (second _ _)

theorem frames_pure (a : α) : Frames (pure a) := fun d => .refl d

theorem Frames.mapM {f : β → Drafting α} (frames : ∀ b, Frames (f b)) (bs : List β) :
    Frames (bs.mapM f) := by
  induction bs with
  | nil => exact frames_pure []
  | cons b bs ih =>
    rw [List.mapM_cons]
    exact (frames b).bind fun _ => ih.bind fun _ => frames_pure _

theorem Frames.positionAfter {step : Drafting Unit} (frames : Frames step) :
    Frames step.positionAfter :=
  frames.bind fun _ d => .refl d

theorem frames_onPool (step : StateM Pool α) : Frames (onPool step) :=
  fun _ => ⟨rfl, rfl, rfl, rfl⟩

theorem accessLocal_eq (access : LocalAccess) (index : UInt16) (d : MethodDraft) :
    ∃ code, (accessLocal access index d).2 =
      { d with code, maxLocals := max d.maxLocals (localsThrough index) } := by
  unfold accessLocal
  show ∃ code, ((if index ≤ 3 then _ else _ : Drafting Unit) _).2 = _
  by_cases short : index ≤ 3
  · rw [if_pos short]
    exact ⟨_, rfl⟩
  · rw [if_neg short]
    split <;> exact ⟨_, rfl⟩

theorem frames_accessLocal (access : LocalAccess) (index : UInt16) :
    Frames (accessLocal access index) := by
  intro d
  obtain ⟨code, same⟩ := accessLocal_eq access index d
  rw [same]
  exact ⟨rfl, rfl, rfl, rfl⟩

theorem loadConstant_eq (index : UInt16) (d : MethodDraft) :
    ∃ code, (loadConstant index d).2 = { d with code } := by
  unfold loadConstant
  split <;> exact ⟨_, rfl⟩

theorem frames_loadConstant (index : UInt16) : Frames (loadConstant index) := by
  intro d
  obtain ⟨code, same⟩ := loadConstant_eq index d
  rw [same]
  exact ⟨rfl, rfl, rfl, rfl⟩

theorem frames_iconst (value : Int32) : Frames (iconst value) := by
  unfold iconst
  split
  · exact fun _ => ⟨rfl, rfl, rfl, rfl⟩
  · split
    · exact fun _ => ⟨rfl, rfl, rfl, rfl⟩
    · split
      · exact fun _ => ⟨rfl, rfl, rfl, rfl⟩
      · exact (frames_onPool _).bind frames_loadConstant

theorem frames_callInterface (method : MemberRef) : Frames (callInterface method) := by
  unfold callInterface
  split
  · exact (frames_onPool _).bind fun _ _ => ⟨rfl, rfl, rfl, rfl⟩
  · exact frames_pure _

end Drafting

namespace MethodStep

open Drafting (Frames)

theorem draft_cons (step : MethodStep) (steps : List MethodStep) (d : MethodDraft) :
    ((step :: steps).mapM run d).2 = (steps.mapM run (step.run d).2).2 := by
  rw [List.mapM_cons]
  rfl

/-- A branch is set, or the draft stays. -/
theorem run_patchJump (offset target : Nat) (d : MethodDraft) :
    (∃ e, (patchJump offset target).run d = (.refused e, d)) ∨
    Drafting.isBranchAt d.code offset = true ∧ Drafting.Near offset target ∧
      (patchJump offset target).run d = (.done, d.setBranch offset target) := by
  dsimp only [run, bind, StateT.bind]
  cases isBranch : Drafting.isBranchAt d.code offset with
  | false =>
    rw [Drafting.patchJump_other isBranch]
    exact .inl ⟨_, rfl⟩
  | true =>
    by_cases near : Drafting.Near offset target
    · rw [Drafting.patchJump_near isBranch near]
      exact .inr ⟨rfl, near, rfl⟩
    · rw [Drafting.patchJump_far isBranch near]
      exact .inl ⟨_, rfl⟩

theorem frames (step : MethodStep) : Frames step.run := by
  cases step with
  | emit | emitMany | emitU8 | emitU16 | emitI16 | setMaxStack | reserveLocals | lineNumber
  | branch => exact fun _ => ⟨rfl, rfl, rfl, rfl⟩
  | accessLocal access index => exact (Drafting.frames_accessLocal access index).positionAfter
  | iconst value => exact (Drafting.frames_iconst value).positionAfter
  | ldcString text =>
    exact ((Drafting.frames_onPool _).bind Drafting.frames_loadConstant).positionAfter
  | newObject | checkcast | accessField | call =>
    exact ((Drafting.frames_onPool _).bind fun _ _ => ⟨rfl, rfl, rfl, rfl⟩).positionAfter
  | callInterface method =>
    refine (Drafting.frames_callInterface method).bind fun answer => ?_
    cases answer <;> exact fun d => .refl d
  | patchJump offset target =>
    intro d
    rcases run_patchJump offset target d with ⟨e, refused⟩ | ⟨-, -, set⟩
    · rw [refused]
      exact .refl d
    · rw [set]
      exact ⟨rfl, rfl, rfl, rfl⟩

end MethodStep

end ClassBench
