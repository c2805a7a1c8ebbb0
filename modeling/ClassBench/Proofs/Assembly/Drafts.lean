import ClassBench.Proofs.Assembly.Mentions
import ClassBench.Proofs.Assembly.Patching
import ClassBench.Proofs.List

/-! Bodies that are written by typed steps.  A typed step writes one whole instruction or none, and
what was written is told by the trace of a run: the offset of each step that wrote.  Branches are
set later and anywhere in the body, so a row of instructions is kept together with the targets that
its branches may have; a branch that is not set leads to itself. -/

namespace ClassBench

/-! ### Typed steps -/

namespace MethodStep

/-- A step that leaves the form of what it writes to the assembler, or an opcode without operands
and without a local variable. -/
def IsTyped : MethodStep → Prop
  | emit op => op.layout = .plain ∧ Instruction.impliedLocal? op = none
  | branch op => op.layout = .branch
  | accessLocal _ index => index ≤ 65534
  | emitMany .. | emitU8 _ | emitU16 _ | emitI16 _ => False
  | _ => True

instance (step : MethodStep) : Decidable step.IsTyped := by
  cases step <;> unfold IsTyped <;> infer_instance

/-- The opcode that a step is given. -/
def opcode? : MethodStep → Option Opcode
  | emit op | branch op => some op
  | _ => none

/-- The steps of a run that wrote, each with the offset at which it did. -/
def emissions : List MethodStep → MethodDraft → List (Nat × MethodStep)
  | [], _ => []
  | step :: steps, d =>
    let d' := (step.run d).2
    if d.code.size < d'.code.size then (d.code.size, step) :: emissions steps d'
    else emissions steps d'

/-- The branches that a run set, each with the offset that it leads to. -/
def patches : List MethodStep → MethodDraft → List (Nat × Nat)
  | [], _ => []
  | step :: steps, d =>
    match step, step.run d with
    | patchJump offset target, (.done, d') => (offset, target) :: patches steps d'
    | _, (_, d') => patches steps d'

end MethodStep

/-! ### One step -/

/-- From the one draft to the other whole instructions were written behind the code, sound in the
pool but for branches that are not set. -/
structure MethodDraft.Appends (q : Pool) (d d' : MethodDraft) (is : List Instruction) : Prop where
  code : ∃ bytes, d'.code.toList = d.code.toList ++ bytes ∧
    Instruction.Tiles d.code.size bytes is
  jumps : ∀ i ∈ is, ∀ distance, i.Leads distance → distance = 0
  locals : ∀ i ∈ is, ∀ index, i.UsesLocal index → index < d'.maxLocals
  entries : ∀ i ∈ is, ∀ index, i.poolIndex? = some index → q.Holds i.opcode.operandKinds index
  reserved : d.maxLocals ≤ d'.maxLocals

namespace MethodDraft

variable {q : Pool} {d d' : MethodDraft} {is : List Instruction}

theorem Continues.appends (continues : Continues q d d' is) : Appends q d d' is where
  code := continues.code
  jumps i member distance leads := absurd leads (continues.jumps i member distance)
  locals := continues.locals
  entries := continues.entries
  reserved := continues.reserved

theorem Appends.none (code : d'.code = d.code) (reserved : d.maxLocals ≤ d'.maxLocals) :
    Appends q d d' [] where
  code := ⟨[], by rw [code, List.append_nil], .nil⟩
  jumps := by simp
  locals := by simp
  entries := by simp
  reserved := reserved

theorem Appends.size (appends : Appends q d d' is) :
    d'.code.size = d.code.size + (is.flatMap Instruction.bytes).length := by
  obtain ⟨bytes, written, tiles⟩ := appends.code
  have size := congrArg List.length written
  rw [tiles.flatMap_bytes, ← Array.length_toList, size, List.length_append, Array.length_toList]

theorem Appends.offset {i : Instruction} (appends : Appends q d d' [i]) :
    i.offset = d.code.size := by
  obtain ⟨bytes, -, tiles⟩ := appends.code
  cases tiles with
  | cons start => exact start

end MethodDraft

namespace MethodStep

open MethodDraft (Continues Appends)
open Drafting (Writes)

variable {q : Pool} {d : MethodDraft} {step : MethodStep}

/-- The instructions that a step writes: none, or one with the opcode that it is given. -/
def Gives (step : MethodStep) (is : List Instruction) : Prop :=
  is = [] ∨ ∃ i, is = [i] ∧ ∀ op, step.opcode? = some op → i.opcode = op

theorem appends_of_writes {act : Drafting Unit} {good : Pool → List Instruction → Prop}
    (writes : Writes act good) (gives : ∀ is, good q is → step.Gives is)
    (later : (act d).2.pool.Grows q) (few : q.slots.size ≤ 65535) :
    ∃ is, Appends q d (act d).2 is ∧ step.Gives is := by
  obtain ⟨is, continues, holds⟩ := writes.continues later few
  exact ⟨is, continues.appends, gives is holds⟩

theorem draft_callInterface (method : MemberRef) (d : MethodDraft) :
    ((callInterface method).run d).2 = (Drafting.callInterface method d).2 := by
  dsimp only [run, bind, StateT.bind]
  rcases Drafting.callInterface method d with ⟨_ | _, _⟩ <;> rfl

/-- A call whose descriptor can be counted is written behind the code. -/
theorem callInterface_eq {method : MemberRef} {slots : UInt16}
    (counted : Descriptor.argumentSlots? method.descriptor = some slots) (d : MethodDraft) :
    ∃ code, (Drafting.callInterface method d).2 =
        { d with owner := { d.owner with pool := (Pool.interfaceMethodRef method d.owner.pool).2 }
                 code } ∧
      code.toList = d.code.toList ++ Opcode.invokeinterface.byte ::
        (Bytes.ofUInt16 (Pool.interfaceMethodRef method d.owner.pool).1 ++
          [(slots + 1).toUInt8, 0]) := by
  unfold Drafting.callInterface
  rw [counted]
  generalize Pool.interfaceMethodRef method = intern
  exact ⟨_, rfl, by simp⟩

theorem appends_callInterface (method : MemberRef)
    (later : (Drafting.callInterface method d).2.pool.Grows q) (few : q.slots.size ≤ 65535) :
    ∃ is, Appends q d (Drafting.callInterface method d).2 is ∧ (callInterface method).Gives is := by
  cases counted : Descriptor.argumentSlots? method.descriptor with
  | none =>
    have refused : (Drafting.callInterface method d).2 = d := by
      unfold Drafting.callInterface
      rw [counted]
      rfl
    rw [refused]
    exact ⟨[], .none rfl (UInt16.le_refl _), .inl rfl⟩
  | some slots =>
    obtain ⟨code, result, written⟩ := callInterface_eq counted d
    rw [result] at later ⊢
    have interns : Pool.Interns (fun _ => True) _ _ := Pool.Interns.interfaceMethodRef method
    obtain ⟨-, owner, signature, here⟩ := interns.tells later few trivial
    have linked := interns.linked (p := d.owner.pool) later few trivial
    generalize (Pool.interfaceMethodRef method d.owner.pool).1 = index at written here
    let i : Instruction :=
      ⟨d.code.size, .invokeinterface, Bytes.ofUInt16 index ++ [(slots + 1).toUInt8, 0]⟩
    have used : i.poolIndex? = some index :=
      Bytes.u16At?_length [] [(slots + 1).toUInt8, 0] index
    refine ⟨[i], (Continues.plain rfl written rfl rfl rfl ?_ linked).appends,
      .inr ⟨i, rfl, nofun⟩⟩
    rw [used]
    rintro _ ⟨⟩
    exact Pool.Interns.holds_single here

theorem appends_branch {op : Opcode} (layout : op.layout = .branch) :
    ∃ is, Appends q d ((branch op).run d).2 is ∧ (branch op).Gives is := by
  let i : Instruction := ⟨d.code.size, op, Bytes.ofUInt16 0⟩
  have isBranch : i.opcode.isBranch = true := by simp [Opcode.isBranch, i, layout]
  refine ⟨[i], ⟨⟨i.bytes, ?_, .single rfl (.fixed ?_)⟩, ?_, ?_, ?_, UInt16.le_refl _⟩,
    .inr ⟨i, rfl, ?_⟩⟩
  · show (Array.appendList (d.code.push op.byte) (Bytes.ofUInt16 0)).toList = _
    simp [Instruction.bytes, i]
  · rw [layout]
    rfl
  · simp only [List.mem_singleton, forall_eq]
    intro distance leads
    rw [Instruction.leads_of_branch isBranch] at leads
    simp only [Instruction.distance?, i, layout] at leads
    exact (Option.some.inj leads).symm
  · simp only [List.mem_singleton, forall_eq]
    exact fun index uses => absurd uses (Instruction.not_usesLocal_branch layout)
  · simp [Instruction.poolIndex?, i, layout]
  · rintro _ ⟨⟩
    rfl

theorem IsTyped.appends (typed : step.IsTyped)
    (other : ∀ offset target, step ≠ .patchJump offset target)
    (later : (step.run d).2.pool.Grows q) (few : q.slots.size ≤ 65535) :
    ∃ is, Appends q d (step.run d).2 is ∧ step.Gives is := by
  cases step with
  | emit op =>
    have short : op.shortLocal? = none := Instruction.impliedLocal?_eq op ▸ typed.2
    refine appends_of_writes (Drafting.writes_plain rfl typed.1 short) ?_ later few
    rintro is ⟨i, rfl, opcode⟩
    exact .inr ⟨i, rfl, by rintro _ ⟨⟩; exact opcode⟩
  | emitMany | emitU8 | emitU16 | emitI16 => exact typed.elim
  | setMaxStack depth =>
    exact appends_of_writes (Drafting.writes_setMaxStack depth) (fun _ => .inl) later few
  | reserveLocals count =>
    refine ⟨[], .none rfl ?_, .inl rfl⟩
    show d.maxLocals ≤ max d.maxLocals count
    grind [UInt16.max_def]
  | lineNumber line => exact ⟨[], .none rfl (UInt16.le_refl _), .inl rfl⟩
  | accessLocal access index =>
    have inside : index ≠ 65535 := by
      rintro rfl
      exact absurd (show (65535 : UInt16) ≤ 65534 from typed) (by decide)
    refine appends_of_writes (Drafting.writes_accessLocal access inside) ?_ later few
    rintro is ⟨i, rfl, -⟩
    exact .inr ⟨i, rfl, nofun⟩
  | iconst value =>
    refine appends_of_writes (Drafting.writes_iconst value) ?_ later few
    rintro is ⟨i, rfl, -⟩
    exact .inr ⟨i, rfl, nofun⟩
  | ldcString text =>
    refine appends_of_writes (Drafting.writes_ldcString text) ?_ later few
    rintro is ⟨i, rfl, -⟩
    exact .inr ⟨i, rfl, nofun⟩
  | newObject name | checkcast name =>
    refine appends_of_writes (Drafting.writes_indexed (.classRef name) rfl ?_) ?_ later few
    · rintro q index ⟨text, here, -⟩
      exact Pool.Interns.holds_single here
    · rintro is ⟨i, index, rfl, -⟩
      exact .inr ⟨i, rfl, nofun⟩
  | accessField access field =>
    refine appends_of_writes (Drafting.writes_accessField access field) ?_ later few
    rintro is ⟨i, rfl, -⟩
    exact .inr ⟨i, rfl, nofun⟩
  | call kind method =>
    refine appends_of_writes (Drafting.writes_call kind method) ?_ later few
    rintro is ⟨i, rfl, -⟩
    exact .inr ⟨i, rfl, nofun⟩
  | callInterface method =>
    rw [draft_callInterface] at later ⊢
    exact appends_callInterface method later few
  | branch op => exact appends_branch typed
  | patchJump offset target => exact absurd rfl (other offset target)

end MethodStep

/-! ### Rows of instructions -/

/-- The code of a draft is these instructions, sound in the pool, and every branch among them leads
to itself or to one of the targets. -/
structure MethodDraft.Row (q : Pool) (targets : Nat → Prop) (d : MethodDraft)
    (is : List Instruction) : Prop where
  tiles : Instruction.Tiles 0 d.code.toList is
  jumps : ∀ i ∈ is, ∀ distance, i.Leads distance →
    distance = 0 ∨ ∃ target, targets target ∧ (target : Int) = i.offset + distance
  locals : ∀ i ∈ is, ∀ index, i.UsesLocal index → index < d.maxLocals
  entries : ∀ i ∈ is, ∀ index, i.poolIndex? = some index → q.Holds i.opcode.operandKinds index

namespace MethodDraft.Row

variable {q : Pool} {targets : Nat → Prop} {d d' : MethodDraft} {is is' : List Instruction}
  {before after : List Instruction} {i : Instruction}

theorem append (row : Row q targets d is) (more : Appends q d d' is') :
    Row q targets d' (is ++ is') where
  tiles := by
    obtain ⟨bytes, written, tiles⟩ := more.code
    rw [written]
    refine row.tiles.append ?_
    rwa [Nat.zero_add, Array.length_toList]
  jumps i member distance leads := by
    rcases List.mem_append.mp member with earlier | later
    · exact row.jumps i earlier distance leads
    · exact .inl (more.jumps i later distance leads)
  locals i member index uses := by
    rcases List.mem_append.mp member with earlier | later
    · exact UInt16.lt_of_lt_of_le (row.locals i earlier index uses) more.reserved
    · exact more.locals i later index uses
  entries i member := by
    rcases List.mem_append.mp member with earlier | later
    · exact row.entries i earlier
    · exact more.entries i later

theorem patch (row : Row q targets d (before ++ i :: after)) (layout : i.opcode.layout = .branch)
    {target : Nat} (known : targets target) (near : Drafting.Near i.offset target) :
    ∃ operands, Row q targets (d.setBranch i.offset target)
      (before ++ { i with operands } :: after) := by
  let set : Instruction := { i with operands := Drafting.towards i.offset target }
  have distance : set.distance? = some (target - i.offset : Int) := (near.branches layout).distance?
  have isBranch : set.opcode.isBranch = true := by simp [Opcode.isBranch, set, layout]
  have members {j : Instruction} (member : j ∈ before ++ set :: after) :
      j = set ∨ j ∈ before ++ i :: after := by
    simp only [List.mem_append, List.mem_cons] at member ⊢
    tauto
  refine ⟨_, row.tiles.overwrite layout _, ?_, ?_, ?_⟩
  · intro j member distance' leads
    rcases members member with rfl | old
    · rw [Instruction.leads_of_branch isBranch, distance] at leads
      obtain rfl := Option.some.inj leads
      refine .inr ⟨target, known, ?_⟩
      show (target : Int) = i.offset + (target - i.offset)
      omega
    · exact row.jumps j old distance' leads
  · intro j member index uses
    rcases members member with rfl | old
    · exact absurd uses (Instruction.not_usesLocal_branch layout)
    · exact row.locals j old index uses
  · intro j member index used
    rcases members member with rfl | old
    · simp [Instruction.poolIndex?, set, layout] at used
    · exact row.entries j old index used

end MethodDraft.Row

/-! ### Runs -/

namespace MethodStep

open MethodDraft (Row)

variable {q : Pool} {targets : Nat → Prop} {d : MethodDraft} {step : MethodStep}
  {steps : List MethodStep} {emitted : List (Nat × MethodStep)} {is : List Instruction}

/-- The instruction is the one that a typed step wrote at an offset. -/
def Wrote (e : Nat × MethodStep) (i : Instruction) : Prop :=
  i.offset = e.1 ∧ e.2.IsTyped ∧ ∀ op, e.2.opcode? = some op → i.opcode = op

theorem emissions_cons (step : MethodStep) (steps : List MethodStep) (d : MethodDraft) :
    emissions (step :: steps) d = emissions [step] d ++ emissions steps (step.run d).2 := by
  simp only [emissions]
  split <;> rfl

theorem patches_cons (step : MethodStep) (steps : List MethodStep) (d : MethodDraft) :
    patches (step :: steps) d = patches [step] d ++ patches steps (step.run d).2 := by
  simp only [patches]
  split <;> simp_all

theorem patches_other (other : ∀ offset target, step ≠ .patchJump offset target) :
    patches [step] d = [] := by
  simp only [patches]
  split
  · exact absurd rfl (other _ _)
  · rfl

theorem IsTyped.size_le (typed : step.IsTyped) (later : (step.run d).2.pool.Grows q)
    (few : q.slots.size ≤ 65535) : d.code.size ≤ (step.run d).2.code.size := by
  by_cases other : ∀ offset target, step ≠ .patchJump offset target
  · obtain ⟨is, appends, -⟩ := typed.appends other later few
    exact appends.size ▸ Nat.le_add_right _ _
  · push Not at other
    obtain ⟨offset, target, rfl⟩ := other
    rcases run_patchJump offset target d with ⟨e, refused⟩ | ⟨-, -, set⟩
    · exact refused ▸ Nat.le_refl _
    · rw [set]
      exact Nat.le_of_eq (d.size_setBranch offset target).symm

/-- What is written later stands behind what was written before. -/
theorem le_of_mem_emissions (typed : ∀ step ∈ steps, step.IsTyped)
    (later : (steps.mapM run d).2.pool.Grows q) (few : q.slots.size ≤ 65535) :
    ∀ e ∈ emissions steps d, d.code.size ≤ e.1 := by
  induction steps generalizing d with
  | nil => simp [emissions]
  | cons step steps ih =>
    obtain ⟨first, rest⟩ := List.forall_mem_cons.mp typed
    rw [draft_cons] at later
    have size := first.size_le (((accrues_all steps).growing _).trans later) few
    intro e member
    rw [emissions_cons, List.mem_append] at member
    rcases member with here | more
    · rw [emissions] at here
      split at here <;> simp_all [emissions]
    · exact Nat.le_trans size (ih rest later e more)

theorem lt_of_mem_patches {p : Nat × Nat} (member : p ∈ patches [step] d) :
    p.1 < d.code.size := by
  by_cases other : ∀ offset target, step ≠ .patchJump offset target
  · simp [patches_other other] at member
  · push Not at other
    obtain ⟨offset, target, rfl⟩ := other
    rcases run_patchJump offset target d with ⟨e, refused⟩ | ⟨isBranch, -, set⟩
    · simp [patches, refused] at member
    · obtain rfl : p = (offset, target) := by simpa [patches, set] using member
      unfold Drafting.isBranchAt at isBranch
      by_contra behind
      simp [Array.getElem?_eq_none (Nat.le_of_not_lt behind)] at isBranch

/-- A typed step leaves a row of the instructions that were written, as long as the branch that it
sets, if it sets one, was written by a step and leads to a target. -/
theorem row_step (typed : step.IsTyped) (later : (step.run d).2.pool.Grows q)
    (few : q.slots.size ≤ 65535) (row : Row q targets d is)
    (told : List.Forall₂ Wrote emitted is)
    (set : ∀ p ∈ patches [step] d, targets p.2 ∧ ∃ op, (p.1, .branch op) ∈ emitted) :
    ∃ is', Row q targets (step.run d).2 is' ∧
      List.Forall₂ Wrote (emitted ++ emissions [step] d) is' := by
  by_cases other : ∀ offset target, step ≠ .patchJump offset target
  · obtain ⟨new, appends, gives⟩ := typed.appends other later few
    refine ⟨is ++ new, row.append appends, List.rel_append told ?_⟩
    have size := appends.size
    rcases gives with rfl | ⟨i, rfl, opcode⟩
    · rw [emissions, if_neg (by simp [size])]
      exact .nil
    · rw [emissions, if_pos (by simp [size, Instruction.bytes])]
      exact .cons ⟨appends.offset, typed, opcode⟩ .nil
  · push Not at other
    obtain ⟨offset, target, rfl⟩ := other
    rcases run_patchJump offset target d with ⟨e, refused⟩ | ⟨isBranch, near, done⟩
    · rw [refused, emissions, if_neg (by simp [refused])]
      exact ⟨is, row, by simpa [emissions] using told⟩
    · rw [emissions, if_neg (by simp [done, d.size_setBranch]), done]
      obtain ⟨known, op, written⟩ := set (offset, target) (by simp [patches, done])
      obtain ⟨front, back, rfl⟩ := List.append_of_mem written
      obtain ⟨before, i, after, rfl, earlier, ⟨here, branch, opcode⟩, rest⟩ := told.around
      obtain rfl := opcode op rfl
      obtain rfl : i.offset = offset := here
      obtain ⟨operands, patched⟩ := row.patch branch known near
      refine ⟨_, patched, ?_⟩
      rw [emissions, List.append_nil]
      exact List.rel_append earlier (.cons ⟨rfl, branch, opcode⟩ rest)

/-- A run of typed steps leaves a row of the instructions that they wrote, as long as the branches
that it sets were written by steps and lead to targets. -/
theorem row_run (typed : ∀ step ∈ steps, step.IsTyped)
    (later : (steps.mapM run d).2.pool.Grows q) (few : q.slots.size ≤ 65535)
    (row : Row q targets d is) (told : List.Forall₂ Wrote emitted is)
    (set : ∀ p ∈ patches steps d, targets p.2 ∧
      ∃ op, (p.1, .branch op) ∈ emitted ++ emissions steps d) :
    ∃ is', Row q targets (steps.mapM run d).2 is' ∧
      List.Forall₂ Wrote (emitted ++ emissions steps d) is' := by
  induction steps generalizing d emitted is with
  | nil => exact ⟨is, row, by simpa [emissions] using told⟩
  | cons step steps ih =>
    obtain ⟨first, rest⟩ := List.forall_mem_cons.mp typed
    rw [patches_cons] at set
    -- The branch that this step sets stands before all that is written from here on.
    have setHere : ∀ p ∈ patches [step] d, targets p.2 ∧ ∃ op, (p.1, .branch op) ∈ emitted := by
      intro p member
      obtain ⟨known, op, written⟩ := set p (List.mem_append_left _ member)
      refine ⟨known, op, (List.mem_append.mp written).resolve_right fun behind => ?_⟩
      have front := lt_of_mem_patches member
      have back := le_of_mem_emissions typed later few _ behind
      omega
    rw [draft_cons] at later ⊢
    rw [emissions_cons, ← List.append_assoc] at set ⊢
    obtain ⟨is', row', told'⟩ :=
      row_step first (((accrues_all steps).growing _).trans later) few row told setHere
    exact ih rest later row' told' fun p member => set p (List.mem_append_right _ member)

/-- A body of typed steps: every branch that is set was written by a step and leads to where a step
wrote, the last step that wrote does not pass control on, and the source lines that begin in it are
fewer than their table can hold. -/
structure TypedBody (steps : List MethodStep) (d : MethodDraft) : Prop where
  typed : ∀ step ∈ steps, step.IsTyped
  set : ∀ p ∈ patches steps d, (∃ op, (p.1, branch op) ∈ emissions steps d) ∧
    ∃ step, (p.2, step) ∈ emissions steps d
  ending : ∃ offset step op, (emissions steps d).getLast? = some (offset, step) ∧
    step.opcode? = some op ∧ op.isTerminator = true
  lines : 2 + 4 * (steps.mapM run d).2.lines.size < UInt32.size

/-- What typed steps write into an empty draft is a row of sound instructions. -/
theorem TypedBody.sound (body : TypedBody steps d) (empty : d.code = #[])
    (later : (steps.mapM run d).2.pool.Grows q) (few : q.slots.size ≤ 65535) :
    ∃ is, is ≠ [] ∧ Instruction.Tiles 0 (steps.mapM run d).2.code.toList is ∧
      Instruction.SoundRow q (steps.mapM run d).2.maxLocals is := by
  let targets (target : Nat) : Prop := ∃ step, (target, step) ∈ emissions steps d
  have begun : Row q targets d [] :=
    ⟨by simpa [empty] using .nil, by simp, by simp, by simp⟩
  have none : List.Forall₂ Wrote [] [] := .nil
  obtain ⟨is, row, told⟩ := row_run body.typed later few begun none
    fun p member => ⟨(body.set p member).2, (body.set p member).1⟩
  rw [List.nil_append] at told
  obtain ⟨offset, step, op, last, given, terminates⟩ := body.ending
  obtain ⟨front, split⟩ := List.getLast?_eq_some_iff.mp last
  obtain ⟨before, i, after, rfl, -, ⟨-, -, opcode⟩, rest⟩ := (split ▸ told).around
  cases rest
  refine ⟨_, by simp, row.tiles, ?_, row.locals, row.entries, ?_⟩
  · intro j member distance leads _
    rcases row.jumps j member distance leads with rfl | ⟨target, ⟨step, written⟩, lands⟩
    · exact ⟨j, member, by simp⟩
    · obtain ⟨front', back', split'⟩ := List.append_of_mem written
      obtain ⟨before', k, after', same, -, ⟨here, -⟩, -⟩ := (split' ▸ told).around
      refine ⟨k, by simp [same], ?_⟩
      rw [here, lands]
  · intro other ends
    rw [List.getLast?_append, List.getLast?_singleton] at ends
    obtain rfl := Option.some.inj ends
    rw [opcode op given]
    exact terminates

end MethodStep

end ClassBench
