import ClassBench.Proofs.Pool.Mentions

/-! What an index that interning returned goes on to say.  From the index the look-ups find back the
step that interned it, whatever is added to the pool later, so steps that intern different things
return different indices; and a step that is taken again finds all its entries where they were and
adds none. -/

namespace ClassBench

namespace Pool

variable {p q : Pool} {α β : Type}

/-- The pool after some steps. -/
def after (p : Pool) (steps : List PoolStep) : Pool := (steps.mapM PoolStep.run p).2

theorem after_cons (p : Pool) (step : PoolStep) (steps : List PoolStep) :
    p.after (step :: steps) = (step.run p).2.after steps := by
  rw [after, List.mapM_cons]
  rfl

theorem grows_after (p : Pool) (steps : List PoolStep) : p.Grows (p.after steps) :=
  (Accrues.mapM PoolStep.accrues steps).growing p

/-- The step that interns what the entry at an index stands for, as the look-ups for its kind tell
it. -/
def interned? (q : Pool) (index : UInt16) : Option PoolStep :=
  match q.get? index with
  | some (.utf8 _) => (q.utf8? index).map .utf8
  | some (.classRef _) => (q.className? index).map .classRef
  | some (.string text) => (q.utf8? text).map .string
  | some (.integer value) => some (.integer value)
  | some (.nameAndType ..) => (q.nameAndType? index).map fun (name, descriptor) =>
    .nameAndType name descriptor
  | some (.fieldRef ..) => (q.member? index).map .fieldRef
  | some (.methodRef ..) => (q.member? index).map .methodRef
  | some (.interfaceMethodRef ..) => (q.member? index).map .interfaceMethodRef
  | _ => none

/-! ### Taking a step again -/

/-- Taken again, the step returns the same and adds nothing. -/
structure Settles (step : StateM Pool α) : Prop where
  growing : Growing step
  again : ∀ {p q}, (step p).2.Grows q → step q = ((step p).1, q)

namespace Settles

protected theorem pure (a : α) : Settles (pure a) where
  growing := .refl
  again _ := rfl

theorem bind {step : StateM Pool α} {next : α → StateM Pool β} (first : Settles step)
    (second : ∀ a, Settles (next a)) : Settles (step >>= next) where
  growing := first.growing.bind fun a => (second a).growing
  again {p q} later := by
    have same : step q = ((step p).1, q) := first.again (((second _).growing _).trans later)
    show next (step q).1 (step q).2 = _
    rw [same]
    exact (second _).again later

protected theorem intern (c : Constant) : Settles (intern c) where
  growing := growing_intern c
  again {p q} later := by
    rw [intern_eq c q, later.indexOf? (indexOf?_intern c p)]

protected theorem utf8 (text : String) : Settles (Pool.utf8 text) := .intern _

protected theorem classRef (name : String) : Settles (Pool.classRef name) :=
  (Settles.utf8 name).bind fun _ => .intern _

protected theorem string (text : String) : Settles (Pool.string text) :=
  (Settles.utf8 text).bind fun _ => .intern _

protected theorem nameAndType (name descriptor : String) :
    Settles (Pool.nameAndType name descriptor) :=
  (Settles.utf8 name).bind fun _ => (Settles.utf8 descriptor).bind fun _ => .intern _

protected theorem memberWith (make : UInt16 → UInt16 → Constant) (member : MemberRef) :
    Settles (Pool.memberWith make member) :=
  (Settles.classRef _).bind fun _ => (Settles.nameAndType _ _).bind fun _ => .intern _

end Settles

end Pool

namespace PoolStep

open Pool (Settles Interns)

variable {p q : Pool} {step other : PoolStep}

/-- The step interns what it names. -/
def isInterning : PoolStep → Bool
  | utf8 _ | classRef _ | string _ | integer _ | nameAndType .. | fieldRef _ | methodRef _
  | interfaceMethodRef _ => true
  | push _ | pushMany .. | entryAt _ | textAt _ | classNameAt _ | nameAndTypeAt _ | memberAt _
  | slotCount | encoded | listing => false

theorem settles (interning : step.isInterning = true) : Settles step.run := by
  cases step with
  | utf8 text => exact (Settles.utf8 text).bind fun _ => .pure _
  | classRef name => exact (Settles.classRef name).bind fun _ => .pure _
  | string text => exact (Settles.string text).bind fun _ => .pure _
  | integer value => exact (Settles.intern _).bind fun _ => .pure _
  | nameAndType name descriptor =>
    exact (Settles.nameAndType name descriptor).bind fun _ => .pure _
  | fieldRef member | methodRef member | interfaceMethodRef member =>
    exact (Settles.memberWith _ member).bind fun _ => .pure _
  | _ => contradiction

/-- What a step interned is found back if it can be read from what its entries say. -/
theorem exists_index_of_interns {intern : StateM Pool UInt16} {means : Pool → UInt16 → Prop}
    (interns : Interns (fun _ => True) intern means)
    (run : step.run p = (.index (some (intern p).1), (intern p).2))
    (reads : ∀ q index, means q index → q.interned? index = some step) :
    ∃ index, (step.run p).1 = .index (some index) ∧ ∀ q, (step.run p).2.Grows q →
      q.slots.size ≤ 65535 → q.interned? index = some step := by
  rw [run]
  exact ⟨_, rfl, fun q later few => reads q _ (interns.tells later few trivial)⟩

/-- What a step interned is found back at the index that it returned, in every pool of allowed size
that the pool grows to. -/
theorem exists_index (interning : step.isInterning = true) (p : Pool) :
    ∃ index, (step.run p).1 = .index (some index) ∧ ∀ q, (step.run p).2.Grows q →
      q.slots.size ≤ 65535 → q.interned? index = some step := by
  cases step with
  | utf8 text =>
    refine exists_index_of_interns (.utf8 text) rfl ?_
    intro q index here
    simp only [Pool.interned?, here, Pool.utf8?_eq_some.mpr here, Option.map_some]
  | classRef name =>
    refine exists_index_of_interns (.classRef name) rfl ?_
    rintro q index ⟨text, here, there⟩
    simp only [Pool.interned?, here, Pool.className?_eq_some.mpr ⟨text, here, there⟩,
      Option.map_some]
  | string text =>
    refine exists_index_of_interns (.string text) rfl ?_
    rintro q index ⟨text', here, there⟩
    simp only [Pool.interned?, here, Pool.utf8?_eq_some.mpr there, Option.map_some]
  | integer value =>
    refine exists_index_of_interns (.integer value) rfl ?_
    intro q index here
    simp only [Pool.interned?, here]
  | nameAndType name descriptor =>
    refine exists_index_of_interns (.nameAndType name descriptor) rfl ?_
    rintro q index ⟨named, _⟩
    have entry := named
    unfold Pool.nameAndType? at entry
    split at entry
    · next here => simp only [Pool.interned?, here, named, Option.map_some]
    · contradiction
  | fieldRef member =>
    refine exists_index_of_interns (.fieldRef member) rfl ?_
    rintro q index ⟨named, owner, signature, here⟩
    simp only [Pool.interned?, here, named, Option.map_some]
  | methodRef member =>
    refine exists_index_of_interns (.methodRef member) rfl ?_
    rintro q index ⟨named, owner, signature, here⟩
    simp only [Pool.interned?, here, named, Option.map_some]
  | interfaceMethodRef member =>
    refine exists_index_of_interns (.interfaceMethodRef member) rfl ?_
    rintro q index ⟨named, owner, signature, here⟩
    simp only [Pool.interned?, here, named, Option.map_some]
  | _ => contradiction

end PoolStep

namespace Pool

/-- An entry stays where it is, whatever steps follow.  As long as the pool keeps within the indices
that there are, the index that a step interned at leads back to just that step, the step taken again
returns the same index and leaves the pool alone, and a step that interns anything else returns
another one. -/
theorem interned_references_stay (p : Pool) (later : List PoolStep) :
    (∀ index c, p.get? index = some c → (p.after later).get? index = some c) ∧
    ∀ step : PoolStep, step.isInterning = true → (p.after (step :: later)).slots.size ≤ 65535 →
      ∃ index, (step.run p).1 = .index (some index) ∧
        (p.after (step :: later)).interned? index = some step ∧
        step.run (p.after (step :: later)) = (.index (some index), p.after (step :: later)) ∧
        ∀ other : PoolStep, other.isInterning = true → other ≠ step →
          (other.run (p.after (step :: later))).2.slots.size ≤ 65535 →
          (other.run (p.after (step :: later))).1 ≠ .index (some index) := by
  refine ⟨fun index c found => (grows_after p later).get? found, fun step interning few => ?_⟩
  rw [after_cons] at few ⊢
  have grown := grows_after (step.run p).2 later
  generalize (step.run p).2.after later = q at few grown ⊢
  obtain ⟨index, answer, found⟩ := PoolStep.exists_index interning p
  refine ⟨index, answer, found q grown few, ?_, fun other interning' differs few' same => ?_⟩
  · rw [(PoolStep.settles interning).again grown, answer]
  · -- Both indices are read in the pool behind the second step.
    obtain ⟨index', answer', found'⟩ := PoolStep.exists_index interning' q
    obtain rfl : index' = index := by simpa [answer'] using same
    have first := found _ (grown.trans ((PoolStep.settles interning').growing q)) few'
    have second := found' _ (.refl _) few'
    exact differs (Option.some.inj (second.symm.trans first))

/-- A field of a class whose name stands in the pool twice, with wide entries between. -/
theorem interned_references_stay_planted :
    let p := empty.after [.push (.long 7), .push (.utf8 "A"), .push (.utf8 "A"), .push (.classRef 4)]
    let q := p.after [.fieldRef ⟨"A", "A", "I"⟩, .push (.double 0), .push (.utf8 "A"), .utf8 "B"]
    ∃ index, (PoolStep.run (.fieldRef ⟨"A", "A", "I"⟩) p).1 = .index (some index) ∧
      q.interned? index = some (.fieldRef ⟨"A", "A", "I"⟩) ∧
      PoolStep.run (.fieldRef ⟨"A", "A", "I"⟩) q = (.index (some index), q) ∧
      (PoolStep.run (.methodRef ⟨"A", "A", "I"⟩) q).1 ≠ .index (some index) := by
  intro p q
  obtain ⟨-, lasts⟩ :=
    interned_references_stay p [.push (.double 0), .push (.utf8 "A"), .utf8 "B"]
  obtain ⟨index, answer, found, again, apart⟩ :=
    lasts (.fieldRef ⟨"A", "A", "I"⟩) rfl (by decide +kernel)
  exact ⟨index, answer, found, again,
    apart (.methodRef ⟨"A", "A", "I"⟩) rfl (by decide) (by decide +kernel)⟩

end Pool

end ClassBench
