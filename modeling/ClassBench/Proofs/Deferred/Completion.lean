import ClassBench.Proofs.Deferred.Record
import ClassBench.Proofs.Deferred.Termination

/-! What becomes of callbacks.  The story of a pending value is told once and for all: callbacks are
registered, one completion supplies the value, the callbacks run with it in the order in which they
were registered, and the completion returns.  At any moment of a run a part of the story has
happened and the rest of it is due, and what is due stands on the stack.  A callback that is
registered after the completion runs at once, and a completion that comes too late returns at once.
-/

namespace ClassBench.Deferred

variable {α σ : Type}

/-! ### Stories -/

/-- Whether an event belongs to the story of a pending value; registrations and completions after it
was given its value do not. -/
def Event.isOf (p : PendingId) : Event α σ → Bool
  | registers p' _ => p' = p
  | registersLate .. => false
  | completes p' _ set => p' = p && set
  | runs p' _ _ late => p' = p && !late
  | returns p' _ set => p' = p && set

/-- The story of a pending value that is given a value while callbacks wait for it. -/
def story (p : PendingId) (callbacks : List (α → Program α σ)) (value : α) : List (Event α σ) :=
  callbacks.map (.registers p) ++ .completes p value true ::
    callbacks.map (.runs p · value false) ++ [.returns p value true]

/-- What is to happen to a pending value when the tasks with these marks begin. -/
def Mark.due (p : PendingId) (marks : List (Mark α σ)) : List (Event α σ) :=
  (marks.filterMap Mark.event?).filter (Event.isOf p)

/-- What an event that may have happened adds to the story of a pending value. -/
def Event.added (p : PendingId) (event : Option (Event α σ)) : List (Event α σ) :=
  event.toList.filter (Event.isOf p)

theorem Mark.due_append (p : PendingId) (first second : List (Mark α σ)) :
    due p (first ++ second) = due p first ++ due p second := by
  simp [due]

theorem Mark.due_cons (p : PendingId) (mark : Mark α σ) (marks : List (Mark α σ)) :
    due p (mark :: marks) = Event.added p mark.event? ++ due p marks := by
  cases happens : mark.event? with
  | none => simp [due, Event.added, happens]
  | some event =>
    rw [due, List.filterMap_cons_some happens, ← List.singleton_append, List.filter_append]
    rfl

theorem Mark.due_callbacks (p p' : PendingId) (callbacks : List (α → Program α σ)) (value : α) :
    due p (callbacks.map (.callback p' · value false)) =
      if p' = p then callbacks.map (.runs p' · value false) else [] := by
  induction callbacks with
  | nil => simp [due]
  | cons callback callbacks ih =>
    rw [List.map_cons, due_cons, ih]
    split
    · next same => simp [Event.added, Mark.event?, Event.isOf, same]
    · next other => simp [Event.added, Mark.event?, Event.isOf, other]

/-! ### What a step does to one pending value -/

/-- What a step does to a pending value, what happens, and what becomes due. -/
inductive Affects (m m' : Machine α σ) (action : Action α σ) (p : PendingId) : Prop
  | other (value : m'.store.value? p = m.store.value? p)
      (callbacks : m'.store.callbacks p = m.store.callbacks p)
      (happens : Event.added p (action.event? m.store) = [])
      (due : Mark.due p (action.opens m.store) = [])
  | registers (callback : α → Program α σ) (before : m.store.value? p = none)
      (after : m'.store.value? p = none)
      (callbacks : m'.store.callbacks p = m.store.callbacks p ++ [callback])
      (happens : Event.added p (action.event? m.store) = [.registers p callback])
      (due : Mark.due p (action.opens m.store) = [])
  | completes (value : α) (before : m.store.value? p = none)
      (after : m'.store.value? p = some value)
      (happens : Event.added p (action.event? m.store) = [.completes p value true])
      (due : Mark.due p (action.opens m.store) =
        (m.store.callbacks p).map (.runs p · value false) ++ [.returns p value true])

theorem Machine.Acts.affects {m m' : Machine α σ} {rest : List (Task α σ)} {action : Action α σ}
    (acts : m.Acts rest action m') (p : PendingId) : Affects m m' action p := by
  cases acts with
  | ends same tasks => exact .other (by rw [same]) (by rw [same]) rfl rfl
  | goesOn values callbacks tasks => exact .other (values p) (callbacks p) rfl rfl
  | @completes p' value reply store kept =>
    match found : m.store.pending? p' with
    | none =>
      rw [complete_refused (by simp [kept, found])]
      exact .other (by simp [Store.value?, kept]) (by simp [Store.callbacks, kept])
        (by simp [Event.added, Action.event?, found])
        (by simp [Mark.due, Action.opens, Mark.event?, found])
    | some ⟨some old, callbacks⟩ =>
      rw [complete_refused (by simp [kept, found])]
      exact .other (by simp [Store.value?, kept]) (by simp [Store.callbacks, kept])
        (by simp [Event.added, Action.event?, Event.isOf, found])
        (by simp [Mark.due, Action.opens, Mark.event?, Event.isOf, found])
    | some ⟨none, callbacks⟩ =>
      rw [complete_waiting ((kept p').trans found)]
      by_cases same : p' = p
      · subst same
        have set := Store.pending?_setPending_self (s := store) (p := p') (by simp [kept, found])
          { value := some value }
        refine .completes value (by simp [Store.value?, found]) (by simp [Store.value?, set])
          (by simp [Event.added, Action.event?, Event.isOf, found]) ?_
        simp only [Action.opens, found, Mark.due_append, Mark.due_callbacks, if_true]
        simp [Mark.due, Mark.event?, Event.isOf, Store.callbacks, found]
      · have set := Store.pending?_setPending_ne (s := store) (Ne.symm same)
          { value := some value }
        refine .other (by simp [Store.value?, set, kept]) (by simp [Store.callbacks, set, kept])
          (by simp [Event.added, Action.event?, Event.isOf, found, same]) ?_
        simp only [Action.opens, found, Mark.due_append, Mark.due_callbacks, if_neg same]
        simp [Mark.due, Mark.event?, Event.isOf, same]
  | @registers p' callback next =>
    rcases m.onComplete_cases p' callback next rest with
      ⟨found, after⟩ | ⟨callbacks, found, after⟩ | ⟨value, callbacks, found, after⟩
    · rw [after]
      exact .other rfl rfl (by simp [Event.added, Action.event?, found])
        (by simp [Mark.due, Action.opens, Mark.event?, Store.value?, found])
    · rw [after]
      by_cases same : p' = p
      · subst same
        have set := Store.pending?_setPending_self (s := m.store) (p := p') (by simp [found])
          { callbacks := callbacks ++ [callback] }
        exact .registers callback (by simp [Store.value?, found]) (by simp [Store.value?, set])
          (by simp [Store.callbacks, set, found])
          (by simp [Event.added, Action.event?, Event.isOf, found])
          (by simp [Mark.due, Action.opens, Mark.event?, Store.value?, found])
      · have set := Store.pending?_setPending_ne (s := m.store) (Ne.symm same)
          { callbacks := callbacks ++ [callback] }
        exact .other (by simp [Store.value?, set]) (by simp [Store.callbacks, set])
          (by simp [Event.added, Action.event?, Event.isOf, found, same])
          (by simp [Mark.due, Action.opens, Mark.event?, Store.value?, found])
    · rw [after]
      exact .other rfl rfl (by simp [Event.added, Action.event?, Event.isOf, found])
        (by simp [Mark.due, Action.opens, Mark.event?, Event.isOf, Store.value?, found])

/-! ### Values -/

variable {p : PendingId}

/-- A value stays. -/
theorem Affects.value_stays {m m' : Machine α σ} {action : Action α σ} {value : α}
    (affects : Affects m m' action p) (set : m.store.value? p = some value) :
    m'.store.value? p = some value := by
  cases affects with
  | other same => rw [same, set]
  | registers _ unset | completes _ unset => exact absurd (unset.symm.trans set) nofun

/-- What an event says of the value of its pending value. -/
def Event.Reads (s : Store α σ) : Event α σ → Prop
  | registers .. => True
  | registersLate p _ value | runs p _ value _ => s.value? p = some value
  | completes p value set | returns p value set =>
    if set then s.value? p = some value else (s.value? p).isSome

/-- What an event says stays true, because values stay. -/
theorem Event.Reads.step {m m' : Machine α σ} {action : Action α σ} {e : Event α σ}
    (reads : e.Reads m.store) (affects : ∀ p, Affects m m' action p) : e.Reads m'.store := by
  cases e with
  | registers => trivial
  | registersLate p _ value | runs p _ value _ => exact (affects p).value_stays reads
  | completes p value set | returns p value set =>
    cases set with
    | true => exact (affects p).value_stays reads
    | false =>
      obtain ⟨old, found⟩ := Option.isSome_iff_exists.mp reads
      exact Option.isSome_of_eq_some ((affects p).value_stays found)

/-- What a step tells of values and puts on the stack is true after it. -/
theorem Machine.Acts.reads {m m' : Machine α σ} {rest : List (Task α σ)} {action : Action α σ}
    (acts : m.Acts rest action m') :
    (∀ e, action.event? m.store = some e → e.Reads m'.store) ∧
      ∀ mark ∈ action.opens m.store, ∀ e, mark.event? = some e → e.Reads m'.store := by
  cases acts with
  | ends same tasks => exact ⟨nofun, nofun⟩
  | goesOn values callbacks tasks => exact ⟨nofun, by simp [Action.opens, Mark.event?]⟩
  | @completes p value reply store kept =>
    rcases found : m.store.pending? p with _ | ⟨_ | old, callbacks⟩
    case none =>
      simp [Action.event?, Action.opens, Mark.event?, found]
    case some.some =>
      rw [complete_refused (by simp [kept, found])]
      simp [Action.event?, Action.opens, Mark.event?, Event.Reads, Store.value?, kept, found]
    case some.none =>
      rw [complete_waiting ((kept p).trans found)]
      have set : (store.setPending p { value := some value }).value? p = some value := by
        rw [Store.value?, Store.pending?_setPending_self (by simp [kept, found])]
        rfl
      refine ⟨?_, ?_⟩
      · simp only [Action.event?, found]
        rintro _ ⟨⟩
        exact set
      · simp only [Action.opens, found, List.mem_append, List.mem_map, List.mem_singleton]
        rintro _ (⟨callback, -, rfl⟩ | rfl) _ ⟨⟩
        · exact set
        · exact set
  | @registers p callback next =>
    rcases m.onComplete_cases p callback next rest with
      ⟨found, after⟩ | ⟨callbacks, found, after⟩ | ⟨value, callbacks, found, after⟩
    · simp [Action.event?, Action.opens, Mark.event?, Store.value?, found]
    · simp [Action.event?, Action.opens, Mark.event?, Store.value?, Event.Reads, found]
    · rw [after]
      simp [Action.event?, Action.opens, Mark.event?, Store.value?, Event.Reads, found]

/-! ### The story so far -/

/-- What of the story of a pending value has happened. -/
def Record.told (r : Record α σ) (p : PendingId) : List (Event α σ) :=
  r.events.filter (Event.isOf p)

/-- How far the story of a pending value is. -/
inductive Record.Tells (r : Record α σ) (p : PendingId) : Prop
  /-- Without a value all callbacks that were registered wait, and none is about to run. -/
  | waits (unset : r.machine.store.value? p = none)
      (told : r.told p = (r.machine.store.callbacks p).map (.registers p))
      (due : Mark.due p r.marks = [])
  /-- With a value what has happened and what is due make up the story. -/
  | completed (callbacks : List (α → Program α σ)) (value : α)
      (set : r.machine.store.value? p = some value)
      (told : r.told p ++ Mark.due p r.marks = story p callbacks value)

variable {r : Record α σ}

/-- A step tells the next part of each story. -/
theorem Record.Tells.step (tells : r.Tells p) (fits : r.Fits) : r.step.Tells p := by
  rcases fits.step_cases with ⟨same, -⟩ | ⟨mark, marks, rest, action, top, -, acts, after⟩
  · rwa [same]
  · have before : Mark.due p r.marks = Event.added p mark.event? ++ Mark.due p marks := by
      rw [top, Mark.due_cons]
    have later : Mark.due p r.step.marks =
        Mark.due p (action.opens r.machine.store) ++ Mark.due p marks := by
      rw [after, Mark.due_append]
    have told : r.step.told p = r.told p ++ Event.added p mark.event? ++
        Event.added p (action.event? r.machine.store) := by
      rw [after, told, List.filter_append, List.filter_append]
      rfl
    have machine : r.step.machine = r.machine.step := by rw [after]
    cases tells with
    | completed callbacks value set told' =>
      rw [before] at told'
      cases acts.affects p with
      | other value' callbacks' happens due =>
        refine .completed callbacks value (by rw [machine, value', set]) ?_
        rw [told, later, happens, due, ← told']
        simp
      | registers _ unset | completes _ unset => exact absurd (unset.symm.trans set) nofun
    | waits unset told' due' =>
      -- Nothing is due, neither of the task that begins nor of those below it.
      rw [before, List.append_eq_nil_iff] at due'
      cases acts.affects p with
      | other value' callbacks' happens due =>
        refine .waits (by rw [machine, value', unset]) ?_ (by rw [later, due, due'.2]; rfl)
        rw [told, told', due'.1, happens, machine, callbacks']
        simp
      | registers callback _ unset' callbacks' happens due =>
        refine .waits (by rw [machine, unset']) ?_ (by rw [later, due, due'.2]; rfl)
        rw [told, told', due'.1, happens, machine, callbacks']
        simp
      | completes value _ set happens due =>
        refine .completed (r.machine.store.callbacks p) value (by rw [machine, set]) ?_
        rw [told, later, told', due'.1, due'.2, happens, due, story]
        simp

/-! ### What happens at once -/

namespace Event

/-- What follows an event at once: a callback that was registered late runs, and a completion that
finds a value returns. -/
def followUp? : Event α σ → Option (Event α σ)
  | registersLate p callback value => some (.runs p callback value true)
  | completes p value false => some (.returns p value false)
  | _ => none

/-- Whether an event happens only at once after another. -/
def isFollowUp : Event α σ → Bool
  | runs _ _ _ late => late
  | returns _ _ set => !set
  | _ => false

/-- Whatever is to follow an event at once follows it, and happens at no other time. -/
def Prompt (events : List (Event α σ)) : Prop :=
  ∀ before e after, events = before ++ e :: after →
    before.getLast?.bind followUp? = if e.isFollowUp then some e else none

theorem Prompt.snoc {events : List (Event α σ)} {e : Event α σ} (prompt : Prompt events)
    (here : events.getLast?.bind followUp? = if e.isFollowUp then some e else none) :
    Prompt (events ++ [e]) := by
  intro before e' after split
  rcases after.eq_nil_or_concat with rfl | ⟨after, last, rfl⟩
  · obtain ⟨rfl, same⟩ := List.append_inj' split rfl
    cases same
    exact here
  · rw [List.concat_eq_append, ← List.cons_append, ← List.append_assoc] at split
    exact prompt before e' after (List.append_inj' split rfl).1

end Event

/-- What the beginning of the task follows at once. -/
def Mark.followUp? (mark : Mark α σ) : Option (Event α σ) := mark.event?.filter Event.isFollowUp

/-- The beginning of a task is followed by nothing at once. -/
theorem Mark.followUp?_of_event {mark : Mark α σ} {e : Event α σ} (happens : mark.event? = some e) :
    e.followUp? = none := by
  cases mark <;> cases happens <;> rfl

@[simp] theorem Mark.followUp?_plain : (plain : Mark α σ).followUp? = none := rfl

@[simp] theorem Mark.followUp?_callback (p : PendingId) (c : α → Program α σ) (value : α)
    (late : Bool) : (callback p c value late).followUp? =
      if late then some (.runs p c value true) else none := by
  cases late <;> rfl

@[simp] theorem Mark.followUp?_answer (p : PendingId) (value : α) (set : Bool)
    (reply : Bool → Task α σ) : (answer p value set reply).followUp? =
      if set then none else some (.returns p value false) := by
  cases set <;> rfl

namespace Action

variable {s : Store α σ} {action : Action α σ}

theorem isFollowUp_event {e : Event α σ} (happens : action.event? s = some e) :
    e.isFollowUp = false := by
  cases action with
  | ends | goesOn => cases happens
  | completes p value reply =>
    obtain ⟨kept, -, rfl⟩ := Option.map_eq_some_iff.mp happens
    rfl
  | registers p callback next =>
    obtain ⟨⟨value, callbacks⟩, -, rfl⟩ := Option.map_eq_some_iff.mp happens
    cases value <;> rfl

/-- What is to follow at once is on top of the stack, and nothing else there is to. -/
theorem opens_followUp (s : Store α σ) (action : Action α σ) :
    (action.event? s).bind Event.followUp? = (action.opens s).head?.bind Mark.followUp? ∧
      ∀ mark ∈ (action.opens s).tail, mark.followUp? = none := by
  cases action with
  | ends => exact ⟨rfl, by simp [opens]⟩
  | goesOn => exact ⟨rfl, by simp [opens]⟩
  | completes p value reply =>
    rcases found : s.pending? p with _ | ⟨_ | old, callbacks⟩
    case none => simp [event?, opens, found]
    case some.some => simp [event?, opens, found, Event.followUp?]
    case some.none =>
      have patient : ∀ mark ∈ (completes p value reply).opens s, mark.followUp? = none := by
        simp only [opens, found, List.mem_append, List.mem_map, List.mem_singleton]
        rintro _ (⟨callback, -, rfl⟩ | rfl) <;> simp
      refine ⟨?_, fun mark member => patient mark (List.mem_of_mem_tail member)⟩
      cases callbacks <;> simp [event?, opens, found, Event.followUp?]
  | registers p callback next =>
    rcases found : s.pending? p with _ | ⟨_ | value, callbacks⟩ <;>
      simp [event?, opens, found, Store.value?, Event.followUp?]

end Action

/-- What is to follow at once has followed, or the topmost task is to follow at once. -/
structure Record.Punctual (r : Record α σ) : Prop where
  prompt : Event.Prompt r.events
  next : r.events.getLast?.bind Event.followUp? = r.marks.head?.bind Mark.followUp?
  patient : ∀ mark ∈ r.marks.tail, mark.followUp? = none

theorem Record.Punctual.step (punctual : r.Punctual) (fits : r.Fits) : r.step.Punctual := by
  rcases fits.step_cases with ⟨same, -⟩ | ⟨mark, marks, rest, action, top, -, acts, after⟩
  · rwa [same]
  · obtain ⟨prompt, next, patient⟩ := punctual
    rw [top] at next patient
    rw [after]
    obtain ⟨opened, tail⟩ := action.opens_followUp r.machine.store
    -- When the topmost task has begun, nothing is to follow.
    have begun : Event.Prompt (r.events ++ mark.event?.toList) ∧
        (r.events ++ mark.event?.toList).getLast?.bind Event.followUp? = none := by
      rw [List.head?_cons, Option.bind_some, Mark.followUp?] at next
      cases happens : mark.event? with
      | none =>
        rw [happens] at next
        rw [Option.toList_none, List.append_nil]
        exact ⟨prompt, next⟩
      | some e =>
        rw [happens] at next
        refine ⟨prompt.snoc (next.trans (Option.filter_some ..)), ?_⟩
        simp [Mark.followUp?_of_event happens]
    have top' : (action.opens r.machine.store ++ marks).head?.bind Mark.followUp? =
        (action.event? r.machine.store).bind Event.followUp? := by
      rw [opened]
      cases action.opens r.machine.store with
      | cons first others => rfl
      | nil =>
        cases marks with
        | nil => rfl
        | cons first others => exact patient first List.mem_cons_self
    have patient' : ∀ mark ∈ (action.opens r.machine.store ++ marks).tail,
        mark.followUp? = none := by
      intro mark' member
      cases opens : action.opens r.machine.store with
      | nil =>
        rw [opens] at member
        exact patient mark' (List.mem_of_mem_tail member)
      | cons first others =>
        rw [opens] at member tail
        rcases List.mem_append.mp member with new | old
        · exact tail mark' new
        · exact patient mark' old
    cases happens : action.event? r.machine.store with
    | none =>
      rw [happens] at top'
      rw [Option.toList_none, List.append_nil]
      exact ⟨begun.1, begun.2.trans top'.symm, patient'⟩
    | some e =>
      rw [happens] at top'
      refine ⟨begun.1.snoc ?_, ?_, patient'⟩
      · rw [begun.2, Action.isFollowUp_event happens]
        rfl
      · rw [top']
        simp

/-! ### Runs -/

/-- What is true of the record of a run at any moment. -/
structure Record.Orderly (r : Record α σ) : Prop where
  /-- The marks are those of the tasks: a callback is run with the value, and what follows a
  completion is given its answer. -/
  fits : r.Fits
  tells : ∀ p, r.Tells p
  punctual : r.Punctual
  happened : ∀ e ∈ r.events, e.Reads r.machine.store
  /-- The value is there before a callback begins. -/
  readable : ∀ mark ∈ r.marks, ∀ e, mark.event? = some e → e.Reads r.machine.store

theorem Record.Orderly.step (orderly : r.Orderly) : r.step.Orderly := by
  have fits := orderly.fits
  refine {
    fits := fits.step.1
    tells p := (orderly.tells p).step fits
    punctual := orderly.punctual.step fits
    happened := ?_
    readable := ?_ }
  all_goals rcases fits.step_cases with ⟨same, -⟩ | ⟨mark, marks, rest, action, top, -, acts, after⟩
  · rw [same]
    exact orderly.happened
  · rw [after]
    intro e member
    simp only [List.mem_append, Option.mem_toList] at member
    rcases member with (earlier | begins) | happens
    · exact (orderly.happened e earlier).step acts.affects
    · refine (orderly.readable mark ?_ e begins).step acts.affects
      rw [top]
      exact List.mem_cons_self
    · exact acts.reads.1 e happens
  · rw [same]
    exact orderly.readable
  · rw [after]
    intro mark' member e happens
    rcases List.mem_append.mp member with new | old
    · exact acts.reads.2 mark' new e happens
    · refine (orderly.readable mark' ?_ e happens).step acts.affects
      rw [top]
      exact List.mem_cons_of_mem _ old

/-- The machine that is about to run a program, without pending values. -/
def Machine.fresh (state : σ) (program : Program α σ) : Machine α σ := start { state } program

theorem Event.prompt_nil : Prompt ([] : List (Event α σ)) := by
  intro before e after split
  simp at split

theorem Machine.orderly_record (state : σ) (program : Program α σ) (n : Nat) :
    ((fresh state program).record n).Orderly := by
  induction n with
  | zero =>
    have marks : ((fresh state program).record 0).marks = [.plain] := rfl
    exact {
      fits := ((fresh state program).record_fits 0).1
      tells p := .waits rfl rfl rfl
      punctual := ⟨Event.prompt_nil, rfl, nofun⟩
      happened := nofun
      readable := by simp [marks, Mark.event?] }
  | succ n ih =>
    rw [record_succ]
    exact ih.step

theorem Machine.value?_run (m : Machine α σ) {p : PendingId} {value : α}
    (set : m.store.value? p = some value) (n : Nat) : (m.run n).store.value? p = some value := by
  induction n with
  | zero => exact set
  | succ n ih =>
    rw [run_succ]
    cases tasks : (m.run n).tasks with
    | nil => rwa [step_idle tasks]
    | cons task rest => exact ((acts tasks).affects p).value_stays ih

/-- In every run of a program that makes pending values, at any moment the story of each of them is
told up to a point, late callbacks and late completions are dealt with at once, and values stay.
What begins is carried to its end before the tasks below it.  And the run ends, and then each story
is told in full: a pending value has its callbacks waiting, or was given its value once, whereupon
the callbacks ran with it, once each and in order, before the completion that gave it returned. -/
theorem callbacks_run_once (state : σ) (program : Program α σ) :
    let m := Machine.fresh state program
    (∀ n, (m.record n).machine = m.run n ∧ (m.record n).Orderly) ∧
    (∀ n k p value, (m.run n).store.value? p = some value →
      (m.run (n + k)).store.value? p = some value) ∧
    (∀ n task rest, (m.run n).tasks = task :: rest → (m.run n).ComesDownTo rest) ∧
    ∃ n, (m.run n).tasks = [] ∧ ∀ p,
      (m.run n).store.value? p = none ∧
        (m.record n).told p = ((m.run n).store.callbacks p).map (.registers p) ∨
      ∃ callbacks value, (m.run n).store.value? p = some value ∧
        (m.record n).told p = story p callbacks value := by
  intro m
  refine ⟨fun n => ⟨(m.record_fits n).2, Machine.orderly_record state program n⟩, ?_,
    fun n task rest top => Machine.comes_down (show _ = [task] ++ rest from top), ?_⟩
  · intro n k p value set
    rw [Nat.add_comm, Machine.run_eq_iterate, Function.iterate_add_apply, ← Machine.run_eq_iterate,
      ← Machine.run_eq_iterate]
    exact (m.run n).value?_run set k
  · obtain ⟨n, ends⟩ := m.halts
    obtain ⟨fits, machine⟩ := m.record_fits n
    -- When no task is left, nothing is due.
    have none : (m.record n).marks = [] := by
      rw [Record.Fits, machine, ends] at fits
      exact List.forall₂_nil_right_iff.mp fits
    refine ⟨n, ends, fun p => ?_⟩
    cases (Machine.orderly_record state program n).tells p with
    | waits unset told => exact .inl (by rw [← machine]; exact ⟨unset, told⟩)
    | completed callbacks value set told =>
      refine .inr ⟨callbacks, value, machine ▸ set, ?_⟩
      change (m.record n).told p ++ Mark.due p (m.record n).marks = _ at told
      rwa [none, Mark.due, List.filterMap_nil, List.filter_nil, List.append_nil] at told

/-- A callback that registers another one on its own pending value. -/
example :
    let inner (value : Nat) : Program Nat (List Nat) := .access (value :: ·) fun _ => .done
    let outer (_ : Nat) : Program Nat (List Nat) := .onComplete ⟨0⟩ inner .done
    let program : Program Nat (List Nat) := .newPending fun p =>
      .onComplete p outer (.onComplete p inner
        (.complete p 5 fun _ => .complete p 6 fun _ => .done))
    ((Machine.fresh [] program).record 12).events =
      [.registers ⟨0⟩ outer, .registers ⟨0⟩ inner, .completes ⟨0⟩ 5 true,
        .runs ⟨0⟩ outer 5 false, .registersLate ⟨0⟩ inner 5, .runs ⟨0⟩ inner 5 true,
        .runs ⟨0⟩ inner 5 false, .returns ⟨0⟩ 5 true, .completes ⟨0⟩ 6 false,
        .returns ⟨0⟩ 6 false] := rfl

end ClassBench.Deferred
