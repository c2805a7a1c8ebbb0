import ClassBench.Proofs.Deferred.Completion

/-! Mapped values.  A map makes a pending value and registers a callback on its source, which
completes the new one with a function of the value.  The callback runs once at most, and when none
is left to run it has run if the source has its value.  So, as long as nobody else completes it, a
mapped value is the function of its source, and maps of maps are maps by the composition. -/

namespace ClassBench.Deferred

variable {α σ : Type}

/-- A property that comes to hold does so at some step. -/
theorem exists_step {P : Nat → Prop} {i n : Nat} (le : i ≤ n) (before : ¬ P i) (after : P n) :
    ∃ k, i ≤ k ∧ k < n ∧ ¬ P k ∧ P (k + 1) := by
  induction n, le using Nat.le_induction with
  | base => exact absurd after before
  | succ n le ih =>
    by_cases earlier : P n
    · obtain ⟨k, since, until', unmet, met⟩ := ih earlier
      exact ⟨k, since, Nat.lt_succ_of_lt until', unmet, met⟩
    · exact ⟨n, le, Nat.lt_succ_self n, earlier, after⟩

/-! ### The callbacks that wait, in their order -/

namespace Event

/-- The callback that an event leaves waiting for the value. -/
def registered? (p : PendingId) : Event α σ → Option (α → Program α σ)
  | registers p' callback => if p' = p then some callback else none
  | _ => none

/-- The callback that begins, if it is one that waited, and the value that it is given. -/
def begun? (p : PendingId) : Event α σ → Option ((α → Program α σ) × α)
  | runs p' callback value false => if p' = p then some (callback, value) else none
  | _ => none

/-- The callbacks that have been waiting for the value, in the order of their registration. -/
def registered (p : PendingId) (events : List (Event α σ)) : List (α → Program α σ) :=
  events.filterMap (registered? p)

/-- Those of them that have begun, in the order in which they did. -/
def begun (p : PendingId) (events : List (Event α σ)) : List ((α → Program α σ) × α) :=
  events.filterMap (begun? p)

theorem begun?_eq_some {p : PendingId} {e : Event α σ} {callback : α → Program α σ} {value : α}
    (begins : e.begun? p = some (callback, value)) : e = .runs p callback value false := by
  unfold begun? at begins
  split at begins
  · split at begins
    · next same =>
      cases begins
      rw [same]
    · cases begins
  · cases begins

theorem registered_append (p : PendingId) (first second : List (Event α σ)) :
    registered p (first ++ second) = registered p first ++ registered p second :=
  List.filterMap_append

theorem begun_append (p : PendingId) (first second : List (Event α σ)) :
    begun p (first ++ second) = begun p first ++ begun p second :=
  List.filterMap_append

/-- Registrations are part of the story. -/
theorem registered_filter (p : PendingId) (events : List (Event α σ)) :
    registered p (events.filter (isOf p)) = registered p events := by
  rw [registered, List.filterMap_filter, registered]
  congr 1
  funext e
  cases e <;> simp [registered?, isOf]

/-- The callbacks that waited are part of the story. -/
theorem begun_filter (p : PendingId) (events : List (Event α σ)) :
    begun p (events.filter (isOf p)) = begun p events := by
  rw [begun, List.filterMap_filter, begun]
  congr 1
  funext e
  cases e with
  | runs p' callback value late => cases late <;> simp [begun?, isOf]
  | _ => simp [begun?]

theorem registered_registers (p : PendingId) (callbacks : List (α → Program α σ)) :
    registered p (callbacks.map (.registers p)) = callbacks := by
  simp [registered, List.filterMap_map, Function.comp_def, registered?]

theorem registered_runs (p : PendingId) (callbacks : List (α → Program α σ)) (value : α) :
    registered p (callbacks.map (.runs p · value false)) = [] := by
  simp [registered, List.filterMap_map, Function.comp_def, registered?]

theorem begun_registers (p : PendingId) (callbacks : List (α → Program α σ)) :
    begun p (callbacks.map (.registers p)) = [] := by
  simp [begun, List.filterMap_map, Function.comp_def, begun?]

theorem begun_runs (p : PendingId) (callbacks : List (α → Program α σ)) (value : α) :
    begun p (callbacks.map (.runs p · value false)) = callbacks.map (·, value) := by
  simp [begun, List.filterMap_map, Function.comp_def, begun?, List.filterMap_eq_map']

theorem registered_story (p : PendingId) (callbacks : List (α → Program α σ)) (value : α) :
    registered p (story p callbacks value) = callbacks := by
  rw [story, registered_append, registered_append, registered_registers]
  change callbacks ++ registered p (callbacks.map (.runs p · value false)) ++ [] = callbacks
  rw [registered_runs, List.append_nil, List.append_nil]

theorem begun_story (p : PendingId) (callbacks : List (α → Program α σ)) (value : α) :
    begun p (story p callbacks value) = callbacks.map (·, value) := by
  rw [story, begun_append, begun_append, begun_registers]
  change [] ++ begun p (callbacks.map (.runs p · value false)) ++ [] = _
  rw [begun_runs, List.nil_append, List.append_nil]

end Event

namespace Mark

/-- Whether a task is a callback that has not begun. -/
def isCallback : Mark α σ → Bool
  | .callback .. => true
  | _ => false

/-- Nothing is registered when a task begins. -/
theorem registered_due (p : PendingId) (marks : List (Mark α σ)) :
    Event.registered p (due p marks) = [] := by
  rw [due, Event.registered_filter, Event.registered, List.filterMap_filterMap]
  refine List.filterMap_eq_nil_iff.mpr fun mark _ => ?_
  cases mark <;> rfl

/-- No callback begins when none of the tasks is one. -/
theorem begun_due (p : PendingId) {marks : List (Mark α σ)}
    (calm : ∀ mark ∈ marks, mark.isCallback = false) : Event.begun p (due p marks) = [] := by
  rw [due, Event.begun_filter, Event.begun, List.filterMap_filterMap]
  refine List.filterMap_eq_nil_iff.mpr fun mark member => ?_
  cases mark with
  | callback => cases calm _ member
  | _ => rfl

end Mark

/-- A callback begins with its task, and not by what another task does. -/
theorem Action.begun_event (s : Store α σ) (action : Action α σ) (p : PendingId) :
    Event.begun p (action.event? s).toList = [] := by
  cases action with
  | ends | goesOn => rfl
  | completes p' value reply =>
    rw [event?]
    cases s.pending? p' <;> rfl
  | registers p' callback next =>
    rw [event?]
    rcases s.pending? p' with _ | ⟨_ | value, callbacks⟩ <;> rfl

/-- Above what a completion or a registration goes on with there are callbacks only. -/
theorem Action.last_opens (s : Store α σ) (action : Action α σ) :
    ∀ mark ∈ (action.opens s).getLast?, mark.isCallback = false := by
  cases action with
  | ends => simp [opens]
  | goesOn => simp [opens, Mark.isCallback]
  | completes p value reply =>
    rcases found : s.pending? p with _ | ⟨_ | old, callbacks⟩ <;>
      simp [opens, found, Mark.isCallback]
  | registers p callback next =>
    cases set : s.value? p <;> simp [opens, set, Mark.isCallback]

namespace Record

variable {r : Record α σ} {p : PendingId} {value : α}

/-- What happens when the topmost task begins. -/
def next? (r : Record α σ) : Option (Event α σ) := r.marks.head?.bind Mark.event?

/-- No callback is about to begin. -/
def Calm (r : Record α σ) : Prop := ∀ mark ∈ r.marks, mark.isCallback = false

theorem Calm.not_begins (calm : r.Calm) {callback : α → Program α σ} {late : Bool}
    (begins : r.next? = some (.runs p callback value late)) : False := by
  obtain ⟨mark, first, happens⟩ := Option.bind_eq_some_iff.mp begins
  have none := calm mark (List.mem_of_mem_head? first)
  cases mark with
  | callback => cases none
  | _ => cases happens

/-- Without a value the callbacks that were registered are those that wait. -/
theorem Tells.registered_of_unset (tells : r.Tells p)
    (unset : r.machine.store.value? p = none) :
    Event.registered p r.events = r.machine.store.callbacks p := by
  cases tells with
  | completed _ _ set => exact absurd (unset.symm.trans set) nofun
  | waits _ told =>
    rw [← Event.registered_filter]
    change Event.registered p (r.told p) = _
    rw [told, Event.registered_registers]

/-- Once there is a value, callbacks begin with it in the order of their registration, and none is
left out when none is about to begin. -/
theorem Tells.begun_of_set (tells : r.Tells p) (set : r.machine.store.value? p = some value) :
    Event.begun p r.events <+: (Event.registered p r.events).map (·, value) ∧
      (r.Calm → Event.begun p r.events = (Event.registered p r.events).map (·, value)) := by
  cases tells with
  | waits unset => exact absurd (unset.symm.trans set) nofun
  | completed callbacks value' set' told =>
    obtain rfl : value' = value := Option.some.inj (set'.symm.trans set)
    have all : Event.registered p r.events = callbacks := by
      have registered := congrArg (Event.registered p) told
      rwa [Event.registered_append, Mark.registered_due, List.append_nil, Event.registered_story,
        Record.told, Event.registered_filter] at registered
    have begun := congrArg (Event.begun p) told
    rw [Event.begun_append, Event.begun_story, Record.told, Event.begun_filter] at begun
    rw [all]
    refine ⟨⟨_, begun⟩, fun calm => ?_⟩
    rwa [Mark.begun_due p calm, List.append_nil] at begun

/-- A step adds to the callbacks that have begun the one that is about to. -/
theorem Fits.begun_step (fits : r.Fits) (p : PendingId) :
    Event.begun p r.step.events =
      Event.begun p r.events ++ (r.next?.bind (Event.begun? p)).toList := by
  cases tasks : r.machine.tasks with
  | nil =>
    rw [Fits, tasks, List.forall₂_nil_right_iff] at fits
    simp [step_idle tasks, next?, fits]
  | cons task rest =>
    rw [Fits, tasks] at fits
    obtain ⟨mark, marks, -, -, top⟩ := List.forall₂_cons_right_iff.mp fits
    rw [step_eq tasks top, Event.begun_append, Event.begun_append, Action.begun_event,
      List.append_nil, next?, top]
    cases happens : mark.event? with
    | none => simp [happens, Event.begun]
    | some e => cases begins : e.begun? p <;> simp [happens, Event.begun, begins]

/-- Below callbacks there is always a task that is none. -/
theorem Fits.last_step (fits : r.Fits) (last : ∀ mark ∈ r.marks.getLast?, mark.isCallback = false) :
    ∀ mark ∈ r.step.marks.getLast?, mark.isCallback = false := by
  rcases fits.step_cases with ⟨same, -⟩ | ⟨mark, marks, rest, action, top, -, -, after⟩
  · rwa [same]
  · rw [after, List.getLast?_append]
    rw [top, List.getLast?_cons] at last
    cases under : marks.getLast? with
    | none => exact action.last_opens r.machine.store
    | some mark' =>
      rw [under] at last
      exact last

end Record

/-! ### Maps in a run -/

/-- A map in a run: at which step it is made, of which value and by which function, and what it
returns. -/
structure MapCall (α : Type) where
  step : Nat
  source : PendingId
  function : α → α
  target : PendingId

/-- The callback that a map registers. -/
def MapCall.callback (call : MapCall α) (value : α) : Program α σ :=
  .complete call.target (call.function value) fun _ => .done

namespace Machine

/-- The run makes the map, of a pending value that there is. -/
structure Makes (m : Machine α σ) (call : MapCall α) : Prop where
  calls : ∃ next rest,
    (m.run call.step).tasks = .run (Routine.map call.source call.function next) :: rest
  known : ((m.run call.step).store.pending? call.source).isSome
  target : call.target.index = (m.run call.step).store.pendings.size

/-- At step `k` the callback of a map begins, and calls the function: as soon as it is registered,
if there was a value already, and else in its turn, when as many have begun as waited before it. -/
inductive CallsFunction (m : Machine α σ) (call : MapCall α) (k : Nat) : Prop
  | atOnce (value : α) (set : (m.run call.step).store.value? call.source = some value)
      (next : k = call.step + 2)
      (begins : (m.record k).next? = some (.runs call.source call.callback value true))
  | inTurn (value : α) (unset : (m.run call.step).store.value? call.source = none)
      (turn : (Event.begun call.source (m.record k).events).length =
        ((m.run call.step).store.callbacks call.source).length)
      (begins : (m.record k).next? = some (.runs call.source call.callback value false))

/-- Up to step `n` nobody but the map's own callback supplies the mapped value. -/
def Owns (m : Machine α σ) (call : MapCall α) (n : Nat) : Prop :=
  ∀ k < n, (m.run k).store.value? call.target = none →
    (m.run (k + 1)).store.value? call.target ≠ none → m.CallsFunction call k

/-- By step `n` the run has made a map of `p` by `f`, which returned `t`, and nobody but the map's
own callback has supplied `t`. -/
def Maps (m : Machine α σ) (n : Nat) (p : PendingId) (f : α → α) (t : PendingId) : Prop :=
  ∃ step, m.Makes ⟨step, p, f, t⟩ ∧ step + 2 ≤ n ∧ m.Owns ⟨step, p, f, t⟩ n

/-- Maps that were made of one another, with the composition of their functions. -/
inductive MapsAll (m : Machine α σ) (n : Nat) (p : PendingId) : (α → α) → PendingId → Prop
  | none : MapsAll m n p id p
  | next {f g : α → α} {q t : PendingId} (before : MapsAll m n p f q) (last : m.Maps n q g t) :
      MapsAll m n p (g ∘ f) t

variable {m : Machine α σ} {call : MapCall α} {value : α} {n k : Nat}

theorem value?_run_of_le {p : PendingId} (le : k ≤ n)
    (set : (m.run k).store.value? p = some value) : (m.run n).store.value? p = some value := by
  obtain ⟨d, rfl⟩ := Nat.exists_eq_add_of_le le
  rw [run_add]
  exact (m.run k).value?_run set d

/-- What has happened stays. -/
theorem prefix_record_events (m : Machine α σ) (le : k ≤ n) :
    (m.record k).events <+: (m.record n).events := by
  induction n, le using Nat.le_induction with
  | base => exact List.prefix_rfl
  | succ n le ih =>
    rw [record_succ]
    refine ih.trans ?_
    rcases (m.record_fits n).1.step_cases with ⟨same, -⟩ | ⟨_, _, _, _, -, -, -, after⟩
    · rw [same]
    · rw [after, List.append_assoc]
      exact List.prefix_append ..

theorem begun_record_succ (m : Machine α σ) (n : Nat) (p : PendingId) :
    Event.begun p (m.record (n + 1)).events =
      Event.begun p (m.record n).events ++ ((m.record n).next?.bind (Event.begun? p)).toList := by
  rw [record_succ]
  exact (m.record_fits n).1.begun_step p

namespace Makes

variable (made : m.Makes call)
include made

/-- First the map makes the new value. -/
theorem run_first : ∃ (next : Program α σ) (rest : List (Task α σ)),
    m.run (call.step + 1) = {
      store := (m.run call.step).store.addPending
      state := (m.run call.step).state
      tasks := .run (.onComplete call.source call.callback next) :: rest } := by
  obtain ⟨next, rest, top⟩ := made.calls
  obtain ⟨step, p, f, t⟩ := call
  obtain rfl : t = ⟨(m.run step).store.pendings.size⟩ := PendingId.ext made.target
  refine ⟨next ⟨(m.run step).store.pendings.size⟩, rest, ?_⟩
  rw [run_succ, step_run top]
  rfl

/-- The source has the same value and callbacks when the callback is registered. -/
theorem source_first :
    (m.run (call.step + 1)).store.value? call.source =
        (m.run call.step).store.value? call.source ∧
      (m.run (call.step + 1)).store.callbacks call.source =
        (m.run call.step).store.callbacks call.source ∧
      ((m.run (call.step + 1)).store.pending? call.source).isSome := by
  obtain ⟨next, rest, after⟩ := made.run_first
  rw [after]
  refine ⟨Store.value?_addPending _, Store.callbacks_addPending _, ?_⟩
  rw [Store.pending?_addPending]
  split
  · rfl
  · exact made.known

/-- The new value has no value before it is made. -/
theorem target_unset : (m.run call.step).store.value? call.target = none := by
  simp [Store.value?, Store.pending?, made.target]

/-- From then on the new value is there. -/
theorem target_known (later : call.step + 1 ≤ k) :
    ((m.run k).store.pending? call.target).isSome := by
  obtain ⟨next, rest, after⟩ := made.run_first
  obtain ⟨d, rfl⟩ := Nat.exists_eq_add_of_le later
  have more := (m.run (call.step + 1)).size_pendings_run d
  rw [after, Store.size_pendings_addPending, ← after, ← run_add, ← made.target] at more
  rw [Store.pending?, Array.getElem?_eq_getElem more]
  rfl

/-- If there is a value, the callback is on top of the stack as soon as it is registered. -/
theorem next_of_set (set : (m.run call.step).store.value? call.source = some value) :
    (m.record (call.step + 2)).next? =
      some (.runs call.source call.callback value true) := by
  obtain ⟨next, rest, after⟩ := made.run_first
  have set' := made.source_first.1.trans set
  obtain ⟨fits, machine⟩ := m.record_fits (call.step + 1)
  have top : (m.record (call.step + 1)).machine.tasks =
      .run (.onComplete call.source call.callback next) :: rest := by rw [machine, after]
  rw [Record.Fits, top] at fits
  obtain ⟨mark, marks, -, -, first⟩ := List.forall₂_cons_right_iff.mp fits
  rw [record_succ, Record.step_eq top first, Record.next?]
  simp [Task.action, Action.opens, machine, set', Mark.event?]

/-- If there is none, the callback becomes the last of those that wait. -/
theorem callbacks_of_unset (unset : (m.run call.step).store.value? call.source = none) :
    (m.run (call.step + 2)).store.value? call.source = none ∧
      (m.run (call.step + 2)).store.callbacks call.source =
        (m.run call.step).store.callbacks call.source ++ [call.callback] := by
  obtain ⟨next, rest, after⟩ := made.run_first
  obtain ⟨same, waiting, known⟩ := made.source_first
  rw [unset] at same
  have top : (m.run (call.step + 1)).tasks =
      .run (.onComplete call.source call.callback next) :: rest := by rw [after]
  rw [run_succ m (call.step + 1), step_run top, ← waiting]
  rcases (m.run (call.step + 1)).onComplete_cases call.source call.callback next rest with
    ⟨absent, -⟩ | ⟨callbacks, found, registered⟩ | ⟨value, callbacks, found, -⟩
  · simp [absent] at known
  · have set := Store.pending?_setPending_self known { callbacks := callbacks ++ [call.callback] }
    rw [registered]
    exact ⟨by simp [Store.value?, set], by simp [Store.callbacks, set, found]⟩
  · simp [Store.value?, found] at same

end Makes

/-- A callback that waited has its turn once. -/
theorem turn_passes {p : PendingId} {callback : α → Program α σ} (lt : k < n)
    (begins : (m.record k).next? = some (.runs p callback value false)) :
    (Event.begun p (m.record k).events).length < (Event.begun p (m.record n).events).length := by
  have after := m.begun_record_succ k p
  have stays := ((m.prefix_record_events lt).filterMap (Event.begun? p)).length_le
  change (Event.begun p _).length ≤ (Event.begun p _).length at stays
  rw [after, begins] at stays
  simp only [Option.bind_some, Event.begun?, if_true, Option.toList_some, List.length_append,
    List.length_singleton] at stays
  exact stays

/-- A value that a map's own callback has supplied is supplied by nobody else. -/
theorem CallsFunction.owns (calls : m.CallsFunction call k)
    (unset : (m.run k).store.value? call.target = none)
    (set : (m.run (k + 1)).store.value? call.target = some value) (n : Nat) : m.Owns call n := by
  intro k' _ unset' set'
  obtain ⟨w, given⟩ := Option.ne_none_iff_exists'.mp set'
  rcases Nat.lt_trichotomy k' k with lt | rfl | lt
  · rw [value?_run_of_le lt given] at unset
    cases unset
  · exact calls
  · rw [value?_run_of_le lt set] at unset'
    cases unset'

/-- A map calls its function once at most. -/
theorem CallsFunction.unique {k' : Nat} (calls : m.CallsFunction call k)
    (calls' : m.CallsFunction call k') : k = k' := by
  cases calls with
  | atOnce value set next begins =>
    cases calls' with
    | atOnce value' set' next' begins' => exact next.trans next'.symm
    | inTurn value' unset' turn' begins' => exact absurd (unset'.symm.trans set) nofun
  | inTurn value unset turn begins =>
    cases calls' with
    | atOnce value' set' next' begins' => exact absurd (unset.symm.trans set') nofun
    | inTurn value' unset' turn' begins' =>
      rcases Nat.lt_trichotomy k k' with lt | same | lt
      · have passed := turn_passes lt begins
        omega
      · exact same
      · have passed := turn_passes lt begins'
        omega

/-- Each callback that has begun after it waited had its turn at some step. -/
theorem exists_turn {p : PendingId} {place : Nat}
    (past : place < (Event.begun p (m.record n).events).length) :
    ∃ k < n, ∃ callback value, (m.record k).next? = some (.runs p callback value false) ∧
      (Event.begun p (m.record k).events).length = place ∧
      Event.begun p (m.record k).events ++ [(callback, value)] <+:
        Event.begun p (m.record n).events := by
  obtain ⟨k, -, until', before, after⟩ := exists_step
    (P := fun k => place < (Event.begun p (m.record k).events).length)
    (Nat.zero_le n) (Nat.not_lt_zero place) past
  have passes := m.begun_record_succ k p
  cases happens : (m.record k).next?.bind (Event.begun? p) with
  | none =>
    rw [passes, happens, Option.toList_none, List.append_nil] at after
    exact absurd after before
  | some begun =>
    obtain ⟨e, begins, starts⟩ := Option.bind_eq_some_iff.mp happens
    rw [happens, Option.toList_some] at passes
    rw [passes, List.length_append, List.length_singleton] at after
    rw [Event.begun?_eq_some starts] at begins
    refine ⟨k, until', begun.1, begun.2, begins, by omega, ?_⟩
    rw [← passes]
    exact (m.prefix_record_events until').filterMap _

section Values

variable (orderly : ∀ k, (m.record k).Orderly)
include orderly

/-- When a callback begins, it is on top of the stack and is given the value. -/
theorem of_next {p : PendingId} {callback : α → Program α σ} {late : Bool}
    (begins : (m.record k).next? = some (.runs p callback value late)) :
    (m.run k).store.value? p = some value ∧
      ∃ rest, (m.run k).tasks = .run (callback value) :: rest := by
  obtain ⟨fits, machine⟩ := m.record_fits k
  obtain ⟨mark, first, happens⟩ := Option.bind_eq_some_iff.mp begins
  obtain ⟨marks, top⟩ := List.head?_eq_some_iff.mp first
  refine ⟨?_, ?_⟩
  · rw [← machine]
    exact (orderly k).readable mark (top ▸ List.mem_cons_self) _ happens
  · rw [Record.Fits, top, machine] at fits
    obtain ⟨task, rest, is, -, tasks⟩ := List.forall₂_cons_left_iff.mp fits
    cases mark with
    | callback p' callback' value' late' =>
      cases happens
      exact ⟨rest, by rw [tasks, is]⟩
    | _ => cases happens

/-- The callback of a map begins after the map has returned and when the source has its value, and
what it supplies is the function of it. -/
theorem CallsFunction.supplies (calls : m.CallsFunction call k) (made : m.Makes call) :
    call.step + 2 ≤ k ∧ ∃ value, (m.run k).store.value? call.source = some value ∧
      (m.run (k + 1)).store.value? call.target =
        some (((m.run k).store.value? call.target).getD (call.function value)) := by
  have after {value : α} {late : Bool} (later : call.step + 2 ≤ k)
      (begins : (m.record k).next? = some (.runs call.source call.callback value late)) :
      call.step + 2 ≤ k ∧ ∃ value, (m.run k).store.value? call.source = some value ∧
        (m.run (k + 1)).store.value? call.target =
          some (((m.run k).store.value? call.target).getD (call.function value)) := by
    obtain ⟨set, rest, top⟩ := of_next orderly begins
    refine ⟨later, value, set, ?_⟩
    rw [run_succ, step_run top]
    exact complete_value? (made.target_known (by omega))
  cases calls with
  | atOnce value set next begins => exact after (by omega) begins
  | inTurn value unset turn begins =>
    refine after ?_ begins
    -- Before that the source has no value, and nothing that waits for it can begin.
    by_contra early
    have still := (made.callbacks_of_unset unset).1
    rw [value?_run_of_le (by omega) (of_next orderly begins).1] at still
    cases still

/-- When no callback is about to begin and the source has its value, the map has called its
function. -/
theorem exists_callsFunction (made : m.Makes call) (returned : call.step + 2 ≤ n)
    (calm : (m.record n).Calm) (set : (m.run n).store.value? call.source = some value) :
    ∃ k < n, m.CallsFunction call k := by
  cases early : (m.run call.step).store.value? call.source with
  | some value' =>
    have begins := made.next_of_set early
    refine ⟨call.step + 2, Nat.lt_of_le_of_ne returned ?_, .atOnce value' early rfl begins⟩
    rintro rfl
    exact calm.not_begins begins
  | none =>
    obtain ⟨unset, waiting⟩ := made.callbacks_of_unset early
    -- The callback has a place among those that were registered, and all of them have begun.
    have registered : (m.run call.step).store.callbacks call.source ++ [call.callback] <+:
        Event.registered call.source (m.record n).events := by
      rw [← waiting, ← (m.record_fits _).2, ← ((orderly _).tells _).registered_of_unset
        (by rw [(m.record_fits _).2, unset])]
      exact (m.prefix_record_events returned).filterMap _
    have begun := (((orderly n).tells call.source).begun_of_set
      (by rw [(m.record_fits n).2, set])).2 calm
    have place := registered.map (·, value)
    rw [← begun, List.map_append] at place
    have past : ((m.run call.step).store.callbacks call.source).length <
        (Event.begun call.source (m.record n).events).length :=
      lt_of_lt_of_le (by simp) place.length_le
    obtain ⟨k, until', callback, value', begins, turn, passed⟩ := exists_turn past
    obtain ⟨-, same⟩ := List.append_inj' ((List.prefix_of_prefix_length_le passed place
      (by simp [turn])).eq_of_length (by simp [turn])) rfl
    cases same
    exact ⟨k, until', .inTurn value early turn begins⟩

theorem Maps.value? {p t : PendingId} {f : α → α} (maps : m.Maps n p f t)
    (calm : (m.record n).Calm) :
    (m.run n).store.value? t = ((m.run n).store.value? p).map f := by
  obtain ⟨step, made, returned, owns⟩ := maps
  -- Whatever value the mapped one has is of the map's own making.
  have supplied (w : α) (has : (m.run n).store.value? t = some w) :
      ((m.run n).store.value? p).map f = some w := by
    obtain ⟨k, since, until', unset, given⟩ := exists_step
      (P := fun k => (m.run k).store.value? t ≠ none) (i := step) (n := n) (by omega)
      (not_not.mpr made.target_unset) (by simp [has])
    rw [not_not] at unset
    obtain ⟨-, value, source, after⟩ := (owns k until' unset given).supplies orderly made
    rw [unset, Option.getD_none] at after
    rw [value?_run_of_le until'.le source, ← has, value?_run_of_le until' after]
    rfl
  cases set : (m.run n).store.value? p with
  | none =>
    refine Option.eq_none_iff_forall_ne_some.mpr fun w has => ?_
    have := supplied w has
    rw [set] at this
    cases this
  | some value =>
    obtain ⟨k, until', calls⟩ := exists_callsFunction orderly made returned calm set
    obtain ⟨-, value', -, after⟩ := calls.supplies orderly made
    have has := value?_run_of_le until' after
    rw [has, ← set, supplied _ has]

theorem MapsAll.value? {p t : PendingId} {f : α → α} (maps : m.MapsAll n p f t)
    (calm : (m.record n).Calm) :
    (m.run n).store.value? t = ((m.run n).store.value? p).map f := by
  induction maps with
  | none => rw [Option.map_id, id]
  | next before last ih => rw [last.value? orderly calm, ih, Option.map_map]

end Values

end Machine

/-- A callback has a task of its own above another one, so none is left when there is one task only.
-/
theorem Machine.calm_of_single (state : σ) (program : Program α σ) {n : Nat}
    (single : ((fresh state program).run n).tasks.length ≤ 1) :
    ((fresh state program).record n).Calm := by
  have last : ∀ mark ∈ ((fresh state program).record n).marks.getLast?,
      mark.isCallback = false := by
    clear single
    induction n with
    | zero =>
      rintro _ ⟨⟩
      rfl
    | succ n ih =>
      rw [record_succ]
      exact ((fresh state program).record_fits n).1.last_step ih
  obtain ⟨fits, machine⟩ := (fresh state program).record_fits n
  rw [← machine, ← fits.length_eq] at single
  intro mark member
  cases marks : ((fresh state program).record n).marks with
  | nil =>
    rw [marks] at member
    cases member
  | cons first others =>
    rw [marks] at member last single
    obtain rfl : others = [] := by simpa using single
    exact last mark (by simpa [eq_comm] using member)

/-- Mapping is a functor, in every run and whatever else the run does.  Whenever no callback is
running, or at least none is about to, maps that nobody else completes have the values of their
sources, by their functions: so has a map of a map, as one map by the composition has, and so has a
chain of any length.  A map never calls its function twice, and by then it has called it exactly if
its source has a value. -/
theorem map_is_functor (state : σ) (program : Program α σ) :
    let m := Machine.fresh state program
    (∀ call, m.Makes call → ∀ k k', m.CallsFunction call k → m.CallsFunction call k' → k = k') ∧
    (∀ n, (m.run n).tasks.length ≤ 1 → (m.record n).Calm) ∧
    ∀ n, (m.record n).Calm →
      (∀ call, m.Makes call → call.step + 2 ≤ n →
        ((∃ k < n, m.CallsFunction call k) ↔ ((m.run n).store.value? call.source).isSome)) ∧
      (∀ p f t, m.Maps n p f t →
        (m.run n).store.value? t = ((m.run n).store.value? p).map f) ∧
      (∀ p f g t u v, m.Maps n p f t → m.Maps n t g u → m.Maps n p (g ∘ f) v →
        (m.run n).store.value? u = (m.run n).store.value? v) ∧
      ∀ p f t, m.MapsAll n p f t →
        (m.run n).store.value? t = ((m.run n).store.value? p).map f := by
  intro m
  have orderly := Machine.orderly_record state program
  refine ⟨fun call _ k k' calls calls' => calls.unique calls',
    fun n single => Machine.calm_of_single state program single,
    fun n calm => ⟨fun call made returned => ⟨?_, ?_⟩, ?_, ?_, ?_⟩⟩
  · rintro ⟨k, until', calls⟩
    obtain ⟨-, value, set, -⟩ := calls.supplies orderly made
    exact Option.isSome_of_eq_some (Machine.value?_run_of_le until'.le set)
  · intro has
    obtain ⟨value, set⟩ := Option.isSome_iff_exists.mp has
    exact Machine.exists_callsFunction orderly made returned calm set
  · exact fun p f t maps => maps.value? orderly calm
  · intro p f g t u v first second both
    rw [second.value? orderly calm, first.value? orderly calm, both.value? orderly calm,
      Option.map_map]
  · exact fun p f t maps => maps.value? orderly calm

/-- The run of a program that maps a value before a drain completes it, from a callback, and twice
afterwards, where one map is of the first. -/
def mapsAround : Machine Nat Unit := .fresh () <| Routine.program do
  let q ← Routine.newQueue
  let p ← Routine.blocked q 5
  let first ← Routine.map p (· + 1)
  Routine.onComplete p fun _ => discard (Routine.map p (· * 2))
  discard (Routine.drain q)
  discard (Routine.map first (· * 10))
  discard (Routine.map p ((· * 10) ∘ (· + 1)))

theorem map_is_functor_drained :
    ((mapsAround.run 25).tasks.length ≤ 1 ∧ mapsAround.Maps 25 ⟨0⟩ (· + 1) ⟨1⟩ ∧
      mapsAround.Maps 25 ⟨0⟩ (· * 2) ⟨2⟩ ∧ mapsAround.Maps 25 ⟨1⟩ (· * 10) ⟨3⟩ ∧
      mapsAround.Maps 25 ⟨0⟩ ((· * 10) ∘ (· + 1)) ⟨4⟩) ∧
    (mapsAround.run 25).store.value? ⟨0⟩ = some 5 ∧
    (mapsAround.run 25).store.value? ⟨2⟩ =
      ((mapsAround.run 25).store.value? ⟨0⟩).map (· * 2) ∧
    (mapsAround.run 25).store.value? ⟨3⟩ = (mapsAround.run 25).store.value? ⟨4⟩ := by
  have single : (mapsAround.run 25).tasks.length ≤ 1 := by decide +kernel
  have waited : mapsAround.CallsFunction ⟨3, ⟨0⟩, (· + 1), ⟨1⟩⟩ 8 :=
    .inTurn 5 (by decide +kernel) (by decide +kernel) rfl
  have inside : mapsAround.CallsFunction ⟨10, ⟨0⟩, (· * 2), ⟨2⟩⟩ 12 :=
    .atOnce 5 (by decide +kernel) rfl rfl
  have again : mapsAround.CallsFunction ⟨16, ⟨1⟩, (· * 10), ⟨3⟩⟩ 18 :=
    .atOnce 6 (by decide +kernel) rfl rfl
  have both : mapsAround.CallsFunction ⟨20, ⟨0⟩, (· * 10) ∘ (· + 1), ⟨4⟩⟩ 22 :=
    .atOnce 5 (by decide +kernel) rfl rfl
  have before : mapsAround.Maps 25 ⟨0⟩ (· + 1) ⟨1⟩ :=
    ⟨3, ⟨⟨_, _, rfl⟩, by decide +kernel, by decide +kernel⟩, by decide,
      waited.owns (by decide +kernel) (show _ = some 6 by decide +kernel) 25⟩
  have during : mapsAround.Maps 25 ⟨0⟩ (· * 2) ⟨2⟩ :=
    ⟨10, ⟨⟨_, _, rfl⟩, by decide +kernel, by decide +kernel⟩, by decide,
      inside.owns (by decide +kernel) (show _ = some 10 by decide +kernel) 25⟩
  have chained : mapsAround.Maps 25 ⟨1⟩ (· * 10) ⟨3⟩ :=
    ⟨16, ⟨⟨_, _, rfl⟩, by decide +kernel, by decide +kernel⟩, by decide,
      again.owns (by decide +kernel) (show _ = some 60 by decide +kernel) 25⟩
  have composed : mapsAround.Maps 25 ⟨0⟩ ((· * 10) ∘ (· + 1)) ⟨4⟩ :=
    ⟨20, ⟨⟨_, _, rfl⟩, by decide +kernel, by decide +kernel⟩, by decide,
      both.owns (by decide +kernel) (show _ = some 60 by decide +kernel) 25⟩
  obtain ⟨-, calm, functor⟩ := map_is_functor () _
  obtain ⟨-, map, fusion, -⟩ := functor 25 (calm 25 single)
  exact ⟨⟨single, before, during, chained, composed⟩, by decide +kernel, map _ _ _ during,
    fusion _ _ _ _ _ _ before chained composed⟩

end ClassBench.Deferred
