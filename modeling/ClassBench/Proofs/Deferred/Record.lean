import ClassBench.Proofs.Deferred.Steps
import Mathlib.Data.List.Forall2

/-! A record of what happens in a run.  The machine itself does not tell a callback on its stack
from any other program.  The record keeps a mark beside each task, which says what the task is there
for, and writes down each registration, each completion with its answer, and each callback when it
begins.  The machine of the record runs as it would without. -/

namespace ClassBench.Deferred

variable {α σ : Type}

/-- What happens to a pending value. -/
inductive Event (α σ : Type) where
  /-- A callback is registered and waits for the value. -/
  | registers (p : PendingId) (callback : α → Program α σ)
  /-- A callback is registered when there is a value already. -/
  | registersLate (p : PendingId) (callback : α → Program α σ) (value : α)
  /-- A completion begins, and supplies the value or finds one. -/
  | completes (p : PendingId) (value : α) (set : Bool)
  /-- A callback begins to run; a late one was registered when there was a value already. -/
  | runs (p : PendingId) (callback : α → Program α σ) (value : α) (late : Bool)
  /-- A completion returns its answer. -/
  | returns (p : PendingId) (value : α) (set : Bool)

/-- What a task on the stack is there for. -/
inductive Mark (α σ : Type) where
  | plain
  /-- A callback that has not begun. -/
  | callback (p : PendingId) (callback : α → Program α σ) (value : α) (late : Bool)
  /-- What follows a completion, given its answer. -/
  | answer (p : PendingId) (value : α) (set : Bool) (reply : Bool → Task α σ)

namespace Mark

/-- What happens when the task begins. -/
def event? : Mark α σ → Option (Event α σ)
  | plain => none
  | .callback p c value late => some (.runs p c value late)
  | answer p value set _ => some (.returns p value set)

/-- The task is what the mark says. -/
def Fits : Mark α σ → Task α σ → Prop
  | plain, _ => True
  | .callback _ c value _, task => task = .run (c value)
  | answer _ _ set reply, task => task = reply set

end Mark

/-- What a task does to the pending values in its next step. -/
inductive Action (α σ : Type) where
  /-- Nothing, and the task is over. -/
  | ends
  /-- Nothing to those that there are. -/
  | goesOn
  | completes (p : PendingId) (value : α) (reply : Bool → Task α σ)
  | registers (p : PendingId) (callback : α → Program α σ) (next : Program α σ)

/-- What a task does next. -/
def Task.action (s : Store α σ) : Task α σ → Action α σ
  | .run .done => .ends
  | .run (.complete p value next) => .completes p value fun set => .run (next set)
  | .run (.onComplete p callback next) => .registers p callback next
  | .run _ => .goesOn
  | .draining q taken next =>
    match s.queue q with
    | [] => .goesOn
    | (p, value) :: _ => .completes p value fun _ => .draining q (taken + 1) next

namespace Action

/-- What happens; nothing does to a pending value that was never made. -/
def event? (s : Store α σ) : Action α σ → Option (Event α σ)
  | ends | goesOn => none
  | completes p value _ => (s.pending? p).map fun kept => .completes p value kept.value.isNone
  | registers p callback _ => (s.pending? p).map fun kept =>
    match kept.value with
    | none => .registers p callback
    | some value => .registersLate p callback value

/-- What the tasks that come in place of this one are there for. -/
def opens (s : Store α σ) : Action α σ → List (Mark α σ)
  | ends => []
  | goesOn => [.plain]
  | completes p value reply =>
    match s.pending? p with
    | none => [.plain]
    | some ⟨none, callbacks⟩ =>
      callbacks.map (.callback p · value false) ++ [.answer p value true reply]
    | some ⟨some _, _⟩ => [.answer p value false reply]
  | registers p callback _ =>
    match s.value? p with
    | none => [.plain]
    | some value => [.callback p callback value true, .plain]

end Action

/-- A machine with a mark for each task, and what has happened so far. -/
structure Record (α σ : Type) where
  machine : Machine α σ
  marks : List (Mark α σ)
  events : List (Event α σ) := []

namespace Record

/-- One step: the topmost task begins, if it has not, and does something. -/
def step (r : Record α σ) : Record α σ :=
  match r.machine.tasks, r.marks with
  | task :: _, mark :: marks =>
    let action := task.action r.machine.store
    { machine := r.machine.step
      marks := action.opens r.machine.store ++ marks
      events := r.events ++ mark.event?.toList ++ (action.event? r.machine.store).toList }
  | _, _ => r

/-- The marks are those of the tasks. -/
def Fits (r : Record α σ) : Prop := List.Forall₂ Mark.Fits r.marks r.machine.tasks

end Record

/-- The record of the first `n` steps of a run. -/
def Machine.record (m : Machine α σ) (n : Nat) : Record α σ :=
  Record.step^[n] { machine := m, marks := m.tasks.map fun _ => .plain }

/-! ### Steps -/

namespace Machine

variable {m : Machine α σ} {task : Task α σ} {rest : List (Task α σ)}

/-- What a step does, by what the topmost task does to the pending values. -/
inductive Acts (m : Machine α σ) (rest : List (Task α σ)) : Action α σ → Machine α σ → Prop
  | ends {m' : Machine α σ} (same : m'.store = m.store) (tasks : m'.tasks = rest) :
    Acts m rest .ends m'
  | goesOn {m' : Machine α σ} {task : Task α σ}
      (values : ∀ p, m'.store.value? p = m.store.value? p)
      (callbacks : ∀ p, m'.store.callbacks p = m.store.callbacks p)
      (tasks : m'.tasks = task :: rest) : Acts m rest .goesOn m'
  | completes {p : PendingId} {value : α} {reply : Bool → Task α σ} (store : Store α σ)
      (kept : ∀ p, store.pending? p = m.store.pending? p) :
      Acts m rest (.completes p value reply)
        ({ m with store }.complete p value fun set => reply set :: rest)
  | registers {p : PendingId} {callback : α → Program α σ} {next : Program α σ} :
      Acts m rest (.registers p callback next) (m.perform rest (.onComplete p callback next))

theorem acts (top : m.tasks = task :: rest) : m.Acts rest (task.action m.store) m.step := by
  cases task with
  | run program =>
    rw [step_run top]
    cases program with
    | done => exact .ends rfl rfl
    | newPending next => exact .goesOn Store.value?_addPending Store.callbacks_addPending rfl
    | complete p value next => exact .completes m.store fun _ => rfl
    | onComplete p callback next => exact .registers
    | _ => exact .goesOn (fun _ => rfl) (fun _ => rfl) rfl
  | draining q taken next =>
    cases front : m.store.queue q with
    | nil =>
      simp only [Task.action, front, step_drained top front]
      exact .goesOn (fun _ => rfl) (fun _ => rfl) rfl
    | cons item items =>
      simp only [Task.action, front, step_taking top front]
      exact .completes (m.store.setQueue q items) fun _ => rfl

namespace Acts

variable {m' : Machine α σ} {action : Action α σ}

theorem opens_fit (acts : m.Acts rest action m') :
    ∃ above, m'.tasks = above ++ rest ∧
      List.Forall₂ Mark.Fits (action.opens m.store) above := by
  cases acts with
  | ends same tasks => exact ⟨[], tasks, .nil⟩
  | goesOn values callbacks tasks => exact ⟨[_], tasks, .cons trivial .nil⟩
  | @completes p value reply store kept =>
    match found : m.store.pending? p with
    | none =>
      refine ⟨[reply false], ?_, ?_⟩
      · rw [complete_refused (by simp [kept, found])]
        rfl
      · simp [Action.opens, found, Mark.Fits]
    | some ⟨none, callbacks⟩ =>
      refine ⟨callbacks.map (fun callback => .run (callback value)) ++ [reply true], ?_, ?_⟩
      · rw [complete_waiting ((kept p).trans found), List.append_assoc]
        rfl
      · simp only [Action.opens, found]
        refine List.rel_append ?_ (.cons rfl .nil)
        rw [List.forall₂_map_left_iff, List.forall₂_map_right_iff, List.forall₂_same]
        exact fun _ _ => rfl
    | some ⟨some value', callbacks⟩ =>
      refine ⟨[reply false], ?_, ?_⟩
      · rw [complete_refused (by simp [kept, found])]
        rfl
      · simp [Action.opens, found, Mark.Fits]
  | @registers p callback next =>
    rcases m.onComplete_cases p callback next rest with
      ⟨found, after⟩ | ⟨callbacks, found, after⟩ | ⟨value, callbacks, found, after⟩
    · exact ⟨[.run next], by rw [after]; rfl,
        by simp [Action.opens, Store.value?, found, Mark.Fits]⟩
    · exact ⟨[.run next], by rw [after]; rfl,
        by simp [Action.opens, Store.value?, found, Mark.Fits]⟩
    · exact ⟨[.run (callback value), .run next], by rw [after]; rfl,
        by simp [Action.opens, Store.value?, found, Mark.Fits]⟩

end Acts

end Machine

namespace Record

variable {r : Record α σ} {task : Task α σ} {rest : List (Task α σ)} {mark : Mark α σ}
  {marks : List (Mark α σ)}

theorem step_eq (tasks : r.machine.tasks = task :: rest) (top : r.marks = mark :: marks) :
    r.step = {
      machine := r.machine.step
      marks := (task.action r.machine.store).opens r.machine.store ++ marks
      events := r.events ++ mark.event?.toList ++
        ((task.action r.machine.store).event? r.machine.store).toList } := by
  rw [step, tasks, top]

theorem step_idle (idle : r.machine.tasks = []) : r.step = r := by
  rw [step]
  simp only [idle]

/-- A record stays as it is, or the topmost task begins, acts and is replaced. -/
theorem Fits.step_cases (fits : r.Fits) :
    (r.step = r ∧ r.machine.step = r.machine) ∨
      ∃ mark marks rest action, r.marks = mark :: marks ∧
        List.Forall₂ Mark.Fits marks rest ∧ r.machine.Acts rest action r.machine.step ∧
        r.step = {
          machine := r.machine.step
          marks := action.opens r.machine.store ++ marks
          events := r.events ++ mark.event?.toList ++ (action.event? r.machine.store).toList } := by
  cases tasks : r.machine.tasks with
  | nil => exact .inl ⟨step_idle tasks, Machine.step_idle tasks⟩
  | cons task rest =>
    rw [Fits, tasks] at fits
    obtain ⟨mark, marks, -, others, top⟩ := List.forall₂_cons_right_iff.mp fits
    exact .inr ⟨mark, marks, rest, _, top, others, Machine.acts tasks, step_eq tasks top⟩

theorem Fits.step (fits : r.Fits) : r.step.Fits ∧ r.step.machine = r.machine.step := by
  rcases fits.step_cases with ⟨same, same'⟩ | ⟨mark, marks, rest, action, -, others, acts, after⟩
  · rw [same, same']
    exact ⟨fits, rfl⟩
  · obtain ⟨above, tasks, opened⟩ := acts.opens_fit
    rw [after, Fits]
    refine ⟨?_, rfl⟩
    rw [tasks]
    exact List.rel_append opened others

end Record

namespace Machine

theorem record_succ (m : Machine α σ) (n : Nat) : m.record (n + 1) = (m.record n).step := by
  rw [record, Function.iterate_succ_apply', record]

/-- The record of a run has the machine of the run, and a mark that fits for each of its tasks. -/
theorem record_fits (m : Machine α σ) (n : Nat) :
    (m.record n).Fits ∧ (m.record n).machine = m.run n := by
  induction n with
  | zero =>
    refine ⟨?_, rfl⟩
    rw [record, Function.iterate_zero_apply, Record.Fits, List.forall₂_map_left_iff,
      List.forall₂_same]
    exact fun _ _ => trivial
  | succ n ih =>
    obtain ⟨fits, machine⟩ := ih
    rw [record_succ, run_succ, ← machine]
    exact fits.step

end Machine

end ClassBench.Deferred
