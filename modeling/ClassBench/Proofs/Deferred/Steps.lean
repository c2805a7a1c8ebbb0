import ClassBench.Deferred.Machine
import Mathlib.Data.List.Basic
import Mathlib.Logic.Function.Iterate

/-! What one step of the machine changes.  A step replaces the topmost task and leaves the others in
place, it changes one pending value at most and one queue at most, and a pending value that has its
value keeps it. -/

namespace ClassBench.Deferred

/-! ### The store -/

theorem PendingId.ext {p p' : PendingId} (same : p.index = p'.index) : p = p' := by
  cases p
  cases same
  rfl

theorem QueueId.ext {q q' : QueueId} (same : q.index = q'.index) : q = q' := by
  cases q
  cases same
  rfl

namespace Store

variable {α σ : Type} {s : Store α σ} {p p' : PendingId} {q q' : QueueId} {kept : Pending α σ}
  {items : List (PendingId × α)}

@[simp] theorem queues_addPending : s.addPending.queues = s.queues := rfl

@[simp] theorem queues_setPending : (s.setPending p kept).queues = s.queues := rfl

@[simp] theorem queue_addPending : s.addPending.queue q = s.queue q := rfl

@[simp] theorem queue_setPending : (s.setPending p kept).queue q = s.queue q := rfl

@[simp] theorem size_queues_setQueue : (s.setQueue q items).queues.size = s.queues.size := by
  simp [setQueue]

@[simp] theorem size_queues_addQueue : s.addQueue.queues.size = s.queues.size + 1 := by
  simp [addQueue]

@[simp] theorem size_pendings_addPending : s.addPending.pendings.size = s.pendings.size + 1 := by
  simp [addPending]

@[simp] theorem size_pendings_setPending :
    (s.setPending p kept).pendings.size = s.pendings.size := by
  simp [setPending]

@[simp] theorem pending?_addQueue : s.addQueue.pending? p = s.pending? p := rfl

@[simp] theorem pending?_setQueue : (s.setQueue q items).pending? p = s.pending? p := rfl

theorem pending?_setPending_self (known : (s.pending? p).isSome) (kept : Pending α σ) :
    (s.setPending p kept).pending? p = some kept := by
  have bound : p.index < s.pendings.size := by simpa [pending?] using known
  simp [pending?, setPending, bound]

theorem pending?_setPending_ne (other : p' ≠ p) (kept : Pending α σ) :
    (s.setPending p kept).pending? p' = s.pending? p' := by
  have apart : p.index ≠ p'.index := fun same => other (PendingId.ext same.symm)
  simp [pending?, setPending, apart]

theorem pending?_addPending :
    s.addPending.pending? p = if p.index = s.pendings.size then some {} else s.pending? p := by
  rw [pending?, addPending, Array.getElem?_push, pending?]

/-- A new pending value has no value and no callbacks, like one that was never made. -/
theorem value?_addPending (p : PendingId) : s.addPending.value? p = s.value? p := by
  rw [value?, value?, pending?_addPending]
  split
  · next last => simp [pending?, last]
  · rfl

theorem callbacks_addPending (p : PendingId) : s.addPending.callbacks p = s.callbacks p := by
  rw [callbacks, callbacks, pending?_addPending]
  split
  · next last => simp [pending?, last]
  · rfl

theorem queue_setQueue_self (known : q.index < s.queues.size) :
    (s.setQueue q items).queue q = items := by
  simp [queue, setQueue, known]

theorem queue_setQueue_ne (other : q' ≠ q) (items : List (PendingId × α)) :
    (s.setQueue q items).queue q' = s.queue q' := by
  have apart : q.index ≠ q'.index := fun same => other (QueueId.ext same.symm)
  simp [queue, setQueue, apart]

/-- A new queue is empty, as is one that was never made. -/
@[simp] theorem queue_addQueue : s.addQueue.queue q = s.queue q := by
  rw [queue, addQueue, Array.getElem?_push, queue]
  split
  · next last => simp [last]
  · rfl

theorem known_of_queue_cons {item : PendingId × α} (front : s.queue q = item :: items) :
    q.index < s.queues.size := by
  by_contra unknown
  rw [queue, Array.getElem?_eq_none (Nat.le_of_not_lt unknown)] at front
  cases front

end Store

namespace Machine

variable {α σ : Type} {m : Machine α σ} {task : Task α σ} {rest : List (Task α σ)}

/-! ### Runs -/

theorem step_idle (idle : m.tasks = []) : m.step = m := by rw [step, idle]

theorem run_eq_iterate (m : Machine α σ) (n : Nat) : m.run n = step^[n] m := by
  induction n generalizing m with
  | zero => rfl
  | succ n ih =>
    rw [run, Function.iterate_succ_apply]
    split
    · next idle =>
      rw [step_idle idle]
      exact (Function.iterate_fixed (step_idle idle) n).symm
    · exact ih m.step

theorem run_succ (m : Machine α σ) (n : Nat) : m.run (n + 1) = (m.run n).step := by
  rw [run_eq_iterate, run_eq_iterate, Function.iterate_succ_apply']

theorem run_step (m : Machine α σ) (n : Nat) : m.run (n + 1) = m.step.run n := by
  rw [run_eq_iterate, run_eq_iterate, Function.iterate_succ_apply]

theorem run_add (m : Machine α σ) (n k : Nat) : m.run (n + k) = (m.run n).run k := by
  rw [run_eq_iterate, run_eq_iterate, run_eq_iterate, Nat.add_comm, Function.iterate_add_apply]

/-- What the first `n` steps of a run show to a view that sees in some states something that the
next step does. -/
def history {β : Type} (m : Machine α σ) (view : Machine α σ → Option β) (n : Nat) : List β :=
  (List.range n).filterMap fun k => view (m.run k)

theorem history_succ {β : Type} (m : Machine α σ) (view : Machine α σ → Option β) (n : Nat) :
    m.history view (n + 1) = m.history view n ++ (view (m.run n)).toList := by
  rw [history, List.range_succ, List.filterMap_append, history]
  cases seen : view (m.run n) <;> simp [seen]

/-! ### Steps -/

theorem step_run {program : Program α σ} (top : m.tasks = .run program :: rest) :
    m.step = m.perform rest program := by rw [step, top]

variable {q : QueueId} {taken : Nat} {next : Nat → Program α σ} {p : PendingId} {value : α}
  {items : List (PendingId × α)} {callbacks : List (α → Program α σ)}
  {after : Bool → List (Task α σ)}

theorem step_drained (top : m.tasks = .draining q taken next :: rest)
    (none : m.store.queue q = []) : m.step = { m with tasks := .run (next taken) :: rest } := by
  rw [step, top]
  simp only [none]

theorem step_taking (top : m.tasks = .draining q taken next :: rest)
    (front : m.store.queue q = (p, value) :: items) :
    m.step = { m with store := m.store.setQueue q items }.complete p value
      fun _ => .draining q (taken + 1) next :: rest := by
  obtain ⟨store, state, tasks⟩ := m
  cases top
  simp only [step, front]

theorem complete_waiting (waits : m.store.pending? p = some ⟨none, callbacks⟩) :
    m.complete p value after = { m with
      store := m.store.setPending p { value := some value }
      tasks := callbacks.map (fun callback => .run (callback value)) ++ after true } := by
  rw [complete, waits]

theorem complete_refused (absent : ∀ callbacks, m.store.pending? p ≠ some ⟨none, callbacks⟩) :
    m.complete p value after = { m with tasks := after false } := by
  rw [complete]
  split
  · next waits => exact absurd waits (absent _)
  · rfl

/-- A completion supplies the value and puts the callbacks that waited for it above the task that
waits for the answer, or it changes nothing. -/
theorem complete_cases (m : Machine α σ) (p : PendingId) (value : α)
    (after : Bool → List (Task α σ)) :
    (∃ callbacks, m.store.pending? p = some ⟨none, callbacks⟩ ∧
      m.complete p value after = { m with
        store := m.store.setPending p { value := some value }
        tasks := callbacks.map (fun callback => .run (callback value)) ++ after true }) ∨
    (∀ callbacks, m.store.pending? p ≠ some ⟨none, callbacks⟩) ∧
      m.complete p value after = { m with tasks := after false } := by
  by_cases waits : ∃ callbacks, m.store.pending? p = some ⟨none, callbacks⟩
  · obtain ⟨callbacks, waits⟩ := waits
    exact .inl ⟨callbacks, waits, complete_waiting waits⟩
  · rw [not_exists] at waits
    exact .inr ⟨waits, complete_refused waits⟩

/-- After a completion there is a value: the one there was, or the one that is supplied. -/
theorem complete_value? (known : (m.store.pending? p).isSome) :
    (m.complete p value after).store.value? p = some ((m.store.value? p).getD value) := by
  rcases m.complete_cases p value after with ⟨callbacks, waits, result⟩ | ⟨refused, result⟩
  · rw [result]
    simp only [Store.value?, waits, Store.pending?_setPending_self (s := m.store) known]
    rfl
  · rw [result]
    obtain ⟨⟨value', callbacks⟩, kept⟩ := Option.isSome_iff_exists.mp known
    cases value' with
    | none => exact absurd kept (refused callbacks)
    | some value' => simp [Store.value?, kept]

theorem complete_queues (m : Machine α σ) (p : PendingId) (value : α)
    (after : Bool → List (Task α σ)) :
    (m.complete p value after).store.queues = m.store.queues := by
  rcases m.complete_cases p value after with ⟨callbacks, -, result⟩ | ⟨-, result⟩
  · rw [result]
    rfl
  · rw [result]

theorem complete_size_pendings (m : Machine α σ) (p : PendingId) (value : α)
    (after : Bool → List (Task α σ)) :
    (m.complete p value after).store.pendings.size = m.store.pendings.size := by
  rcases m.complete_cases p value after with ⟨callbacks, -, result⟩ | ⟨-, result⟩
  · rw [result, Store.size_pendings_setPending]
  · rw [result]

/-- A registration waits if there is no value, and else what is registered is to be run. -/
theorem onComplete_cases (m : Machine α σ) (p : PendingId) (callback : α → Program α σ)
    (next : Program α σ) (rest : List (Task α σ)) :
    (m.store.pending? p = none ∧
      m.perform rest (.onComplete p callback next) = { m with tasks := .run next :: rest }) ∨
    (∃ callbacks, m.store.pending? p = some ⟨none, callbacks⟩ ∧
      m.perform rest (.onComplete p callback next) = { m with
        store := m.store.setPending p { callbacks := callbacks ++ [callback] }
        tasks := .run next :: rest }) ∨
    ∃ value callbacks, m.store.pending? p = some ⟨some value, callbacks⟩ ∧
      m.perform rest (.onComplete p callback next) =
        { m with tasks := .run (callback value) :: .run next :: rest } := by
  match kept : m.store.pending? p with
  | none => exact .inl ⟨rfl, by simp only [perform, kept]⟩
  | some ⟨none, callbacks⟩ => exact .inr (.inl ⟨callbacks, rfl, by simp only [perform, kept]⟩)
  | some ⟨some value, callbacks⟩ =>
    exact .inr (.inr ⟨value, callbacks, rfl, by simp only [perform, kept]⟩)

/-- A step leaves the tasks below the topmost in place. -/
theorem step_tasks (top : m.tasks = task :: rest) : ∃ above, m.step.tasks = above ++ rest := by
  have completes (m : Machine α σ) (p : PendingId) (value : α) (reply : Bool → Task α σ) :
      ∃ above, (m.complete p value fun set => reply set :: rest).tasks = above ++ rest := by
    rcases m.complete_cases p value fun set => reply set :: rest with
      ⟨callbacks, -, after⟩ | ⟨-, after⟩
    · exact ⟨_ ++ [reply true], by rw [after, List.append_assoc]; rfl⟩
    · exact ⟨[reply false], by rw [after]; rfl⟩
  cases task with
  | run program =>
    rw [step_run top]
    cases program with
    | done => exact ⟨[], rfl⟩
    | complete p value next => exact completes m p value fun set => .run (next set)
    | onComplete p callback next =>
      rcases m.onComplete_cases p callback next rest with
        ⟨-, after⟩ | ⟨callbacks, -, after⟩ | ⟨value, callbacks, -, after⟩
      · exact ⟨[.run next], by rw [after]; rfl⟩
      · exact ⟨[.run next], by rw [after]; rfl⟩
      · exact ⟨[.run (callback value), .run next], by rw [after]; rfl⟩
    | _ => exact ⟨[_], rfl⟩
  | draining q taken next =>
    cases front : m.store.queue q with
    | nil => exact ⟨[_], by rw [step_drained top front]; rfl⟩
    | cons item items =>
      rw [step_taking top front]
      exact completes _ _ _ fun _ => .draining q (taken + 1) next

/-- Pending values are made and never taken away. -/
theorem size_pendings_step (m : Machine α σ) :
    m.store.pendings.size ≤ m.step.store.pendings.size := by
  cases tasks : m.tasks with
  | nil => exact Nat.le_of_eq (by rw [step_idle tasks])
  | cons task rest =>
    cases task with
    | run program =>
      rw [step_run tasks]
      cases program with
      | newPending next => simp [perform]
      | complete p value next => exact Nat.le_of_eq (complete_size_pendings ..).symm
      | onComplete p callback next =>
        rcases m.onComplete_cases p callback next rest with
          ⟨-, after⟩ | ⟨callbacks, -, after⟩ | ⟨value, callbacks, -, after⟩ <;> simp [after]
      | _ => exact Nat.le_refl _
    | draining q taken next =>
      cases front : m.store.queue q with
      | nil => exact Nat.le_of_eq (by rw [step_drained tasks front])
      | cons item items =>
        rw [step_taking tasks front, complete_size_pendings]
        exact Nat.le_refl _

theorem size_pendings_run (m : Machine α σ) (n : Nat) :
    m.store.pendings.size ≤ (m.run n).store.pendings.size := by
  induction n with
  | zero => exact Nat.le_refl _
  | succ n ih =>
    rw [run_succ]
    exact Nat.le_trans ih (size_pendings_step _)

end Machine

end ClassBench.Deferred
