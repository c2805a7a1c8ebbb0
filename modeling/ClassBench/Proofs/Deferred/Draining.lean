import ClassBench.Proofs.Deferred.Termination

/-! Draining a queue.  A drain takes pairs off the front until it finds none, while the callbacks
that it sets off may put pairs at the end, complete other pending values, and drain the same queue
themselves.  At every moment what was queued at first and later is what was taken and what is still
queued, in this order, and the drains that are going on have counted what was taken and is not in a
count that was returned. -/

namespace ClassBench.Deferred

namespace Machine

variable {α σ : Type} {m : Machine α σ} {q : QueueId} {next : Nat → Program α σ}
  {rest : List (Task α σ)}

/-! ### What a step does to a queue -/

/-- The pair that the next step puts at the end of a queue. -/
def enqueued? (q : QueueId) (m : Machine α σ) : Option (PendingId × α) :=
  match m.tasks with
  | .run (.enqueue q' p value _) :: _ => if q' = q then some (p, value) else none
  | _ => none

/-- The pair that the next step takes off the front of a queue. -/
def taken? (q : QueueId) (m : Machine α σ) : Option (PendingId × α) :=
  match m.tasks with
  | .draining q' _ _ :: _ => if q' = q then (m.store.queue q).head? else none
  | _ => none

/-- The count that a drain of a queue returns in the next step. -/
def returned? (q : QueueId) (m : Machine α σ) : Option Nat :=
  match m.tasks with
  | .draining q' taken _ :: _ => if q' = q ∧ m.store.queue q = [] then some taken else none
  | _ => none

/-- How many pairs the drains of a queue that are going on have taken. -/
def counted (q : QueueId) (tasks : List (Task α σ)) : Nat :=
  (tasks.map fun
    | .run _ => 0
    | .draining q' taken _ => if q' = q then taken else 0).sum

@[simp] theorem counted_run (program : Program α σ) (tasks : List (Task α σ)) :
    counted q (.run program :: tasks) = counted q tasks := by simp [counted]

@[simp] theorem counted_draining (q' : QueueId) (taken : Nat) (tasks : List (Task α σ)) :
    counted q (.draining q' taken next :: tasks) =
      (if q' = q then taken else 0) + counted q tasks := by
  simp [counted]

@[simp] theorem counted_callbacks (callbacks : List (α → Program α σ)) (value : α)
    (tasks : List (Task α σ)) :
    counted q (callbacks.map (fun callback => .run (callback value)) ++ tasks) =
      counted q tasks := by
  induction callbacks with
  | nil => rfl
  | cons callback callbacks ih => rw [List.map_cons, List.cons_append, counted_run, ih]

theorem complete_counted (m : Machine α σ) (q : QueueId) (p : PendingId) (value : α)
    (reply : Bool → Task α σ) (rest : List (Task α σ)) :
    ∃ set, counted q (m.complete p value fun set => reply set :: rest).tasks =
      counted q (reply set :: rest) := by
  rcases m.complete_cases p value fun set => reply set :: rest with
    ⟨callbacks, -, after⟩ | ⟨-, after⟩
  · exact ⟨true, by rw [after, counted_callbacks]⟩
  · exact ⟨false, by rw [after]⟩

/-- One step of a queue: what was in it and is put at its end is what is taken off its front and is
in it afterwards. -/
theorem step_queue (known : q.index < m.store.queues.size) :
    q.index < m.step.store.queues.size ∧
      m.store.queue q ++ (m.enqueued? q).toList = (m.taken? q).toList ++ m.step.store.queue q := by
  cases top : m.tasks with
  | nil => simp [step_idle top, enqueued?, taken?, top, known]
  | cons task rest =>
    cases task with
    | run program =>
      rw [step_run top]
      cases program with
      | complete p value next =>
        have same := complete_queues m p value fun set => .run (next set) :: rest
        simp [enqueued?, taken?, top, perform, same, known, Store.queue]
      | onComplete p callback next =>
        rcases m.onComplete_cases p callback next rest with
          ⟨-, after⟩ | ⟨callbacks, waits, after⟩ | ⟨value, callbacks, -, after⟩
        all_goals
          rw [after]
          simp [enqueued?, taken?, top, known]
      | enqueue q' p value next =>
        by_cases same : q' = q
        · subst same
          simp [enqueued?, taken?, top, perform, Store.queue_setQueue_self known, known]
        · have other := Store.queue_setQueue_ne (s := m.store) (Ne.symm same)
            (m.store.queue q' ++ [(p, value)])
          simp [enqueued?, taken?, top, perform, same, other, known]
      | newQueue next =>
        simp [enqueued?, taken?, top, perform, Nat.lt_succ_of_lt known]
      | _ => simp [enqueued?, taken?, top, perform, known]
    | draining q' taken next =>
      cases front : m.store.queue q' with
      | nil =>
        rw [step_drained top front]
        by_cases same : q' = q
        · subst same
          simp [enqueued?, taken?, top, front, known]
        · simp [enqueued?, taken?, top, same, known]
      | cons item items =>
        have queues := complete_queues { m with store := m.store.setQueue q' items } item.1 item.2
          fun _ => .draining q' (taken + 1) next :: rest
        have queue : m.step.store.queue q = (m.store.setQueue q' items).queue q := by
          rw [step_taking top front, Store.queue, queues]
          rfl
        rw [queue]
        refine ⟨by rw [step_taking top front, queues]; simpa using known, ?_⟩
        by_cases same : q' = q
        · subst same
          simp [enqueued?, taken?, top, front, Store.queue_setQueue_self known]
        · have other := Store.queue_setQueue_ne (s := m.store) (Ne.symm same) items
          simp [enqueued?, taken?, top, same, other]

/-- One step of the counts: what the drains that are going on have counted, and what is returned, is
what they had counted and what is taken. -/
theorem step_counted (q : QueueId) (m : Machine α σ) :
    counted q m.step.tasks + (m.returned? q).toList.sum =
      counted q m.tasks + (m.taken? q).toList.length := by
  cases top : m.tasks with
  | nil => simp [step_idle top, returned?, taken?, top]
  | cons task rest =>
    cases task with
    | run program =>
      rw [step_run top]
      cases program with
      | complete p value next =>
        obtain ⟨set, same⟩ := m.complete_counted q p value (fun set => .run (next set)) rest
        simp [returned?, taken?, top, perform, same]
      | onComplete p callback next =>
        rcases m.onComplete_cases p callback next rest with
          ⟨-, after⟩ | ⟨callbacks, waits, after⟩ | ⟨value, callbacks, -, after⟩
        all_goals
          rw [after]
          simp [returned?, taken?, top]
      | _ => simp [returned?, taken?, top, perform]
    | draining q' taken next =>
      cases front : m.store.queue q' with
      | nil =>
        rw [step_drained top front]
        by_cases same : q' = q
        · subst same
          simp [returned?, taken?, top, front, Nat.add_comm]
        · simp [returned?, taken?, top, same]
      | cons item items =>
        obtain ⟨set, counts⟩ := ({ m with store := m.store.setQueue q' items } :
          Machine α σ).complete_counted q item.1 item.2
            (fun _ => .draining q' (taken + 1) next) rest
        rw [step_taking top front, counts]
        by_cases same : q' = q
        · subst same
          simp [returned?, taken?, top, front]
          omega
        · simp [returned?, taken?, top, same]

theorem taken?_eq_some {item : PendingId × α} (taken : m.taken? q = some item) :
    ∃ count next rest items, m.tasks = .draining q count next :: rest ∧
      m.store.queue q = item :: items := by
  unfold taken? at taken
  split at taken
  · next q' count next rest top =>
    split at taken
    · next same =>
      subst same
      obtain ⟨items, front⟩ := List.head?_eq_some_iff.mp taken
      exact ⟨count, next, rest, items, top, front⟩
    · cases taken
  · cases taken

/-- A pair that is taken gives its pending value the value, unless there was one. -/
theorem step_value {p : PendingId} {value : α} (taken : m.taken? q = some (p, value))
    (known : (m.store.pending? p).isSome) :
    m.step.store.value? p = some ((m.store.value? p).getD value) := by
  obtain ⟨count, next, rest, items, top, front⟩ := taken?_eq_some taken
  rw [step_taking top front]
  exact complete_value? known

/-! ### What a run does to a queue -/

theorem history_queue (known : q.index < m.store.queues.size) (n : Nat) :
    q.index < (m.run n).store.queues.size ∧
      m.store.queue q ++ m.history (enqueued? q) n =
        m.history (taken? q) n ++ (m.run n).store.queue q := by
  induction n with
  | zero => exact ⟨known, by simp [history, run]⟩
  | succ n ih =>
    obtain ⟨known, before⟩ := ih
    obtain ⟨known', now⟩ := step_queue known
    rw [run_succ, history_succ, history_succ, ← List.append_assoc, before, List.append_assoc, now,
      List.append_assoc]
    exact ⟨known', rfl⟩

theorem history_counted (q : QueueId) (m : Machine α σ) (n : Nat) :
    counted q (m.run n).tasks + (m.history (returned? q) n).sum =
      counted q m.tasks + (m.history (taken? q) n).length := by
  induction n with
  | zero => simp [history, run]
  | succ n ih =>
    have now := step_counted q (m.run n)
    rw [run_succ, history_succ, history_succ, List.sum_append, List.length_append]
    omega

/-- A drain that is going on comes to find the queue empty. -/
theorem drain_ends {above : List (Task α σ)} {taken : Nat}
    (going : m.tasks = above ++ .draining q taken next :: rest) :
    ∃ n count, (m.run n).tasks = .draining q count next :: rest ∧ (m.run n).store.queue q = [] ∧
      ∀ k ≤ n, ∃ above taken, (m.run k).tasks = above ++ .draining q taken next :: rest := by
  obtain ⟨limit, ends⟩ := m.halts
  -- The drain is the task at one place of the stack, which the steps above it do not touch.
  induction limit generalizing m above taken with
  | zero =>
    rw [run, going] at ends
    simp at ends
  | succ limit ih =>
    have later (above' : List (Task α σ)) {taken' : Nat}
        (going' : m.step.tasks = above' ++ .draining q taken' next :: rest) :
        ∃ n count, (m.run n).tasks = .draining q count next :: rest ∧
          (m.run n).store.queue q = [] ∧
          ∀ k ≤ n, ∃ above taken, (m.run k).tasks = above ++ .draining q taken next :: rest := by
      obtain ⟨n, count, last, empty, during⟩ := ih going' (by rwa [← run_step])
      refine ⟨n + 1, count, by rwa [run_step], by rwa [run_step], fun k le => ?_⟩
      cases k with
      | zero => exact ⟨above, taken, going⟩
      | succ k =>
        rw [run_step]
        exact during k (Nat.le_of_succ_le_succ le)
    cases above with
    | cons task above =>
      obtain ⟨new, tasks⟩ := step_tasks going
      exact later (new ++ above) (tasks.trans (List.append_assoc new above _).symm)
    | nil =>
      cases front : m.store.queue q with
      | nil =>
        refine ⟨0, taken, going, front, fun k le => ?_⟩
        rw [Nat.le_zero.mp le]
        exact ⟨[], taken, going⟩
      | cons item items =>
        have step := step_taking going front
        rcases ({ m with store := m.store.setQueue q items } : Machine α σ).complete_cases item.1
          item.2 fun _ => .draining q (taken + 1) next :: rest with
          ⟨callbacks, -, after⟩ | ⟨-, after⟩
        · exact later _ (by rw [step, after])
        · exact later [] (by rw [step, after]; rfl)

/-- A drain that is called on this machine, with `rest` to do after what follows it, returns after
`n` steps and counts so many pairs. -/
structure Drains (m : Machine α σ) (q : QueueId) (next : Nat → Program α σ)
    (rest : List (Task α σ)) (n count : Nat) : Prop where
  going : ∀ k, 0 < k → k < n →
    ∃ above taken, (m.run k).tasks = above ++ .draining q taken next :: rest
  returns : (m.run n).tasks = .run (next count) :: rest
  empty : (m.run n).store.queue q = []
  /-- What is queued at first and later is taken in this order, and nothing else is. -/
  order : m.history (taken? q) n = m.store.queue q ++ m.history (enqueued? q) n
  /-- What is taken is the value from then on, unless there was one. -/
  values : ∀ k < n, ∀ p value, (m.run k).taken? q = some (p, value) →
    ((m.run k).store.pending? p).isSome →
      (m.run (k + 1)).store.value? p = some (((m.run k).store.value? p).getD value)
  /-- The count of the drain itself is the last of those that are returned. -/
  last : (m.history (returned? q) n).getLast? = some count
  counts : (m.history (returned? q) n).sum = (m.history (taken? q) n).length

/-- Every drain of a queue returns, with the queue empty: each pair that was queued or is enqueued
meanwhile is taken once, in the order of the queue, and gives its pending value the value if there
was none, and the counts that this drain and those within it return add up to the number of pairs.
-/
theorem drain_reaches_fixed_point (top : m.tasks = .run (.drain q next) :: rest)
    (known : q.index < m.store.queues.size) : ∃ n count, m.Drains q next rest n count := by
  have opened : m.step.tasks = [] ++ .draining q 0 next :: rest := by
    rw [step_run top]
    rfl
  obtain ⟨n, count, last, empty, during⟩ := drain_ends opened
  rw [← run_step] at last empty
  have closed : (m.run (n + 2)) = { m.run (n + 1) with tasks := .run (next count) :: rest } := by
    rw [run_succ, step_drained last empty]
  have returned : (m.run (n + 1)).returned? q = some count := by
    rw [returned?, last]
    simp [empty]
  have order := (history_queue known (n + 2)).2
  have counts := history_counted q m (n + 2)
  rw [closed] at order counts
  refine ⟨n + 2, count, ?_, by rw [closed], by rw [closed]; exact empty, ?_, ?_, ?_, ?_⟩
  · intro k some le
    obtain ⟨k, rfl⟩ := Nat.exists_eq_succ_of_ne_zero some.ne'
    rw [Nat.succ_eq_add_one, run_step]
    exact during k (by omega)
  · rw [order]
    simp [empty]
  · intro k _ p value taken there
    rw [run_succ]
    exact step_value taken there
  · rw [history_succ, returned]
    simp
  · simpa [top] using counts

/-- A machine that is about to drain a queue with one pair.  Its callback enqueues another pair and
drains the queue itself, and both drains note what they count. -/
def nestedDrains : Machine Nat (List Nat) :=
  let note (count : Nat) : Program Nat (List Nat) := .access (count :: ·) fun _ => .done
  let callback (value : Nat) : Program Nat (List Nat) :=
    .enqueue ⟨0⟩ ⟨1⟩ (value + 1) (.drain ⟨0⟩ note)
  { store := { pendings := #[{ callbacks := [callback] }, {}], queues := #[[(⟨0⟩, 7)]] }
    state := []
    tasks := [.run (.drain ⟨0⟩ note)] }

theorem drain_reaches_fixed_point_nested :
    ∃ next n count, nestedDrains.tasks = [.run (.drain ⟨0⟩ next)] ∧
      nestedDrains.Drains ⟨0⟩ next [] n count :=
  have ⟨n, count, drains⟩ :=
    drain_reaches_fixed_point (m := nestedDrains) (q := ⟨0⟩) rfl (by decide)
  ⟨_, n, count, rfl, drains⟩

example : (nestedDrains.run 10).state = [1, 1] := rfl

end Machine

end ClassBench.Deferred
