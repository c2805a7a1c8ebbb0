import ClassBench.Proofs.Deferred.Steps
import Mathlib.Logic.Hydra
import Mathlib.Algebra.BigOperators.Group.List.Basic

/-! Every run of the machine ends.  A program is a tree without infinite branches, but a step may
put any number of callbacks to work, so no number bounds what is still to do.  What does go down is
the multiset of the programs on the stack and the callbacks that wait: a step takes one of them away
and puts in parts of it.  The one step that may leave this multiset as it is takes a pair off a
queue, which gets shorter. -/

namespace ClassBench.Deferred

open Relation

/-- What is left to do: a program, a callback that waits for a value, or what follows a drain. -/
inductive Work (α σ : Type) where
  | program (program : Program α σ)
  | callback (callback : α → Program α σ)
  | continuation (next : Nat → Program α σ)

namespace Work

variable {α σ : Type}

/-- The first is a part of the second, which a step may put in its place. -/
inductive Below : Work α σ → Work α σ → Prop
  | access {change : σ → σ} {next : σ → Program α σ} (state : σ) :
    Below (.program (next state)) (.program (.access change next))
  | newPending {next : PendingId → Program α σ} (p : PendingId) :
    Below (.program (next p)) (.program (.newPending next))
  | newQueue {next : QueueId → Program α σ} (q : QueueId) :
    Below (.program (next q)) (.program (.newQueue next))
  | inspect {p : PendingId} {next : Option α → Nat → Program α σ} (value : Option α)
      (callbacks : Nat) : Below (.program (next value callbacks)) (.program (.inspect p next))
  | complete {p : PendingId} {value : α} {next : Bool → Program α σ} (set : Bool) :
    Below (.program (next set)) (.program (.complete p value next))
  | registered {p : PendingId} {callback : α → Program α σ} {next : Program α σ} :
    Below (.callback callback) (.program (.onComplete p callback next))
  | late {p : PendingId} {callback : α → Program α σ} {next : Program α σ} (value : α) :
    Below (.program (callback value)) (.program (.onComplete p callback next))
  | onComplete {p : PendingId} {callback : α → Program α σ} {next : Program α σ} :
    Below (.program next) (.program (.onComplete p callback next))
  | enqueue {q : QueueId} {p : PendingId} {value : α} {next : Program α σ} :
    Below (.program next) (.program (.enqueue q p value next))
  | length {q : QueueId} {next : Nat → Program α σ} (length : Nat) :
    Below (.program (next length)) (.program (.length q next))
  | drain {q : QueueId} {next : Nat → Program α σ} :
    Below (.continuation next) (.program (.drain q next))
  | callback {callback : α → Program α σ} (value : α) :
    Below (.program (callback value)) (.callback callback)
  | continuation {next : Nat → Program α σ} (taken : Nat) :
    Below (.program (next taken)) (.continuation next)

theorem acc_callback {callback : α → Program α σ}
    (values : ∀ value, Acc Below (.program (callback value))) : Acc Below (.callback callback) := by
  refine ⟨_, fun w below => ?_⟩
  cases below with
  | callback value => exact values value

theorem acc_continuation {next : Nat → Program α σ}
    (counts : ∀ taken, Acc Below (.program (next taken))) : Acc Below (.continuation next) := by
  refine ⟨_, fun w below => ?_⟩
  cases below with
  | continuation taken => exact counts taken

/-- The parts of a program are accessible because its branches end. -/
theorem acc_program (program : Program α σ) : Acc Below (.program program) := by
  induction program with
  | done => exact ⟨_, nofun⟩
  | access _ _ ih | newPending _ ih | newQueue _ ih | complete _ _ _ ih | length _ _ ih =>
    refine ⟨_, fun w below => ?_⟩
    cases below
    exact ih _
  | inspect _ _ ih =>
    refine ⟨_, fun w below => ?_⟩
    cases below
    exact ih _ _
  | enqueue _ _ _ _ ih =>
    refine ⟨_, fun w below => ?_⟩
    cases below
    exact ih
  | onComplete p callback next ihCallback ih =>
    refine ⟨_, fun w below => ?_⟩
    cases below with
    | registered => exact acc_callback ihCallback
    | late value => exact ihCallback value
    | onComplete => exact ih
  | drain q next ih =>
    refine ⟨_, fun w below => ?_⟩
    cases below
    exact acc_continuation ih

theorem wellFounded_below : WellFounded (Below (α := α) (σ := σ)) := by
  refine ⟨fun w => ?_⟩
  cases w with
  | program program => exact acc_program program
  | callback callback => exact acc_callback fun value => acc_program (callback value)
  | continuation next => exact acc_continuation fun taken => acc_program (next taken)

end Work

/-! ### What is left to do -/

/-- A sum over a row after one member of the row was replaced. -/
theorem sum_map_set {ι M : Type} [AddCommMonoid M] (f : ι → M) {row : List ι} {i : Nat} {old : ι}
    (new : ι) (found : row[i]? = some old) :
    ((row.set i new).map f).sum + f old = (row.map f).sum + f new := by
  induction row generalizing i with
  | nil => cases found
  | cons first row ih =>
    cases i with
    | zero =>
      rw [List.getElem?_cons_zero, Option.some.injEq] at found
      subst found
      simp [add_comm, add_left_comm]
    | succ i =>
      rw [List.getElem?_cons_succ] at found
      simp only [List.set_cons_succ, List.map_cons, List.sum_cons, add_assoc, ih found]

variable {α σ : Type}

/-- The callbacks that wait. -/
def Pending.work (kept : Pending α σ) : Multiset (Work α σ) := kept.callbacks.map Work.callback

namespace Store

variable {s : Store α σ} {p : PendingId} {q : QueueId} {kept : Pending α σ}

/-- All callbacks that wait. -/
def work (s : Store α σ) : Multiset (Work α σ) := (s.pendings.toList.map Pending.work).sum

/-- How many pairs are queued. -/
def queued (s : Store α σ) : Nat := (s.queues.toList.map List.length).sum

@[simp] theorem work_addPending : s.addPending.work = s.work := by
  simp [work, addPending, Pending.work]

theorem work_setPending (found : s.pending? p = some kept) (new : Pending α σ) :
    (s.setPending p new).work + kept.work = s.work + new.work := by
  rw [work, setPending, Array.toList_setIfInBounds]
  exact sum_map_set Pending.work new (by rwa [Array.getElem?_toList])

theorem work_registered {callbacks : List (α → Program α σ)}
    (waits : s.pending? p = some ⟨none, callbacks⟩) (callback : α → Program α σ) :
    (s.setPending p { callbacks := callbacks ++ [callback] }).work =
      .callback callback ::ₘ s.work := by
  have total := work_setPending waits { callbacks := callbacks ++ [callback] }
  simp only [Pending.work, List.map_append, ← Multiset.coe_add, List.map_singleton,
    Multiset.coe_singleton] at total
  rw [← add_assoc, add_right_comm] at total
  rw [add_right_cancel total, add_comm, Multiset.singleton_add]

theorem queued_setQueue (known : q.index < s.queues.size) (items : List (PendingId × α)) :
    (s.setQueue q items).queued + (s.queue q).length = s.queued + items.length := by
  rw [queued, setQueue, Array.toList_setIfInBounds]
  refine sum_map_set List.length items ?_
  rw [Array.getElem?_toList, queue, Array.getElem?_eq_getElem known]
  rfl

end Store

/-- What a task is still to do. -/
def Task.work : Task α σ → Work α σ
  | run program => .program program
  | draining _ _ next => .continuation next

/-- What tasks are still to do. -/
def Task.works (tasks : List (Task α σ)) : Multiset (Work α σ) := tasks.map Task.work

@[simp] theorem Task.works_cons (task : Task α σ) (tasks : List (Task α σ)) :
    Task.works (task :: tasks) = task.work ::ₘ Task.works tasks := rfl

@[simp] theorem Task.works_append (first second : List (Task α σ)) :
    Task.works (first ++ second) = Task.works first + Task.works second := by
  simp [works]

namespace Machine

variable {m : Machine α σ} {task : Task α σ} {rest : List (Task α σ)}

/-- What the machine is still to do. -/
def work (m : Machine α σ) : Multiset (Work α σ) := Task.works m.tasks + m.store.work

/-- The first machine has less to do: less work, or the same and less in the queues. -/
def Less (m' m : Machine α σ) : Prop :=
  Prod.Lex (TransGen (CutExpand Work.Below)) (· < ·) (m'.work, m'.store.queued)
    (m.work, m.store.queued)

theorem wellFounded_less : WellFounded (Less (α := α) (σ := σ)) :=
  InvImage.wf (fun m : Machine α σ => (m.work, m.store.queued))
    (WellFounded.prod_lex Work.wellFounded_below.cutExpand.transGen Nat.lt_wfRel.wf)

/-! ### Steps -/

/-- Callbacks that are put to work come to less. -/
theorem called_le (callbacks : List (α → Program α σ)) (value : α) :
    ReflTransGen (CutExpand Work.Below)
      (Task.works (callbacks.map fun callback => .run (callback value)))
      (callbacks.map Work.callback : Multiset (Work α σ)) := by
  induction callbacks with
  | nil => exact .refl
  | cons callback callbacks ih =>
    rw [List.map_cons, List.map_cons, Task.works_cons, ← Multiset.cons_coe,
      ← Multiset.singleton_add, ← Multiset.singleton_add]
    exact (ReflTransGen.lift _ (fun _ _ less => (cutExpand_add_left _).mpr less) _ _ ih).tail
      (cutExpand_single_add (.callback value) _)

/-- A completion leaves no more work than the task that waits for the answer, what is below it and
what was in the store. -/
theorem complete_le (m : Machine α σ) (p : PendingId) (value : α) (reply : Bool → Task α σ)
    (rest : List (Task α σ)) :
    ∃ set, ReflTransGen (CutExpand Work.Below)
      (m.complete p value fun set => reply set :: rest).work
      (Task.works (reply set :: rest) + m.store.work) := by
  rcases m.complete_cases p value fun set => reply set :: rest with
    ⟨callbacks, waits, after⟩ | ⟨-, after⟩
  · have total : (m.store.setPending p { value := some value }).work +
        callbacks.map Work.callback = m.store.work := by
      simpa [Pending.work] using Store.work_setPending waits { value := some value }
    have called := (called_le callbacks value).lift
      (Task.works (reply true :: rest) + (m.store.setPending p { value := some value }).work + ·)
      fun _ _ less => (cutExpand_add_left _).mpr less
    refine ⟨true, ?_⟩
    rw [after, work, Task.works_append, ← total, ← add_assoc, add_comm (Task.works (List.map _ _)),
      add_right_comm]
    exact called
  · exact ⟨false, by rw [after]; exact .refl⟩

/-- Parts of the topmost task in its place come to less. -/
theorem cutExpand_parts (parts : Multiset (Work α σ)) (top : m.tasks = task :: rest)
    (below : ∀ part ∈ parts, part.Below task.work) :
    CutExpand Work.Below (parts + (Task.works rest + m.store.work)) m.work := by
  rw [work, top, Task.works_cons, ← Multiset.singleton_add, add_assoc, cutExpand_add_right]
  exact cutExpand_singleton below

/-- A step that puts one part of the topmost task in its place leaves less to do. -/
theorem less_of_below {m' : Machine α σ} {task' : Task α σ} (top : m.tasks = task :: rest)
    (tasks : m'.tasks = task' :: rest) (store : m'.store.work = m.store.work)
    (below : Work.Below task'.work task.work) : m'.Less m := by
  refine .left _ _ (.single ?_)
  have replaced := cutExpand_parts {task'.work} top (by simpa using below)
  rwa [← store, ← add_assoc, Multiset.singleton_add, ← Task.works_cons, ← tasks] at replaced

/-- Every step leaves less to do. -/
theorem step_less (top : m.tasks = task :: rest) : m.step.Less m := by
  cases task with
  | run program =>
    rw [step_run top]
    cases program with
    | done =>
      have finished := cutExpand_parts 0 top (by simp)
      rw [zero_add] at finished
      exact .left _ _ (.single finished)
    | access change next => exact less_of_below top rfl rfl (.access m.state)
    | newPending next => exact less_of_below top rfl Store.work_addPending (.newPending _)
    | newQueue next => exact less_of_below top rfl rfl (.newQueue _)
    | inspect p next => exact less_of_below top rfl rfl (.inspect _ _)
    | complete p value next =>
      obtain ⟨set, le⟩ := m.complete_le p value (fun set => .run (next set)) rest
      have replaced := cutExpand_parts {.program (next set)} top
        (by simpa using .complete set)
      rw [← add_assoc] at replaced
      exact .left _ _ (.trans_right le (.single replaced))
    | onComplete p callback next =>
      rcases m.onComplete_cases p callback next rest with
        ⟨-, after⟩ | ⟨callbacks, waits, after⟩ | ⟨value, callbacks, -, after⟩
      · rw [after]
        exact less_of_below top rfl rfl .onComplete
      · have replaced := cutExpand_parts {.callback callback, .program next} top
          (by simpa using ⟨.registered, .onComplete⟩)
        refine .left _ _ (.single ?_)
        rw [after]
        simpa [work, Task.work, Store.work_registered waits callback] using replaced
      · have replaced := cutExpand_parts {.program (callback value), .program next} top
          (by simpa using ⟨.late value, .onComplete⟩)
        refine .left _ _ (.single ?_)
        rw [after]
        simpa [work, Task.work] using replaced
    | enqueue q p value next => exact less_of_below top rfl rfl .enqueue
    | length q next => exact less_of_below top rfl rfl (.length _)
    | drain q next => exact less_of_below top rfl rfl .drain
  | draining q taken next =>
    cases front : m.store.queue q with
    | nil =>
      rw [step_drained top front]
      exact less_of_below top rfl rfl (.continuation taken)
    | cons item items =>
      obtain ⟨p, value⟩ := item
      obtain ⟨set, le⟩ := ({ m with store := m.store.setQueue q items } : Machine α σ).complete_le p
        value (fun _ => .draining q (taken + 1) next) rest
      have same : Task.works (.draining q (taken + 1) next :: rest) +
          (m.store.setQueue q items).work = m.work := by rw [work, top]; rfl
      have shorter := Store.queued_setQueue (Store.known_of_queue_cons front) items
      rw [front, List.length_cons] at shorter
      rw [step_taking top front]
      -- Without callbacks the work stays the same, but the queue got shorter.
      rcases reflTransGen_iff_eq_or_transGen.mp (same ▸ le) with unchanged | less
      · rw [Less, ← unchanged, Store.queued, complete_queues]
        exact .right _ (by show (m.store.setQueue q items).queued < _; omega)
      · exact .left _ _ less

/-- Every run ends. -/
theorem halts (m : Machine α σ) : ∃ n, (m.run n).tasks = [] := by
  induction m using wellFounded_less.induction with
  | _ m ih =>
    cases top : m.tasks with
    | nil => exact ⟨0, top⟩
    | cons task rest =>
      obtain ⟨n, ends⟩ := ih m.step (step_less top)
      exact ⟨n + 1, by rwa [run_step]⟩

/-- The machine works on tasks above these until only these are left. -/
def ComesDownTo (m : Machine α σ) (rest : List (Task α σ)) : Prop :=
  ∃ n, (m.run n).tasks = rest ∧
    ∀ k < n, ∃ task above, (m.run k).tasks = task :: above ++ rest

/-- Whatever stands above other tasks is carried to its end before these. -/
theorem comes_down {above : List (Task α σ)} (split : m.tasks = above ++ rest) :
    m.ComesDownTo rest := by
  obtain ⟨limit, ends⟩ := m.halts
  induction limit generalizing m above with
  | zero =>
    rw [run, split, List.append_eq_nil_iff] at ends
    exact ⟨0, by rw [run, split, ends.1]; rfl, fun k lt => absurd lt (Nat.not_lt_zero k)⟩
  | succ limit ih =>
    cases above with
    | nil => exact ⟨0, split, fun k lt => absurd lt (Nat.not_lt_zero k)⟩
    | cons task above =>
      obtain ⟨new, tasks⟩ := step_tasks split
      obtain ⟨n, down, during⟩ :=
        ih (tasks.trans (List.append_assoc new above rest).symm) (by rwa [← run_step])
      refine ⟨n + 1, by rwa [run_step], fun k lt => ?_⟩
      cases k with
      | zero => exact ⟨task, above, split⟩
      | succ k =>
        rw [run_step]
        exact during k (Nat.lt_of_succ_lt_succ lt)

end Machine

end ClassBench.Deferred
