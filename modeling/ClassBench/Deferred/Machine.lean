import ClassBench.Deferred.Program

/-! Running programs over pending values.  The machine works on a stack of tasks, the topmost first:
the callbacks of a completion are put above what follows it, in the order in which they were
registered, and a queue that is being drained stays below the callbacks of what was taken off it. -/

namespace ClassBench.Deferred

/-- What the machine keeps of a pending value.  Callbacks wait only as long as there is no value. -/
structure Pending (α σ : Type) where
  value : Option α := none
  callbacks : List (α → Program α σ) := []

/-- The pending values and the queues, each queue from front to back. -/
structure Store (α σ : Type) where
  pendings : Array (Pending α σ) := #[]
  queues : Array (List (PendingId × α)) := #[]

namespace Store

/-- What is kept of a pending value. -/
def pending? (s : Store α σ) (p : PendingId) : Option (Pending α σ) := s.pendings[p.index]?

/-- The value that was supplied. -/
def value? (s : Store α σ) (p : PendingId) : Option α := (s.pending? p).bind Pending.value

/-- The callbacks that wait for a value. -/
def callbacks (s : Store α σ) (p : PendingId) : List (α → Program α σ) :=
  ((s.pending? p).map Pending.callbacks).getD []

/-- What is queued, from front to back. -/
def queue (s : Store α σ) (q : QueueId) : List (PendingId × α) := s.queues[q.index]?.getD []

/-- Adds a pending value. -/
def addPending (s : Store α σ) : Store α σ := { s with pendings := s.pendings.push {} }

/-- Adds a queue. -/
def addQueue (s : Store α σ) : Store α σ := { s with queues := s.queues.push [] }

/-- Changes what is kept of a pending value. -/
def setPending (s : Store α σ) (p : PendingId) (kept : Pending α σ) : Store α σ :=
  { s with pendings := s.pendings.setIfInBounds p.index kept }

/-- Changes what is queued. -/
def setQueue (s : Store α σ) (q : QueueId) (items : List (PendingId × α)) : Store α σ :=
  { s with queues := s.queues.setIfInBounds q.index items }

end Store

/-- What the machine has to do. -/
inductive Task (α σ : Type) where
  | run (program : Program α σ)
  /-- Goes on draining a queue, after so many were taken off it. -/
  | draining (queue : QueueId) (taken : Nat) (next : Nat → Program α σ)

/-- The machine. -/
structure Machine (α σ : Type) where
  store : Store α σ := {}
  state : σ
  tasks : List (Task α σ) := []

namespace Machine

/-- Supplies a value, with `rest` to do afterwards: the callbacks that waited for the value come
first, and `rest` learns whether there was no value. -/
def complete (m : Machine α σ) (p : PendingId) (value : α) (rest : Bool → List (Task α σ)) :
    Machine α σ :=
  match m.store.pending? p with
  | some ⟨none, callbacks⟩ =>
    { m with
      store := m.store.setPending p { value := some value }
      tasks := callbacks.map (fun callback => .run (callback value)) ++ rest true }
  | _ => { m with tasks := rest false }

/-- Performs the operation at the root of a program, with `rest` to do after the program. -/
def perform (m : Machine α σ) (rest : List (Task α σ)) : Program α σ → Machine α σ
  | .done => { m with tasks := rest }
  | .access change next =>
    { m with state := change m.state, tasks := .run (next m.state) :: rest }
  | .newPending next =>
    let p : PendingId := ⟨m.store.pendings.size⟩
    { m with store := m.store.addPending, tasks := .run (next p) :: rest }
  | .newQueue next =>
    let q : QueueId := ⟨m.store.queues.size⟩
    { m with store := m.store.addQueue, tasks := .run (next q) :: rest }
  | .inspect p next =>
    { m with tasks := .run (next (m.store.value? p) (m.store.callbacks p).length) :: rest }
  | .complete p value next => m.complete p value fun set => .run (next set) :: rest
  | .onComplete p callback next =>
    match m.store.pending? p with
    | some ⟨some value, _⟩ => { m with tasks := .run (callback value) :: .run next :: rest }
    | some ⟨none, callbacks⟩ =>
      { m with
        store := m.store.setPending p { callbacks := callbacks ++ [callback] }
        tasks := .run next :: rest }
    | none => { m with tasks := .run next :: rest }
  | .enqueue q p value next =>
    { m with
      store := m.store.setQueue q (m.store.queue q ++ [(p, value)])
      tasks := .run next :: rest }
  | .length q next => { m with tasks := .run (next (m.store.queue q).length) :: rest }
  | .drain q next => { m with tasks := .draining q 0 next :: rest }

/-- One step: the topmost task is performed. -/
def step (m : Machine α σ) : Machine α σ :=
  match m.tasks with
  | [] => m
  | .run program :: rest => m.perform rest program
  | .draining q taken next :: rest =>
    match m.store.queue q with
    | [] => { m with tasks := .run (next taken) :: rest }
    | (p, value) :: items =>
      { m with store := m.store.setQueue q items }.complete p value
        fun _ => .draining q (taken + 1) next :: rest

/-- Runs until nothing is left to do, for `fuel` steps at most. -/
def run : (fuel : Nat) → Machine α σ → Machine α σ
  | 0, m => m
  | fuel + 1, m =>
    match m.tasks with
    | [] => m
    | _ :: _ => run fuel m.step

/-- Gives the machine a program to run. -/
def start (m : Machine α σ) (program : Program α σ) : Machine α σ :=
  { m with tasks := .run program :: m.tasks }

end Machine

end ClassBench.Deferred
