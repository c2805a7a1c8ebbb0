/-! Programs over pending values.  A pending value is supplied once, by whoever completes it, and
then runs the callbacks that were registered on it; a queue holds pending values with the values
that they will receive.  A program is a tree: each node is one operation, and what follows it may
depend on the operation's answer, so that a callback can do whatever a program can.  Besides, a
program works on a state of type `σ` of its own. -/

namespace ClassBench.Deferred

/-- A pending value, by its number in order of creation. -/
structure PendingId where
  index : Nat
  deriving DecidableEq, Repr

/-- A queue, by its number in order of creation. -/
structure QueueId where
  index : Nat
  deriving DecidableEq, Repr

/-- A program over pending values of type `α`. -/
inductive Program (α σ : Type) : Type where
  | done
  /-- Changes the state; what follows is given the state before. -/
  | access (change : σ → σ) (next : σ → Program α σ)
  | newPending (next : PendingId → Program α σ)
  | newQueue (next : QueueId → Program α σ)
  /-- Asks for the value and the number of callbacks that wait for it. -/
  | inspect (pending : PendingId) (next : Option α → Nat → Program α σ)
  /-- Supplies the value; the answer is whether there was none. -/
  | complete (pending : PendingId) (value : α) (next : Bool → Program α σ)
  /-- Runs a callback with the value, at once or as soon as it is supplied. -/
  | onComplete (pending : PendingId) (callback : α → Program α σ) (next : Program α σ)
  | enqueue (queue : QueueId) (pending : PendingId) (value : α) (next : Program α σ)
  | length (queue : QueueId) (next : Nat → Program α σ)
  /-- Completes what is queued, front to back, until nothing is; the answer is how much there was.
  -/
  | drain (queue : QueueId) (next : Nat → Program α σ)

/-- A part of a program that hands a result to what follows. -/
def Routine (α σ β : Type) : Type := (β → Program α σ) → Program α σ

namespace Routine

instance : Monad (Routine α σ) where
  pure result := fun next => next result
  bind first rest := fun next => first fun result => rest result next

/-- The program that ends with the routine. -/
def program (r : Routine α σ Unit) : Program α σ := r fun () => .done

/-- Reads the state. -/
def getState : Routine α σ σ := Program.access id

/-- Changes the state. -/
def modifyState (change : σ → σ) : Routine α σ Unit := fun next => .access change fun _ => next ()

/-- A new pending value. -/
def newPending : Routine α σ PendingId := Program.newPending

/-- A new queue. -/
def newQueue : Routine α σ QueueId := Program.newQueue

/-- The value of a pending value, and the number of callbacks that wait for it. -/
def inspect (pending : PendingId) : Routine α σ (Option α × Nat) :=
  fun next => .inspect pending fun value callbacks => next (value, callbacks)

/-- Supplies a pending value. -/
def complete (pending : PendingId) (value : α) : Routine α σ Bool := Program.complete pending value

/-- Registers a callback. -/
def onComplete (pending : PendingId) (callback : α → Routine α σ Unit) : Routine α σ Unit :=
  fun next => .onComplete pending (fun value => (callback value).program) (next ())

/-- Puts a pending value at the end of a queue, with the value that it will receive. -/
def enqueue (queue : QueueId) (pending : PendingId) (value : α) : Routine α σ Unit :=
  fun next => .enqueue queue pending value (next ())

/-- The number of pending values in a queue. -/
def length (queue : QueueId) : Routine α σ Nat := Program.length queue

/-- Drains a queue. -/
def drain (queue : QueueId) : Routine α σ Nat := Program.drain queue

/-- A pending value that has its value already. -/
def completed (value : α) : Routine α σ PendingId := do
  let pending ← newPending
  discard (complete pending value)
  return pending

/-- A pending value that receives `f` of the value of another. -/
def map (source : PendingId) (f : α → α) : Routine α σ PendingId := do
  let target ← newPending
  onComplete source fun value => discard (complete target (f value))
  return target

/-- A new pending value, queued for completion. -/
def blocked (queue : QueueId) (value : α) : Routine α σ PendingId := do
  let pending ← newPending
  enqueue queue pending value
  return pending

end Routine

end ClassBench.Deferred
