import ClassBench.Deferred.Machine
import ClassBench.Text.Quoted

/-! Scripts over pending values: steps as data, which speak of pending values and queues by name.
The names are looked up when a step runs.  The steps of a callback leave a line in the log, each
with its answer; a step of the script itself only answers. -/

namespace ClassBench.Deferred

/-- The values of scripts. -/
inductive Datum where
  | number (value : Int64)
  | text (value : String)
  deriving DecidableEq, Repr

/-- The number that a value is, 0 for a text. -/
def Datum.asNumber : Datum → Int64
  | number value => value
  | text _ => 0

/-- The description of a value. -/
def Datum.describe : Datum → String
  | number value => toString value
  | text value => quoted value

/-- A number, given or counted from the one that the running callback received. -/
inductive Operand where
  | literal (value : Int64)
  | received (offset : Int64)
  deriving DecidableEq, Repr

/-- The number that an operand is for a callback that received a number. -/
def Operand.value (received : Int64) : Operand → Datum
  | literal value => .number value
  | .received offset => .number (received + offset)

/-- What becomes of a number that is mapped. -/
inductive Mapping where
  | add (n : Int64)
  | mul (n : Int64)
  | neg
  deriving DecidableEq, Repr

/-- The number that a mapping makes of another. -/
def Mapping.apply (n : Int64) : Mapping → Int64
  | add k => n + k
  | mul k => n * k
  | neg => -n

/-- A step of a script. -/
inductive Step where
  | new (name : String)
  | completed (name : String) (value : Operand)
  | share (name other : String)
  | newQueue (queue : String)
  | shareQueue (queue other : String)
  | complete (name : String) (value : Operand)
  | isCompleted (name : String)
  | value (name : String)
  | describe (name : String)
  | describeQueue (queue : String)
  | onComplete (name : String) (body : List Step)
  | log (tag : Datum)
  | map (name source : String) (mapping : Mapping)
  | mapText (name source : String)
  | textValue (name : String)
  | enqueue (queue name : String) (value : Operand)
  | blocked (queue name : String) (value : Operand)
  | blockedDefault (queue name : String)
  | length (queue : String)
  | drain (queue : String)
  /-- Queues a number whose callback logs it and, while it is positive, queues the one below. -/
  | countdown (queue : String) (first : Operand)

/-- The word for a step in the log. -/
def Step.word : Step → String
  | new _ => "new"
  | completed _ _ => "completed"
  | share _ _ => "alias"
  | newQueue _ => "queue"
  | shareQueue _ _ => "alias_queue"
  | complete _ _ => "complete"
  | isCompleted _ => "is_completed"
  | value _ => "value"
  | describe _ => "debug"
  | describeQueue _ => "debug_queue"
  | onComplete _ _ => "on_complete"
  | log _ => "log"
  | map _ _ _ => "map"
  | mapText _ _ => "map_string"
  | textValue _ => "string_value"
  | enqueue _ _ _ => "enqueue"
  | blocked _ _ _ => "blocked"
  | blockedDefault _ _ => "blocked_default"
  | length _ => "len"
  | drain _ => "drain"
  | countdown _ _ => "chain"

/-- What a step answers. -/
inductive Answer where
  | nothing
  | flag (value : Bool)
  | value (value : Option Datum)
  | text (text : String)
  | count (count : Nat)
  /-- The length of a queue. -/
  | length (count : Nat)
  /-- The value and the description of a pending text. -/
  | pending (value : Option Datum) (description : String)
  deriving DecidableEq, Repr

/-- A line of the log. -/
inductive Entry where
  | tagged (tag : Datum) (number : Int64)
  | answered (step : Step) (answer : Answer)

/-- What a script works with: the names given so far, the log with the latest line first, and the
answer of the last step of the script itself. -/
structure Desk where
  pendings : List (String × PendingId) := []
  texts : List (String × PendingId) := []
  queues : List (String × QueueId) := []
  log : List Entry := []
  answer : Answer := .nothing

/-- A part of a script. -/
abbrev Part := Routine Datum Desk

/-- Continues with what a name stands for; a name that stands for nothing ends the step. -/
def Part.withFound (find : Desk → List (String × β)) (name : String) (next : β → Part Answer) :
    Part Answer := do
  match (find (← Routine.getState)).lookup name with
  | some found => next found
  | none => return .nothing

/-- Gives a pending value a name. -/
def Part.namePending (name : String) (p : PendingId) : Part Answer := do
  Routine.modifyState fun desk => { desk with pendings := (name, p) :: desk.pendings }
  return .nothing

/-- Gives a queue a name. -/
def Part.nameQueue (name : String) (q : QueueId) : Part Answer := do
  Routine.modifyState fun desk => { desk with queues := (name, q) :: desk.queues }
  return .nothing

/-- Adds a line to the log. -/
def Part.note (entry : Entry) : Part Unit :=
  Routine.modifyState fun desk => { desk with log := entry :: desk.log }

/-- The description of a pending value. -/
def describePending (value : Option Datum) (callbacks : Nat) : String :=
  let value :=
    match value with
    | some d => s!"Some({d.describe})"
    | none => "None"
  s!"Pending \x7b value: {value}, callbacks: {callbacks} \x7d"

/-- What a countdown does with the numbers that it receives: `height` bounds how often it goes on.
-/
def countdown (q : QueueId) : (height : Nat) → Int64 → Part Unit
  | 0, n => Part.note (.tagged (.text "chain") n)
  | height + 1, n => do
    Part.note (.tagged (.text "chain") n)
    if 0 < n then
      let p ← Routine.blocked q (.number (n - 1))
      Routine.onComplete p fun d => countdown q height d.asNumber

mutual

/-- Performs a step for a callback that received a number. -/
def Step.perform (received : Int64) : Step → Part Answer
  | .new name => do Part.namePending name (← Routine.newPending)
  | .completed name value => do
    Part.namePending name (← Routine.completed (value.value received))
  | .share name other => Part.withFound Desk.pendings other fun p => Part.namePending name p
  | .newQueue queue => do Part.nameQueue queue (← Routine.newQueue)
  | .shareQueue queue other => Part.withFound Desk.queues other fun q => Part.nameQueue queue q
  | .complete name value =>
    Part.withFound Desk.pendings name fun p => do
      return .flag (← Routine.complete p (value.value received))
  | .isCompleted name =>
    Part.withFound Desk.pendings name fun p => do return .flag (← Routine.inspect p).1.isSome
  | .value name =>
    Part.withFound Desk.pendings name fun p => do return .value (← Routine.inspect p).1
  | .describe name =>
    Part.withFound Desk.pendings name fun p => do
      let (value, callbacks) ← Routine.inspect p
      return .text (describePending value callbacks)
  | .describeQueue queue =>
    Part.withFound Desk.queues queue fun q => do
      let count ← Routine.length q
      return .text s!"DeferredQueue \x7b len: {count} \x7d"
  | .onComplete name body =>
    Part.withFound Desk.pendings name fun p => do
      Routine.onComplete p fun d => performAll d.asNumber body
      return .nothing
  | .log tag => do
    Part.note (.tagged tag received)
    return .nothing
  | .map name source mapping =>
    Part.withFound Desk.pendings source fun p => do
      Part.namePending name (← Routine.map p fun d => .number (mapping.apply d.asNumber))
  | .mapText name source =>
    Part.withFound Desk.pendings source fun p => do
      let text ← Routine.map p fun d => .text s!"<{d.asNumber}>"
      Routine.modifyState fun desk => { desk with texts := (name, text) :: desk.texts }
      return .nothing
  | .textValue name =>
    Part.withFound Desk.texts name fun p => do
      let (value, callbacks) ← Routine.inspect p
      return .pending value (describePending value callbacks)
  | .enqueue queue name value =>
    Part.withFound Desk.queues queue fun q => Part.withFound Desk.pendings name fun p => do
      Routine.enqueue q p (value.value received)
      return .nothing
  | .blocked queue name value =>
    Part.withFound Desk.queues queue fun q => do
      Part.namePending name (← Routine.blocked q (value.value received))
  | .blockedDefault queue name =>
    Part.withFound Desk.queues queue fun q => do
      Part.namePending name (← Routine.blocked q (.number 0))
  | .length queue =>
    Part.withFound Desk.queues queue fun q => do return .length (← Routine.length q)
  | .drain queue => Part.withFound Desk.queues queue fun q => do return .count (← Routine.drain q)
  | .countdown queue first =>
    Part.withFound Desk.queues queue fun q => do
      let first := first.value received
      let p ← Routine.blocked q first
      let height := first.asNumber.toInt.toNat
      Routine.onComplete p fun d => Deferred.countdown q height d.asNumber
      return .nothing

/-- Performs the steps of a callback and logs their answers. -/
def performAll (received : Int64) : List Step → Part Unit
  | [] => return
  | step :: rest => do
    let answer ← step.perform received
    match step with
    | .log _ => pure ()
    | _ => Part.note (.answered step answer)
    performAll received rest

end

mutual

/-- A bound on the number of machine steps that a step takes, those of its callbacks included. -/
def Step.cost : Step → Nat
  | .onComplete _ body => 16 + costs body
  | .countdown _ _ => 2 ^ 70
  | _ => 16

/-- The bound for several steps. -/
def costs : List Step → Nat
  | [] => 1
  | step :: rest => step.cost + 4 + costs rest

end

/-- Runs a step of the script itself: its answer and what was logged meanwhile. -/
def Machine.runStep (fuel : Nat) (m : Machine Datum Desk) (step : Step) :
    (Answer × List Entry) × Machine Datum Desk :=
  let program : Program Datum Desk := Routine.program do
    let answer ← step.perform 0
    Routine.modifyState fun desk => { desk with answer }
  let m := (m.start program).run fuel
  ((m.state.answer, m.state.log.reverse), { m with state := { m.state with log := [] } })

/-- Runs a script, and collects what each step answers and logs. -/
def runScript (steps : List Step) : List (Answer × List Entry) :=
  let run : StateM (Machine Datum Desk) (List (Answer × List Entry)) :=
    steps.mapM fun step m => m.runStep (costs steps) step
  (run { state := {} }).1

end ClassBench.Deferred
