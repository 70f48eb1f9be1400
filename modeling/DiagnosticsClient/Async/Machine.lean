import DiagnosticsClient.Async.Heap
import DiagnosticsClient.Number.Binary64
/-
Cooperative tasks on one loop.

A task runs a routine: it calls other routines, waits for futures, and ends
with an outcome. What it still has to do is a stack of frames, one for each
routine that waits for the one above it. A `Program` says how a routine begins
and how a frame goes on; the machine does the rest, one small step at a time:
it runs the current task until that task waits or ends, then takes the next
entry of the ready queue, first come, first served. A future that is settled
puts its callbacks at the end of that queue.

Nothing happens when no task runs and the queue is empty, until a future is
settled from outside or time passes. Time is a binary number of seconds and
moves by `advance` only; a timer is due a clock tick before its time.
-/
namespace DiagnosticsClient

namespace Async

abbrev TaskId := Nat

abbrev FutureId := Nat

/-- How a routine ends. -/
inductive Outcome (ν ε : Type) where
  | value (v : ν)
  | failed (e : ε)
  | cancelled

/-- What is to be done once a future is settled. -/
inductive Callback where
  /-- The task that waits for it goes on. -/
  | wake (task : TaskId)
  /-- Another future, which stands for the wait, is settled if it is not. -/
  | release (waiter : FutureId)
  /-- A group takes note that a member ended. -/
  | tally (group : Nat)
deriving DecidableEq

/-- An outcome that is, or is not yet, there. The future of a task is settled by the task's end. -/
structure Future (ν ε : Type) where
  outcome : Option (Outcome ν ε) := none
  callbacks : List Callback := []
  task : Option TaskId := none

/-- A task for a routine. `stack` has what it goes on with, once it has begun and waits; `mustCancel` holds a
cancellation back until the task runs again. -/
structure Task (ρ φ : Type) where
  future : FutureId
  routine : ρ
  stack : Option (List φ) := none
  waiting : Option FutureId := none
  mustCancel : Bool := false

/-- Tasks whose outcomes are waited for together: the first failure noted settles `outer`, or else the last end does.
`left` counts the ends not noted yet. -/
structure Group where
  outer : FutureId
  left : Nat

/-- A future to be settled at a time. -/
structure Timer where
  time : Binary64
  waiter : FutureId
  cancelled : Bool := false

/-- Whether the time of one timer is before that of another. -/
def Timer.before (a b : Timer) : Bool := a.time.lt b.time

/-- The finest difference the clock makes, in seconds. -/
def clockTick : Binary64 := .ofDecimal false 1 (-9)

/-- Whether a timer for a time is due. A time that is no number is due at once. -/
def isDue (now time : Binary64) : Bool := !(now.add clockTick).le time

/-- An entry of the ready queue. -/
inductive Handle (ν ε : Type) where
  | start (task : TaskId)
  | notify (callback : Callback) (future : FutureId)
  | expire (waiter : FutureId)
  | deliver (future : FutureId) (outcome : Outcome ν ε)

/-- The task that runs: what it does next, and the frames below. -/
inductive Running (ρ φ ν ε : Type) where
  | begin (task : TaskId) (routine : ρ) (stack : List φ)
  | resume (task : TaskId) (outcome : Outcome ν ε) (stack : List φ)

/-- What a routine or a frame does. -/
inductive Action (ρ φ ν ε : Type) where
  /-- Ends with an outcome for the frame below. -/
  | done (outcome : Outcome ν ε)
  /-- Waits for a future and goes on as `frame`. -/
  | await (future : FutureId) (frame : φ)
  /-- Runs a routine and goes on as `frame`. -/
  | call (routine : ρ) (frame : φ)
  /-- Runs a routine in its own place. -/
  | become (routine : ρ)

/-- The loop: `state` is what the tasks share. -/
structure Machine (σ ρ φ ν ε : Type) where
  state : σ
  now : Binary64 := .zero false
  futures : Array (Future ν ε) := #[]
  tasks : Array (Task ρ φ) := #[]
  groups : List Group := []
  timers : Array Timer := #[]
  ready : List (Handle ν ε) := []
  running : Option (Running ρ φ ν ε) := none

/-- How routines begin and frames go on. -/
structure Program (σ ρ φ ν ε : Type) where
  begin : TaskId → ρ → Machine σ ρ φ ν ε → Machine σ ρ φ ν ε × Action ρ φ ν ε
  resume : TaskId → φ → Outcome ν ε → Machine σ ρ φ ν ε → Machine σ ρ φ ν ε × Action ρ φ ν ε

namespace Machine

variable {σ ρ φ ν ε : Type}

/-- The machine with its shared state changed. -/
def modify (m : Machine σ ρ φ ν ε) (f : σ → σ) : Machine σ ρ φ ν ε := { m with state := f m.state }

/-- Puts an entry at the end of the ready queue. -/
def enqueue (m : Machine σ ρ φ ν ε) (h : Handle ν ε) : Machine σ ρ φ ν ε := { m with ready := m.ready ++ [h] }

/-! ## Futures -/

/-- A new future. -/
def newFuture (m : Machine σ ρ φ ν ε) : Machine σ ρ φ ν ε × FutureId :=
  ({ m with futures := m.futures.push {} }, m.futures.size)

/-- The outcome of a future, once it is settled. -/
def outcome? (m : Machine σ ρ φ ν ε) (f : FutureId) : Option (Outcome ν ε) := m.futures[f]?.bind (·.outcome)

def isSettled (m : Machine σ ρ φ ν ε) (f : FutureId) : Bool := (m.outcome? f).isSome

/-- Whether a future was settled by a cancellation. -/
def isCancelled (m : Machine σ ρ φ ν ε) (f : FutureId) : Bool :=
  match m.outcome? f with
  | some .cancelled => true
  | _ => false

/-- Settles a future that is not, and queues its callbacks. -/
def settle (m : Machine σ ρ φ ν ε) (f : FutureId) (o : Outcome ν ε) : Machine σ ρ φ ν ε :=
  match m.futures[f]? with
  | none => m
  | some future =>
    match future.outcome with
    | some _ => m
    | none =>
      { m with
        futures := m.futures.modify f fun future => { future with outcome := some o, callbacks := [] }
        ready := m.ready ++ future.callbacks.map fun c => .notify c f }

/-- Adds a callback; that of a settled future is queued at once. -/
def addCallback (m : Machine σ ρ φ ν ε) (f : FutureId) (c : Callback) : Machine σ ρ φ ν ε :=
  if m.isSettled f then m.enqueue (.notify c f)
  else { m with futures := m.futures.modify f fun future => { future with callbacks := future.callbacks ++ [c] } }

/-- Takes a callback away. -/
def removeCallback (m : Machine σ ρ φ ν ε) (f : FutureId) (c : Callback) : Machine σ ρ φ ν ε :=
  { m with futures := m.futures.modify f fun future => { future with callbacks := future.callbacks.filter (· ≠ c) } }

/-! ## Tasks -/

/-- A new task for a routine; it starts when its turn comes. -/
def spawn (m : Machine σ ρ φ ν ε) (routine : ρ) : Machine σ ρ φ ν ε × TaskId :=
  let task := m.tasks.size
  ({ m with
      futures := m.futures.push { task := some task }
      tasks := m.tasks.push { future := m.futures.size, routine }
      ready := m.ready ++ [.start task] }, task)

/-- The future of a task. -/
def futureOf (m : Machine σ ρ φ ν ε) (t : TaskId) : FutureId := (m.tasks[t]?.map (·.future)).getD 0

/-- The outcome of a task, once it has ended. -/
def taskOutcome? (m : Machine σ ρ φ ν ε) (t : TaskId) : Option (Outcome ν ε) :=
  m.tasks[t]?.bind fun task => m.outcome? task.future

def hasEnded (m : Machine σ ρ φ ν ε) (t : TaskId) : Bool := (m.taskOutcome? t).isSome

/-- The machine with a task changed. -/
def modifyTask (m : Machine σ ρ φ ν ε) (t : TaskId) (f : Task ρ φ → Task ρ φ) : Machine σ ρ φ ν ε :=
  { m with tasks := m.tasks.modify t f }

/-- Cancels a future, and says whether that took hold. The future of a task hands it on to what the task waits for;
where that is out of reach, the task is cancelled as soon as it runs. -/
def cancelFuture : (fuel : Nat) → Machine σ ρ φ ν ε → FutureId → Machine σ ρ φ ν ε × Bool
  | 0, m, _ => (m, false)
  | fuel + 1, m, f =>
    match m.futures[f]? with
    | none => (m, false)
    | some future =>
      if future.outcome.isSome then (m, false)
      else
        match future.task with
        | none => (m.settle f .cancelled, true)
        | some t =>
          let (m, reached) := match m.tasks[t]?.bind (·.waiting) with
            | some g => cancelFuture fuel m g
            | none => (m, false)
          if reached then (m, true) else (m.modifyTask t fun task => { task with mustCancel := true }, true)

/-- Cancels a task, and says whether it was still to end. -/
def cancelTask (m : Machine σ ρ φ ν ε) (t : TaskId) : Machine σ ρ φ ν ε × Bool :=
  m.cancelFuture (m.tasks.size + 1) (m.futureOf t)

/-- Several new tasks as a group; `outer` is settled when all have ended well or one has not. -/
def spawnGroup [Inhabited ν] (m : Machine σ ρ φ ν ε) (routines : List ρ) :
    Machine σ ρ φ ν ε × FutureId × List TaskId :=
  let group := m.groups.length
  let (m, members) := routines.foldl
    (fun (m, members) routine =>
      let (m, t) := m.spawn routine
      (m, members ++ [t]))
    (m, [])
  let m := members.foldl (fun m t => m.addCallback (m.futureOf t) (.tally group)) m
  let (m, outer) := m.newFuture
  let m := { m with groups := m.groups ++ [{ outer, left := members.length }] }
  (if members = [] then m.settle outer (.value default) else m, outer, members)

/-! ## Timers -/

/-- Drops the cancelled timers that stand first. -/
def dropCancelled : (fuel : Nat) → Array Timer → Array Timer
  | 0, timers => timers
  | fuel + 1, timers =>
    match timers[0]? with
    | some first =>
      if first.cancelled then
        match Heap.pop? Timer.before timers with
        | some (_, rest) => dropCancelled fuel rest
        | none => timers
      else timers
    | none => timers

/-- Settles `waiter` when the time comes; if it has come already, as soon as it is its turn. -/
def addTimer (m : Machine σ ρ φ ν ε) (time : Binary64) (waiter : FutureId) : Machine σ ρ φ ν ε :=
  if isDue m.now time then m.enqueue (.expire waiter)
  else { m with timers := Heap.push Timer.before (dropCancelled m.timers.size m.timers) { time, waiter } }

/-- Gives up the timer of a future. -/
def cancelTimer (m : Machine σ ρ φ ν ε) (waiter : FutureId) : Machine σ ρ φ ν ε :=
  { m with timers := m.timers.map fun t => if t.waiter = waiter then { t with cancelled := true } else t }

/-- Takes the timers that are due out of the heap, and queues those not cancelled. -/
def takeDue (now : Binary64) : (fuel : Nat) → Array Timer → List (Handle ν ε) → Array Timer × List (Handle ν ε)
  | 0, timers, due => (timers, due)
  | fuel + 1, timers, due =>
    match Heap.pop? Timer.before timers with
    | none => (timers, due)
    | some (first, rest) =>
      if isDue now first.time then
        takeDue now fuel rest (if first.cancelled then due else due ++ [.expire first.waiter])
      else (timers, due)

/-- The time is set; the timers then due take their turn. -/
def setTime (m : Machine σ ρ φ ν ε) (now : Binary64) : Machine σ ρ φ ν ε :=
  let timers := dropCancelled m.timers.size m.timers
  let (timers, due) := takeDue now timers.size timers []
  { m with now, timers, ready := m.ready ++ due }

/-- Lets time pass. -/
def advance (m : Machine σ ρ φ ν ε) (seconds : Binary64) : Machine σ ρ φ ν ε := m.setTime (m.now.add seconds)

/-- The time of the first timer. -/
def nextTime? (m : Machine σ ρ φ ν ε) : Option Binary64 :=
  (dropCancelled m.timers.size m.timers)[0]?.map (·.time)

/-! ## Steps -/

/-- Ends the running task; one that was cancelled at the last moment ends as cancelled. -/
def endTask (m : Machine σ ρ φ ν ε) (t : TaskId) (o : Outcome ν ε) : Machine σ ρ φ ν ε :=
  match m.tasks[t]? with
  | none => { m with running := none }
  | some task =>
    let o := match o with
      | .value v => if task.mustCancel then .cancelled else .value v
      | o => o
    { m.modifyTask t (fun task => { task with mustCancel := false }) with running := none }.settle task.future o

/-- Suspends the running task until a future is settled. -/
def suspend (m : Machine σ ρ φ ν ε) (t : TaskId) (f : FutureId) (stack : List φ) : Machine σ ρ φ ν ε :=
  let held := (m.tasks[t]?.map (·.mustCancel)).getD false
  let m := { m.modifyTask t (fun task => { task with waiting := some f, stack := some stack })
    with running := none }
  let m := m.addCallback f (.wake t)
  if held then
    let (m, reached) := m.cancelFuture (m.tasks.size + 1) f
    if reached then m.modifyTask t fun task => { task with mustCancel := false } else m
  else m

/-- Carries out what a routine or a frame of the running task does. -/
def perform (m : Machine σ ρ φ ν ε) (t : TaskId) (stack : List φ) : Action ρ φ ν ε → Machine σ ρ φ ν ε
  | .done o => { m with running := some (.resume t o stack) }
  | .call routine frame => { m with running := some (.begin t routine (frame :: stack)) }
  | .become routine => { m with running := some (.begin t routine stack) }
  | .await f frame =>
    match m.outcome? f with
    | some o => { m with running := some (.resume t o (frame :: stack)) }
    | none => m.suspend t f (frame :: stack)

/-- A task's turn, with the outcome it waited for; a cancellation held back comes first. -/
def resumeTask (m : Machine σ ρ φ ν ε) (t : TaskId) (o : Outcome ν ε) : Machine σ ρ φ ν ε :=
  match m.tasks[t]? with
  | none => m
  | some task =>
    let o := if task.mustCancel then .cancelled else o
    { m.modifyTask t (fun task => { task with waiting := none, mustCancel := false }) with
      running := some (.resume t o (task.stack.getD [])) }

/-- A task's first turn; one cancelled before it never begins. -/
def startTask (m : Machine σ ρ φ ν ε) (t : TaskId) : Machine σ ρ φ ν ε :=
  match m.tasks[t]? with
  | none => m
  | some task =>
    if task.mustCancel then
      { m.modifyTask t (fun task => { task with mustCancel := false }) with running := some (.resume t .cancelled []) }
    else
      match task.stack with
      | none => { m with running := some (.begin t task.routine []) }
      | some _ => m

/-- A group takes note that the future of a member is settled. -/
def tally [Inhabited ν] (m : Machine σ ρ φ ν ε) (group : Nat) (f : FutureId) : Machine σ ρ φ ν ε :=
  match m.groups[group]? with
  | none => m
  | some g =>
    let left := g.left - 1
    let m := { m with groups := m.groups.set group { g with left } }
    match m.outcome? f with
    | some (.value _) => if left = 0 then m.settle g.outer (.value default) else m
    | some o => m.settle g.outer o
    | none => m

/-- An entry's turn. -/
def handle [Inhabited ν] (m : Machine σ ρ φ ν ε) : Handle ν ε → Machine σ ρ φ ν ε
  | .start t => m.startTask t
  | .notify (.wake t) f => m.resumeTask t ((m.outcome? f).getD (.value default))
  | .notify (.release waiter) _ => m.settle waiter (.value default)
  | .notify (.tally group) f => m.tally group f
  | .expire waiter => m.settle waiter (.value default)
  | .deliver f o => m.settle f o

/-- One step: the running task's, or else the next entry's. -/
def tick [Inhabited ν] (program : Program σ ρ φ ν ε) (m : Machine σ ρ φ ν ε) : Machine σ ρ φ ν ε :=
  match m.running with
  | some (.begin t routine stack) =>
    let (m, action) := program.begin t routine m
    m.perform t stack action
  | some (.resume t o []) => m.endTask t o
  | some (.resume t o (frame :: stack)) =>
    let (m, action) := program.resume t frame o m
    m.perform t stack action
  | none =>
    match m.ready with
    | [] => m
    | h :: rest => { m with ready := rest }.handle h

/-- Nothing can go on by itself. -/
def isQuiet (m : Machine σ ρ φ ν ε) : Bool := m.running.isNone && m.ready.isEmpty

/-- Steps until nothing can go on, at most `fuel` of them. -/
def run [Inhabited ν] (program : Program σ ρ φ ν ε) : (fuel : Nat) → Machine σ ρ φ ν ε → Machine σ ρ φ ν ε
  | 0, m => m
  | fuel + 1, m => if m.isQuiet then m else run program fuel (m.tick program)

/-! ## Turns -/

/-- The turns of some entries, each with the steps of the task it sets going. -/
def runEntries [Inhabited ν] (program : Program σ ρ φ ν ε) : (fuel entries : Nat) → Machine σ ρ φ ν ε → Machine σ ρ φ ν ε
  | 0, _, m => m
  | fuel + 1, entries, m =>
    match m.running, entries with
    | some _, entries => runEntries program fuel entries (m.tick program)
    | none, 0 => m
    | none, entries + 1 => runEntries program fuel entries (m.tick program)

/-- One turn of each entry that is ready now; those they add are not among them. -/
def runRound [Inhabited ν] (program : Program σ ρ φ ν ε) (fuel : Nat) (m : Machine σ ρ φ ν ε) : Machine σ ρ φ ν ε :=
  runEntries program fuel m.ready.length m

/-- Rounds until a task has ended, and the one in which that is noticed. When nothing can go on, the clock moves to the
next timer; without one the wait is given up. -/
def runTask [Inhabited ν] (program : Program σ ρ φ ν ε) (fuel : Nat) (t : TaskId) : (rounds : Nat) → Machine σ ρ φ ν ε →
    Machine σ ρ φ ν ε
  | 0, m => m
  | rounds + 1, m =>
    if m.hasEnded t then m.runRound program fuel
    else if m.isQuiet then
      match m.nextTime? with
      | some time => runTask program fuel t rounds (m.setTime time)
      | none => m
    else runTask program fuel t rounds (m.runRound program fuel)

/-- Cancels every task that has not ended. -/
def cancelAll (m : Machine σ ρ φ ν ε) : Machine σ ρ φ ν ε :=
  (List.range m.tasks.size).foldl (fun m t => if m.hasEnded t then m else (m.cancelTask t).1) m

/-- Runs a routine as a task to its end. What other tasks have not done by then is cancelled. -/
def complete [Inhabited ν] (program : Program σ ρ φ ν ε) (fuel : Nat) (routine : ρ) (m : Machine σ ρ φ ν ε) :
    Machine σ ρ φ ν ε × Outcome ν ε :=
  let (m, t) := m.spawn routine
  let m := m.runTask program fuel t fuel
  let outcome := (m.taskOutcome? t).getD .cancelled
  (m.cancelAll.run program fuel, outcome)

end Machine

end Async

end DiagnosticsClient
