import DiagnosticsClient.Session.Effects
/-
A limit on the time a routine may take.

The routine runs as a task of its own. Whoever asked waits for a future that
is settled by the end of the task or by a timer, whichever is first. When
time is up the task is cancelled and waited for, so that it does not run on;
an outcome it still comes to is taken. With no time at all the task is
cancelled before it begins, and with more time than the clock can count there
is no task.
-/
namespace DiagnosticsClient

namespace Loop

open Async

/-- The outcome of a task. -/
def taskEnding (m : Loop) (task : TaskId) : Ending := (m.taskOutcome? task).getD .cancelled

/-- The outcome of a task that was given no more time. -/
def lateEnding (m : Loop) (task : TaskId) : Ending :=
  match m.taskEnding task with
  | .cancelled => .failed (.timedOut [])
  | o => o

def within (limit : Seconds) (inner : Routine) (m : Loop) : Loop × Move :=
  if limit.isOver then
    let (m, task) := m.spawn inner
    (m, .call (.cancelAndWait task) (.overdue task))
  else
    match limit.toBinary? with
    | none => (m, .done (.failed .limitTooLong))
    | some time =>
      let (m, task) := m.spawn inner
      let (m, waiter) := m.newFuture
      let m := m.addTimer (m.now.add time) waiter
      (m.addCallback (m.futureOf task) (.release waiter), .await waiter (.timing task waiter))

/-- The wait is over: the task has ended, or its time is up, or it is of no more interest. -/
def timeResumed (task : TaskId) (waiter : FutureId) (o : Ending) (m : Loop) : Loop × Move :=
  if m.hasEnded task then (m.cancelTimer waiter, .done (m.taskEnding task))
  else
    let m := m.removeCallback (m.futureOf task) (.release waiter)
    match o with
    | .value _ => (m, .call (.cancelAndWait task) (.lapsed task waiter))
    | _ => (m, .call (.cancelAndWait task) (.abandoned waiter))

def overdueResumed (task : TaskId) (o : Ending) (m : Loop) : Loop × Move :=
  match o with
  | .value _ => (m, .done (m.lateEnding task))
  | o => (m, .done o)

def lapsedResumed (task : TaskId) (waiter : FutureId) (o : Ending) (m : Loop) : Loop × Move :=
  match o with
  | .value _ => (m.cancelTimer waiter, .done (m.lateEnding task))
  | o => (m.cancelTimer waiter, .done o)

def abandonedResumed (waiter : FutureId) (o : Ending) (m : Loop) : Loop × Move :=
  match o with
  | .value _ => (m.cancelTimer waiter, .done .cancelled)
  | o => (m.cancelTimer waiter, .done o)

/-! ## Cancelling -/

def cancelAndWait (task : TaskId) (m : Loop) : Loop × Move :=
  let (m, waiter) := m.newFuture
  let m := m.addCallback (m.futureOf task) (.release waiter)
  ((m.cancelTask task).1, .await waiter (.cancelWaiting task waiter))

def cancelResumed (task : TaskId) (waiter : FutureId) (o : Ending) (m : Loop) : Loop × Move :=
  let m := m.removeCallback (m.futureOf task) (.release waiter)
  (m, .done o)

end Loop

end DiagnosticsClient
