import DiagnosticsClient.Session.Checking
import DiagnosticsClient.Session.Driving
/-
The program of a session: how each routine begins, and how each frame goes on.
-/
namespace DiagnosticsClient

open Async

namespace Loop

def begin (routine : Routine) (m : Loop) : Loop × Move :=
  match routine with
  | .acquireLock => m.acquire
  | .openListener l => openListener l m
  | .register l => (m, .call .acquireLock (.registering l))
  | .closeListener l => closeListener l m
  | .closeSession => (m, .call .acquireLock .closing)
  | .next l => next l m
  | .take l => take l m
  | .collect l => (m, .call (.next l) (.collecting l []))
  | .visit count => visit count m
  | .request file limit => request file limit m
  | .exchange opening asking => exchange opening asking m
  | .within limit inner => within limit inner m
  | .cancelAndWait task => cancelAndWait task m
  | .start t => start t m
  | .stop t => stop t m
  | .endTasks t tasks => endTasks t tasks m
  | .awaitExit c => awaitExit c m
  | .readOutput t c => readOutput t c m
  | .drainErrors c => drainErrors c m
  | .checkFile file context limit => checkFile file context limit m
  | .checkFiles files context limit => checkFiles files context limit m

def resume (frame : Frame) (o : Ending) (m : Loop) : Loop × Move :=
  match frame with
  | .locking waiter => acquireResumed waiter o m
  | .opening l => openResumed l o m
  | .registering l => registerLocked l o m
  | .starting l t => startResumed l t o m
  | .leaving l => leaveLocked l o m
  | .closing => closeLocked o m
  | .releasing => stopResumed o m
  | .receiving l => nextResumed l o m
  | .getting l getter => takeResumed l getter o m
  | .collecting l taken => collectResumed l taken o m
  | .visiting l count => visitOpened l count o m
  | .visited l count taken => visitResumed l count taken o m
  | .finishing ending => cleanedUp ending o m
  | .requesting file seq limit => requestResumed file seq limit o m
  | .introducing l opening asking => exchangeOpened l opening asking o m
  | .expecting l asking => exchangeResumed l asking o m
  | .timing task waiter => timeResumed task waiter o m
  | .overdue task => overdueResumed task o m
  | .lapsed task waiter => lapsedResumed task waiter o m
  | .abandoned waiter => abandonedResumed waiter o m
  | .cancelWaiting task waiter => cancelResumed task waiter o m
  | .gated t call fails waiter => gateResumed t call fails waiter o m
  | .ending t tasks => endResumed t tasks o m
  | .terminating c => terminateResumed c o m
  | .killing c => killResumed c o m
  | .exiting _ => (m, .done o)
  | .reading t c decoder => readResumed t c decoder o m
  | .outputEnded t c pending => outputResumed t c pending o m
  | .draining c => drainResumed c o m
  | .answered file context => answerResumed file context o m
  | .readSource file context diagnostics => sourceResumed file context diagnostics o m
  | .gathered members => gatherResumed members o m

/-- The program of a session. -/
def program : Program State Routine Frame Value Failure :=
  { begin := fun _ routine m => begin routine m, resume := fun _ frame o m => resume frame o m }

/-- Steps until nothing can go on by itself. -/
def settleDown (fuel : Nat) (m : Loop) : Loop := m.run program fuel

end Loop

end DiagnosticsClient
