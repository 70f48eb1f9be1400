import DiagnosticsClient.Session.Effects
/-
Listeners come and go.

The first listener starts a transport and the last one stops it, each while
it holds the lock. A listener that is registered gets every message; once it
is closed or detached it hands out what is left in its queue and then ends.

Each routine has a definition that begins it and one for every frame it can
wait in, which goes on with the outcome it waited for.
-/
namespace DiagnosticsClient

namespace Loop

open Async

/-- Ends with nothing to give. -/
def nothing : Move := .done (.value .nothing)

/-! ## The lock -/

def acquire (m : Loop) : Loop × Move :=
  if m.lockIsFree then (m.takeLock, nothing)
  else
    let (m, waiter) := m.future
    (m.modifyLock fun lock => { lock with waiters := lock.waiters ++ [waiter] }, .await waiter (.locking waiter))

/-- A cancelled waiter leaves the lock to the next one. -/
def acquireResumed (waiter : FutureId) (o : Ending) (m : Loop) : Loop × Move :=
  let m := m.modifyLock fun lock => { lock with waiters := lock.waiters.erase waiter }
  match o with
  | .value _ => (m.takeLock, nothing)
  | o => (if m.state.lock.held then m else m.wakeLock, .done o)

/-- The lock was held while a transport was stopped. -/
def stopResumed (o : Ending) (m : Loop) : Loop × Move :=
  (m.releaseLock, match o with | .value _ => nothing | o => .done o)

/-! ## Opening -/

def openListener (l : ListenerId) (m : Loop) : Loop × Move :=
  if (m.state.listener l).opened then (m, .done (.failed (.misuse .alreadyOpened)))
  else (m.modifyListener l fun listener => { listener with opened := true }, .call (.register l) (.opening l))

/-- A listener that could not be registered has ended. -/
def openResumed (l : ListenerId) (o : Ending) (m : Loop) : Loop × Move :=
  match o with
  | .value _ => (m, .done (.value (.listener l)))
  | o => (m.modifyListener l fun listener => { listener with ended := true }, .done o)

/-- A new transport, which behaves as planned. -/
def addTransport (m : Loop) : Loop × TransportId :=
  let t := m.state.transports.length
  let add (transport : Transport) (m : Loop) : Loop :=
    m.modify fun s => { s with transports := s.transports ++ [transport] }
  match m.state.medium with
  | .children => (add (.child {}) m, t)
  | .rehearsals =>
    let (rehearsal, rest) := match m.state.rehearsals with
      | [] => (({} : Rehearsal), [])
      | next :: rest => (next, rest)
    (add (.rehearsed { rehearsal }) (m.modify fun s => { s with rehearsals := rest }), t)

/-- With the lock held, a listener is registered and a transport started for it if there is none. -/
def registerLocked (l : ListenerId) (o : Ending) (m : Loop) : Loop × Move :=
  match o with
  | .value _ =>
    let m := m.modify fun s => { s with registered := s.registered ++ [l] }
    match m.state.current with
    | some _ => (m.releaseLock, nothing)
    | none =>
      let (m, t) := m.addTransport
      (m, .call (.start t) (.starting l t))
  | o => (m, .done o)

/-- A transport that was started becomes the current one; for one that was not, the listener is let go. -/
def startResumed (l : ListenerId) (t : TransportId) (o : Ending) (m : Loop) : Loop × Move :=
  match o with
  | .value _ => ((m.modify fun s => { s with current := some t }).releaseLock, nothing)
  | o => ((m.modify fun s => { s with registered := s.registered.erase l }).releaseLock, .done o)

/-! ## Closing -/

def closeListener (l : ListenerId) (m : Loop) : Loop × Move :=
  (m.modifyListener l fun listener => { listener with ended := true }, .call .acquireLock (.leaving l))

/-- With the lock held, a listener leaves; the last one stops the transport. -/
def leaveLocked (l : ListenerId) (o : Ending) (m : Loop) : Loop × Move :=
  match o with
  | .value _ =>
    if m.state.registered.contains l then
      let m := m.modify fun s => { s with registered := s.registered.erase l }
      match m.state.registered, m.state.current with
      | [], some t =>
        let m := m.modify fun s => { s with current := none }
        (m.note .debug (lit "Last listener left, stopping tsserver"), .call (.stop t) .releasing)
      | _, _ => (m.releaseLock, nothing)
    else (m.releaseLock, nothing)
  | o => (m, .done o)

/-- With the lock held, all listeners are detached and the transport is stopped. -/
def closeLocked (o : Ending) (m : Loop) : Loop × Move :=
  match o with
  | .value _ =>
    let current := m.state.current
    let m := m.detachAll none
    match current with
    | some t => (m, .call (.stop t) .releasing)
    | none => (m.releaseLock, nothing)
  | o => (m, .done o)

/-! ## Taking messages -/

def next (l : ListenerId) (m : Loop) : Loop × Move :=
  let listener := m.state.listener l
  if !listener.opened then (m, .done (.failed (.misuse .notOpen)))
  else if listener.ended && listener.queue.isEmpty then (m, .done (.failed .endOfStream))
  else (m, .call (.take l) (.receiving l))

/-- The end of a listener's stream is an error if it came with one. -/
def nextResumed (l : ListenerId) (o : Ending) (m : Loop) : Loop × Move :=
  match o with
  | .value (.delivery (.message message)) => (m, .done (.value (.message message)))
  | .value (.delivery (.ended error)) =>
    let m := m.modifyListener l fun listener => { listener with ended := true }
    (m, .done (.failed (match error with
      | some e => .server e
      | none => .endOfStream)))
  | o => (m, .done o)

/-- Takes the first item of a queue, or waits for one. -/
def take (l : ListenerId) (m : Loop) : Loop × Move :=
  match (m.state.listener l).queue with
  | item :: rest => (m.modifyListener l fun listener => { listener with queue := rest }, .done (.value (.delivery item)))
  | [] =>
    let (m, getter) := m.future
    (m.modifyListener l fun listener => { listener with getters := listener.getters ++ [getter] },
      .await getter (.getting l getter))

/-- One who waited looks again; if he was cancelled after he was woken, the next one is woken in his place. -/
def takeResumed (l : ListenerId) (getter : FutureId) (o : Ending) (m : Loop) : Loop × Move :=
  match o with
  | .value _ => (m, .become (.take l))
  | o =>
    let m : Loop := m.settle getter .cancelled
    let m := m.modifyListener l fun listener => { listener with getters := listener.getters.erase getter }
    let m := if !(m.state.listener l).queue.isEmpty && !m.isCancelled getter then m.wakeGetter l else m
    (m, .done o)

/-- Takes messages until the stream ends. -/
def collectResumed (l : ListenerId) (taken : List Message) (o : Ending) (m : Loop) : Loop × Move :=
  match o with
  | .value (.message message) => (m, .call (.next l) (.collecting l (taken ++ [message])))
  | .failed .endOfStream => (m, .done (.value (.messages taken)))
  | o => (m, .done o)

/-! ## Visits -/

def visit (count : Nat) (m : Loop) : Loop × Move :=
  let (m, l) := m.listen
  (m, .call (.openListener l) (.visiting l count))

/-- Takes the next message of a visit, or leaves after the last. -/
def visitOn (l : ListenerId) (count : Nat) (taken : List Message) (m : Loop) : Loop × Move :=
  match count with
  | 0 => (m, .call (.closeListener l) (.finishing (.value (.messages taken))))
  | count + 1 => (m, .call (.next l) (.visited l count taken))

def visitOpened (l : ListenerId) (count : Nat) (o : Ending) (m : Loop) : Loop × Move :=
  match o with
  | .value _ => m.visitOn l count []
  | o => (m, .done o)

def visitResumed (l : ListenerId) (count : Nat) (taken : List Message) (o : Ending) (m : Loop) : Loop × Move :=
  match o with
  | .value (.message message) => m.visitOn l count (taken ++ [message])
  | o => (m, .call (.closeListener l) (.finishing o))

/-- What is cleaned up before a routine ends has been. -/
def cleanedUp (ending o : Ending) (m : Loop) : Loop × Move :=
  match o with
  | .value _ => (m, .done ending)
  | o => (m, .done o)

end Loop

end DiagnosticsClient
