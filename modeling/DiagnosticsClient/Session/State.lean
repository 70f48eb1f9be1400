import DiagnosticsClient.Child.Basic
import DiagnosticsClient.Frame.Decoder
import DiagnosticsClient.Log
import DiagnosticsClient.Settings
import DiagnosticsClient.Report.Record
/-
What the tasks of a session share.

A session has listeners and at most one current transport. A lock keeps two
tasks from starting or stopping a transport at the same time. A transport
either drives a child process or is a rehearsed one, which does what its
rehearsal says. The transcript is everything that was done and can be seen
from outside, oldest first; every view of the past is a filter of it.
-/
namespace DiagnosticsClient

open Async

abbrev ListenerId := Nat

abbrev TransportId := Nat

abbrev ChildId := Nat

/-! ## Listeners -/

/-- What a listener is given. -/
inductive Delivery where
  | message (m : Message)
  /-- Nothing more comes, perhaps because of an error. -/
  | ended (error : Option ServerError)

/-- A listener: what it has not taken yet, and who waits for more. -/
structure Listener where
  queue : List Delivery := []
  getters : List FutureId := []
  opened : Bool := false
  ended : Bool := false

/-! ## Transports -/

/-- How a call to a rehearsed transport goes. -/
inductive Conduct where
  | succeeds
  | fails
  | timesOut
  /-- It waits for its gate to be opened. -/
  | waits
  | waitsAndFails
deriving DecidableEq

/-- What a rehearsed transport does. -/
structure Rehearsal where
  start : Conduct := .succeeds
  stop : Conduct := .succeeds
  /-- A message it passes on as soon as it is started. -/
  greeting : Option Json := none
  /-- Whether it reports its end as soon as it is started. -/
  endsAtStart : Bool := false

/-- A gate, once open, stays open. -/
structure Gate where
  isOpen : Bool := false
  waiters : List FutureId := []

/-- The two calls of a transport. -/
inductive Call where
  | start
  | stop
deriving DecidableEq

def Call.name : Call → Text
  | .start => lit "start"
  | .stop => lit "stop"

/-- The life of a transport: it is started at most once. -/
inductive Phase where
  | idle
  | running
  | stopped
deriving DecidableEq

def Phase.name : Phase → Text
  | .idle => lit "idle"
  | .running => lit "running"
  | .stopped => lit "stopped"

/-- A transport that drives a child process. -/
structure ChildTransport where
  phase : Phase := .idle
  child : Option ChildId := none
  /-- The task that reads the child's output. -/
  reader : Option TaskId := none
  /-- The task that reads the child's error output. -/
  drain : Option TaskId := none

/-- A transport that follows a rehearsal. -/
structure RehearsedTransport where
  rehearsal : Rehearsal := {}
  startGate : Gate := {}
  stopGate : Gate := {}

inductive Transport where
  | child (t : ChildTransport)
  | rehearsed (t : RehearsedTransport)

/-! ## The transcript -/

/-- What was done. -/
inductive Entry where
  | note (n : Note)
  /-- A child was launched, or refused. -/
  | launched (l : Launched)
  /-- A child was written to. -/
  | wrote (child : ChildId) (octets : Bytes)
  | signalled (child : ChildId) (signal : Signal)
  /-- A rehearsed transport was called. -/
  | called (transport : TransportId) (call : Call)
  /-- A call of a rehearsed transport succeeded. -/
  | succeeded (transport : TransportId) (call : Call)
  /-- A rehearsed transport was given a message. -/
  | sent (transport : TransportId) (request : Request)
  /-- A transport passed a message on. -/
  | received (transport : TransportId) (v : Json)
  /-- A transport reported its end. -/
  | reported (transport : TransportId) (error : Option ServerError)
  /-- A listener was given something. -/
  | delivered (listener : ListenerId) (d : Delivery)

/-! ## The state -/

/-- Who is told what a transport receives. -/
inductive Receiver where
  /-- The session and its listeners. -/
  | session
  /-- Somebody who only watches, and refuses a message that asks for it. -/
  | watcher
deriving DecidableEq

/-- What the transports of a session are. -/
inductive Medium where
  | children
  | rehearsals
deriving DecidableEq

/-- A lock and those who wait for it, in turn. -/
structure Lock where
  held : Bool := false
  waiters : List FutureId := []

/-- What is shared. -/
structure State where
  settings : Settings := { command := [lit "node", lit "tsserver.js"] }
  receiver : Receiver := .session
  medium : Medium := .children
  /-- How the transports to come will behave, in turn. -/
  rehearsals : List Rehearsal := []
  /-- How the launches to come will go, in turn. -/
  launches : List Launch := []
  /-- By what script the children answer. -/
  script : Option Script := none
  /-- The directory that relative file names start from. -/
  workingDirectory : Text := lit "/"
  /-- The text of a source file. -/
  source : Text → Except Failure Text := fun path => .error (.system (.noSuchFile path))
  lock : Lock := {}
  listeners : List Listener := []
  /-- The listeners that are registered, in order. -/
  registered : List ListenerId := []
  current : Option TransportId := none
  nextSeq : Nat := 0
  transports : List Transport := []
  children : List Child := []
  transcript : Array Entry := #[]

namespace State

def listener (s : State) (l : ListenerId) : Listener := (s.listeners[l]?).getD {}

def modifyListener (s : State) (l : ListenerId) (f : Listener → Listener) : State :=
  { s with listeners := s.listeners.modify l f }

/-- A transport that drives a child. -/
def childTransport (s : State) (t : TransportId) : ChildTransport :=
  match s.transports[t]? with
  | some (.child c) => c
  | _ => {}

def modifyChildTransport (s : State) (t : TransportId) (f : ChildTransport → ChildTransport) : State :=
  { s with transports := s.transports.modify t fun
      | .child c => .child (f c)
      | other => other }

/-- A transport that follows a rehearsal. -/
def rehearsedTransport (s : State) (t : TransportId) : RehearsedTransport :=
  match s.transports[t]? with
  | some (.rehearsed r) => r
  | _ => {}

def modifyRehearsedTransport (s : State) (t : TransportId) (f : RehearsedTransport → RehearsedTransport) : State :=
  { s with transports := s.transports.modify t fun
      | .rehearsed r => .rehearsed (f r)
      | other => other }

def child (s : State) (c : ChildId) : Child := (s.children[c]?).getD {}

def modifyChild (s : State) (c : ChildId) (f : Child → Child) : State := { s with children := s.children.modify c f }

/-- Adds to the transcript. -/
def record (s : State) (e : Entry) : State := { s with transcript := s.transcript.push e }

def note (s : State) (level : Level) (text : Text) : State := s.record (.note ⟨level, text⟩)

end State

end DiagnosticsClient
