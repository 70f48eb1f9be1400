import DiagnosticsClient.Session.Program
/-
What reaches a session from outside.

Callers ask for routines and cancel them, time passes, transports report, and
children write and end. Between two stimuli the loop runs until nothing can go
on by itself; a run of a session is a list of stimuli.
-/
namespace DiagnosticsClient

open Async

/-- Something that happens to a session. -/
inductive Stimulus where
  /-- A caller asks for a routine, to be run as a task of its own. -/
  | ask (routine : Routine)
  | cancel (task : TaskId)
  | advance (time : Seconds)
  | listen
  | issueSeq
  | send (request : Request)
  /-- A caller writes to a transport directly. -/
  | write (t : TransportId) (request : Request)
  | writeValue (t : TransportId) (v : Json)
  | receive (t : TransportId) (v : Json)
  | report (t : TransportId) (error : Option ServerError)
  | openGate (t : TransportId) (call : Call)
  | output (c : ChildId) (octets : Bytes)
  | errors (c : ChildId) (octets : Bytes)
  | exit (c : ChildId) (code : Int)
  | closeInput (c : ChildId)
  | breakOutput (c : ChildId) (message : Text)

/-- What the one who gave a stimulus gets back. -/
inductive Reaction where
  | nothing
  /-- There is no such transport or child. -/
  | absent
  | task (t : TaskId)
  | wasRunning (b : Bool)
  | listener (l : ListenerId)
  | seq (n : Nat)
  | failed (failure : Failure)

namespace Loop

/-- The child that a stimulus is about, if it is there. -/
def withChild (m : Loop) (c : ChildId) (f : Loop → Loop × Reaction) : Loop × Reaction :=
  if c < m.state.children.length then f m else (m, .absent)

/-- The transport that a stimulus is about, if it is there. -/
def withTransport (m : Loop) (t : TransportId) (f : Loop → Loop × Reaction) : Loop × Reaction :=
  if t < m.state.transports.length then f m else (m, .absent)

/-- A reaction to something that may fail. -/
def reacted (m : Loop) : Option Failure → Loop × Reaction
  | none => (m, .nothing)
  | some failure => (m, .failed failure)

/-- A child writes to a pipe. -/
def written (m : Loop) (c : ChildId) (pipe : Pipe) (octets : Bytes) : Loop × Reaction :=
  match m.feedStream c pipe octets with
  | .ok m => (m, .nothing)
  | .error failure => (m, .failed failure)

/-- A stimulus takes effect; nothing has gone on yet. -/
def apply (m : Loop) : Stimulus → Loop × Reaction
  | .ask routine =>
    let (m, task) := m.spawn routine
    (m, .task task)
  | .cancel task =>
    let (m, running) := m.cancelTask task
    (m, .wasRunning running)
  | .advance time => (m.advance time.toBinary, .nothing)
  | .listen =>
    let (m, l) := m.listen
    (m, .listener l)
  | .issueSeq =>
    let (m, n) := m.issueSeq
    (m, .seq n)
  | .send r =>
    let (m, failure) := m.send r
    m.reacted failure
  | .write t r => m.withTransport t fun m =>
    let (m, failure) := m.write t r
    m.reacted failure
  | .writeValue t v => m.withTransport t fun m =>
    match m.writeLine t (encodeValue m.state.settings.encoding v) with
    | (m, .ok _) => (m, .nothing)
    | (m, .error failure) => (m, .failed failure)
  | .receive t v => m.withTransport t fun m =>
    let (m, failure) := m.receive t v
    m.reacted failure
  | .report t error => m.withTransport t fun m => (m.report t error, .nothing)
  | .openGate t call => m.withTransport t fun m => (m.openGate t call, .nothing)
  | .output c octets => m.withChild c fun m => m.written c .output octets
  | .errors c octets => m.withChild c fun m => m.written c .errors octets
  | .exit c code => m.withChild c fun m => (m.exitChild c code, .nothing)
  | .closeInput c => m.withChild c fun m =>
    (m.modify (·.modifyChild c fun child => { child with inputClosed := true }), .nothing)
  | .breakOutput c message => m.withChild c fun m => (m.breakStream c .output ⟨5, message, none⟩, .nothing)

/-- A stimulus takes effect, and the loop goes on until nothing can. -/
def stimulate (fuel : Nat) (m : Loop) (s : Stimulus) : Loop × Reaction :=
  let (m, reaction) := m.apply s
  (settleDown fuel m, reaction)

end Loop

end DiagnosticsClient
