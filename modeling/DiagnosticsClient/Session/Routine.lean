import DiagnosticsClient.Session.State
/-
The routines of a session, and the points at which they wait.

A `Routine` is something a task can be asked to do. A `Frame` is where a
routine has got to while it waits for another routine or for a future, with
what it needs to go on. Together with `State` they make the loop of a session.
-/
namespace DiagnosticsClient

open Async

/-- What a routine gives. -/
inductive Value where
  | nothing
  | listener (l : ListenerId)
  | delivery (d : Delivery)
  | message (m : Message)
  | messages (ms : List Message)
  | returnCode (code : Int)
  | code (fragments : List (List Text))
  | record (r : Record)
  | records (rs : List Record)

instance : Inhabited Value := ⟨.nothing⟩

/-- The fragments of code in a value. -/
def Value.fragments : Value → List (List Text)
  | .code fragments => fragments
  | _ => []

/-- How a routine of a session ends. -/
abbrev Ending := Outcome Value Failure

/-- What a task can be asked to do. -/
inductive Routine where
  | acquireLock
  /-- Opens a listener: it is registered, and a transport started for it if there is none. -/
  | openListener (l : ListenerId)
  | register (l : ListenerId)
  /-- Closes a listener: the transport is stopped if it was the last one. -/
  | closeListener (l : ListenerId)
  /-- Ends every listener and stops the transport. -/
  | closeSession
  /-- The next message of a listener. -/
  | next (l : ListenerId)
  | take (l : ListenerId)
  /-- The messages of a listener to the end. -/
  | collect (l : ListenerId)
  /-- Opens a listener, takes some messages and closes it again. -/
  | visit (count : Nat)
  /-- The response to the request for the diagnostics of a file. -/
  | request (file : Json) (limit : Option Seconds)
  /-- Sends two requests and waits for the response to the second. -/
  | exchange (opening asking : Request)
  /-- Does something as a task of its own, for a limited time. -/
  | within (limit : Seconds) (inner : Routine)
  | cancelAndWait (task : TaskId)
  | start (t : TransportId)
  | stop (t : TransportId)
  | endTasks (t : TransportId) (tasks : List TaskId)
  /-- Waits for the end of a child. -/
  | awaitExit (c : ChildId)
  /-- Passes on what a child writes. -/
  | readOutput (t : TransportId) (c : ChildId)
  /-- Notes the lines of a child's error output. -/
  | drainErrors (c : ChildId)
  | checkFile (file : Text) (context : Context) (limit : Option Seconds)
  | checkFiles (files : List Text) (context : Context) (limit : Option Seconds)

/-- Where a routine waits. -/
inductive Frame where
  | locking (waiter : FutureId)
  | opening (l : ListenerId)
  | registering (l : ListenerId)
  | starting (l : ListenerId) (t : TransportId)
  | leaving (l : ListenerId)
  | closing
  /-- Holds the lock while a transport is stopped. -/
  | releasing
  | receiving (l : ListenerId)
  | getting (l : ListenerId) (getter : FutureId)
  | collecting (l : ListenerId) (taken : List Message)
  | visiting (l : ListenerId) (count : Nat)
  | visited (l : ListenerId) (count : Nat) (taken : List Message)
  /-- Cleans up; then the routine ends as it was to end, unless cleaning up went wrong. -/
  | finishing (ending : Ending)
  | requesting (file : Json) (seq : Int) (limit : Seconds)
  | introducing (l : ListenerId) (opening asking : Request)
  | expecting (l : ListenerId) (asking : Request)
  | timing (task : TaskId) (waiter : FutureId)
  | overdue (task : TaskId)
  | lapsed (task : TaskId) (waiter : FutureId)
  | abandoned (waiter : FutureId)
  | cancelWaiting (task : TaskId) (waiter : FutureId)
  /-- Waits at the gate of a rehearsed transport. -/
  | gated (t : TransportId) (call : Call) (fails : Bool) (waiter : FutureId)
  | ending (t : TransportId) (tasks : List TaskId)
  | terminating (c : ChildId)
  | killing (c : ChildId)
  | exiting (c : ChildId)
  | reading (t : TransportId) (c : ChildId) (decoder : Decoder)
  | outputEnded (t : TransportId) (c : ChildId) (pending : Nat)
  | draining (c : ChildId)
  | answered (file : Text) (context : Context)
  | readSource (file : Text) (context : Context) (diagnostics : List Diagnostic)
  | gathered (members : List TaskId)

/-- The loop of a session. -/
abbrev Loop := Machine State Routine Frame Value Failure

/-- What a routine of a session does next. -/
abbrev Move := Action Routine Frame Value Failure

end DiagnosticsClient
