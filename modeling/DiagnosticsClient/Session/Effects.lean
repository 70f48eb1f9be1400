import DiagnosticsClient.Session.Routine
import DiagnosticsClient.Json.Printer
/-
What the tasks of a session do to the loop, at once and without waiting.

The lock, the queues of listeners, the streams and the end of children, and
the replies of a scripted one.
-/
namespace DiagnosticsClient

namespace Loop

open Async

/-- The loop with what its tasks share changed. -/
def modify (m : Loop) (f : State → State) : Loop := { m with state := f m.state }

/-! ## Notes -/

def record (m : Loop) (e : Entry) : Loop := m.modify (·.record e)

def note (m : Loop) (level : Level) (text : Text) : Loop := m.modify (·.note level text)

/-! ## Futures -/

/-- A new future. -/
def future (m : Loop) : Loop × FutureId := m.newFuture

/-- Settles the first of some futures that is not settled, and gives those after it. -/
def wakeNext (m : Loop) : List FutureId → Loop × List FutureId
  | [] => (m, [])
  | f :: rest => if m.isSettled f then wakeNext m rest else (m.settle f (.value .nothing), rest)

/-! ## The lock -/

/-- Whether the lock can be taken at once. -/
def lockIsFree (m : Loop) : Bool := !m.state.lock.held && m.state.lock.waiters.all m.isCancelled

def modifyLock (m : Loop) (f : Lock → Lock) : Loop := m.modify fun s => { s with lock := f s.lock }

def takeLock (m : Loop) : Loop := m.modifyLock fun lock => { lock with held := true }

/-- Wakes the first of those who wait for the lock. -/
def wakeLock (m : Loop) : Loop :=
  match m.state.lock.waiters with
  | [] => m
  | f :: _ => m.settle f (.value .nothing)

/-- Gives the lock up. -/
def releaseLock (m : Loop) : Loop := (m.modifyLock fun lock => { lock with held := false }).wakeLock

/-! ## Listeners -/

/-- A new listener, not opened yet. -/
def listen (m : Loop) : Loop × ListenerId :=
  (m.modify fun s => { s with listeners := s.listeners ++ [{}] }, m.state.listeners.length)

def modifyListener (m : Loop) (l : ListenerId) (f : Listener → Listener) : Loop :=
  m.modify (·.modifyListener l f)

/-- Wakes the next of those who wait for a listener's queue. -/
def wakeGetter (m : Loop) (l : ListenerId) : Loop :=
  let (m, getters) := m.wakeNext (m.state.listener l).getters
  m.modifyListener l fun listener => { listener with getters }

/-- Puts something into a listener's queue. -/
def deliver (m : Loop) (l : ListenerId) (d : Delivery) : Loop :=
  ((m.record (.delivered l d)).modifyListener l fun listener => { listener with queue := listener.queue ++ [d] }).wakeGetter l

/-- Puts something into the queue of each of some listeners. -/
def deliverAll (m : Loop) (ls : List ListenerId) (d : Delivery) : Loop := ls.foldl (fun m l => m.deliver l d) m

/-- Ends every registered listener, and leaves the session without listeners and without a transport. -/
def detachAll (m : Loop) (error : Option ServerError) : Loop :=
  let registered := m.state.registered
  (m.modify fun s => { s with registered := [], current := none }).deliverAll registered (.ended error)

/-! ## What a transport reports -/

/-- Gives a value that arrived to every registered listener, if it is an envelope. -/
def dispatch (m : Loop) (v : Json) : Loop :=
  match Message.parse v with
  | .ok message => m.deliverAll m.state.registered (.message message)
  | .error e =>
    m.note (if m.state.settings.verbose then .warning else .debug)
      (lit "Ignoring unknown message from tsserver: " ++ e.message)

/-- The text with which a value asks a watcher to refuse it. -/
def refusalIn : Json → Option Text
  | .obj fields =>
    match Json.Fields.get? fields (lit "raise") with
    | some v => if v.isBlank then none else some v.plain
    | none => none
  | _ => none

/-- A transport passes a value on. One that a watcher refuses counts as not received. -/
def receive (m : Loop) (t : TransportId) (v : Json) : Loop × Option Failure :=
  match m.state.receiver with
  | .session => ((m.record (.received t v)).dispatch v, none)
  | .watcher =>
    match refusalIn v with
    | some text => (m, some (.misuse (.refusedBy text)))
    | none => (m.record (.received t v), none)

/-- A transport passes values on, up to the first that is refused. -/
def receiveAll (m : Loop) (t : TransportId) : List Json → Loop × Option Failure
  | [] => (m, none)
  | v :: vs =>
    match m.receive t v with
    | (m, none) => receiveAll m t vs
    | (m, some failure) => (m, some failure)

/-- A transport reports its end. That of a transport which is not current is of no interest. -/
def report (m : Loop) (t : TransportId) (error : Option ServerError) : Loop :=
  let m := m.record (.reported t error)
  match m.state.receiver with
  | .watcher => m
  | .session =>
    if m.state.current = some t then
      let m := match error with
        | some e => m.note .error (lit "tsserver failed: " ++ e.message)
        | none => m
      let m := m.detachAll error
      -- the child that ended is cleared away in the background
      (m.spawn (.stop t)).1
    else m

/-! ## Children -/

/-- A pipe from a child. -/
inductive Pipe where
  | output
  | errors
deriving DecidableEq

def streamOf (m : Loop) (c : ChildId) : Pipe → Stream
  | .output => (m.state.child c).output
  | .errors => (m.state.child c).errors

def modifyStream (m : Loop) (c : ChildId) (pipe : Pipe) (f : Stream → Stream) : Loop :=
  m.modify (·.modifyChild c fun child =>
    match pipe with
    | .output => { child with output := f child.output }
    | .errors => { child with errors := f child.errors })

/-- Wakes the reader of a stream. -/
def wakeReader (m : Loop) (c : ChildId) (pipe : Pipe) (outcome : Ending) : Loop :=
  match (m.streamOf c pipe).waiter with
  | none => m
  | some f => (m.modifyStream c pipe fun s => { s with waiter := none }).settle f outcome

/-- A child writes; it cannot once it has ended. -/
def feedStream (m : Loop) (c : ChildId) (pipe : Pipe) (octets : Bytes) : Except Failure Loop :=
  if (m.streamOf c pipe).ended then .error .streamEnded
  else if octets = [] then .ok m
  else .ok ((m.modifyStream c pipe fun s => { s with buffer := s.buffer ++ octets }).wakeReader c pipe (.value .nothing))

/-- A stream ends. -/
def endStream (m : Loop) (c : ChildId) (pipe : Pipe) : Loop :=
  (m.modifyStream c pipe fun s => { s with ended := true }).wakeReader c pipe (.value .nothing)

/-- A stream breaks. -/
def breakStream (m : Loop) (c : ChildId) (pipe : Pipe) (e : SystemError) : Loop :=
  (m.modifyStream c pipe fun s => { s with broken := some e }).wakeReader c pipe (.failed (.system e))

/-- A child ends, unless it has ended before. -/
def exitChild (m : Loop) (c : ChildId) (code : Int) : Loop :=
  let child := m.state.child c
  if child.isAlive then
    let m := m.modify (·.modifyChild c fun child => { child with returnCode := some code, exitWaiters := [] })
    let m := (m.endStream c .output).endStream c .errors
    child.exitWaiters.foldl (fun m f => m.settle f (.value (.returnCode code))) m
  else m

/-- Sends a signal to a child, and what the child does then. -/
def signal (m : Loop) (c : ChildId) (s : Signal) : Loop :=
  let m := m.record (.signalled c s)
  match s, (m.state.child c).manner with
  | .terminate, .ignores => m
  | _, _ => m.exitChild c s.returnCode

/-- A new child, whose greetings are in its pipes. -/
def addChild (m : Loop) (manner : Manner) : Loop × ChildId :=
  let script := m.state.script
  let child : Child := match script with
    | none => { manner }
    | some script =>
      { manner, script
        output := { buffer := script.greeting }
        errors := { buffer := script.complaint } }
  (m.modify fun s => { s with children := s.children ++ [child] }, m.state.children.length)

/-- Launches a child, as the next of the planned launches goes. -/
def launch (m : Loop) : Loop × Except SystemError ChildId :=
  let settings := m.state.settings
  let (next, launches) := match m.state.launches with
    | [] => (Launch.child .obeys, [])
    | next :: rest => (next, rest)
  let m := (m.modify fun s => { s with launches }).record
    (.launched ⟨settings.command, settings.workingDirectory, settings.«variables»⟩)
  match next with
  | .refused e => (m, .error e)
  | .child manner =>
    let (m, c) := m.addChild manner
    (m, .ok c)

/-! ## Scripted replies -/

/-- A code point of a JSON text as it stands in one that is ASCII alone; the last sign of ASCII is escaped too. -/
def asciiPoint (c : CodePoint) : Text :=
  if c.val < 0x7F then [c]
  else if c.val < 0x10000 then lit "\\u" ++ Text.hex 4 c.val
  else
    lit "\\u" ++ Text.hex 4 (0xD800 + (c.val - 0x10000) / 0x400) ++
      lit "\\u" ++ Text.hex 4 (0xDC00 + (c.val - 0x10000) % 0x400)

/-- A frame with a value, written in ASCII. -/
def replyFrame (v : Json) : Bytes :=
  let text := v.render Json.plainNumbers ⟨none, lit ", ", lit ": "⟩
  let body := (text.flatMap asciiPoint).map (fun c => UInt8.ofNat c.val) ++ [10]
  let length := (Text.ofNat body.length).map fun c => UInt8.ofNat c.val
  Header.name ++ length ++ [13, 10, 13, 10] ++ body

/-- The response that gives a body for a request. -/
def response (request : Request) (body : Json) : Json :=
  .obj [(lit "seq", .int 0), (lit "type", .str Response.typeName), (lit "command", .str request.command),
    (lit "request_seq", .int request.seq), (lit "success", .bool true), (lit "body", body)]

/-- The octets reach the client, or nobody. -/
def put (m : Loop) (c : ChildId) (octets : Bytes) : Loop :=
  match m.feedStream c .output octets with
  | .ok m => m
  | .error _ => m

/-- A scripted child has been asked for the diagnostics of a file. -/
def reply (m : Loop) (c : ChildId) (script : Script) (request : Request) : Loop :=
  let planned := script.replies.find? fun entry => request.names entry.1
  match (planned.map (·.2)).getD (.body (.arr [])) with
  | .body v =>
    let held := replyFrame (response request v) :: script.held
    if held.length < script.batch then m.modify (·.modifyChild c fun child => { child with script := some { script with held } })
    else
      (m.modify (·.modifyChild c fun child => { child with script := some { script with held := [] } })).put c held.flatten
  | .raw octets => m.put c octets
  | .exit code => m.exitChild c code
  | .silent => m

/-- What a child does about a request it has been written. -/
def react (m : Loop) (c : ChildId) (request : Request) : Loop :=
  match (m.state.child c).script with
  | some script => if request.command = Command.name .semanticDiagnosticsSync then m.reply c script request else m
  | none => m

/-! ## Writing -/

/-- Writes a line to the child of a transport; without a child that listens the line is dropped. -/
def writeLine (m : Loop) (t : TransportId) (line : Except EncodeError Bytes) : Loop × Except Failure (Option ChildId) :=
  let transport := m.state.childTransport t
  match transport.phase, transport.child with
  | .running, some c =>
    if (m.state.child c).inputClosed then
      (m.note .debug (lit "tsserver stdin closed, dropping outbound message"), .ok none)
    else
      match line with
      | .error e => (m, .error (.encode e))
      | .ok octets => (m.record (.wrote c octets), .ok (some c))
  | _, _ => (m.note .debug (lit "tsserver not running, dropping outbound message"), .ok none)

/-- Gives a request to a transport. -/
def write (m : Loop) (t : TransportId) (request : Request) : Loop × Option Failure :=
  match m.state.transports[t]? with
  | some (.rehearsed _) => (m.record (.sent t request), none)
  | _ =>
    match m.writeLine t (encodeMessage m.state.settings.encoding (.request request)) with
    | (m, .error failure) => (m, some failure)
    | (m, .ok (some c)) => (m.react c request, none)
    | (m, .ok none) => (m, none)

/-- Sends a request to whatever transport is current. -/
def send (m : Loop) (request : Request) : Loop × Option Failure :=
  let name := request.command ++ lit " (seq=" ++ Text.ofInt request.seq ++ lit ")"
  match m.state.current with
  | none => (m.note .debug (lit "No listeners, dropping " ++ name), none)
  | some t => (m.note .debug (lit "Sending " ++ name)).write t request

end Loop

end DiagnosticsClient
