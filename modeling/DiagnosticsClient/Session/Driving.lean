import DiagnosticsClient.Session.Effects
/-
Transports: starting, reading and stopping.

A transport drives one child and is never started again. While it runs, one
task passes on what the child writes and another notes its error output. When
the child ends by itself, or its output cannot be read, the transport reports
its end; after `stop` it reports nothing. Stopping ends the two tasks first,
then asks the child to end, and makes it end if it takes too long.
-/
namespace DiagnosticsClient

namespace Loop

open Async

/-! ## Rehearsed transports -/

def modifyGate (m : Loop) (t : TransportId) (call : Call) (f : Gate → Gate) : Loop :=
  m.modify (·.modifyRehearsedTransport t fun r =>
    match call with
    | .start => { r with startGate := f r.startGate }
    | .stop => { r with stopGate := f r.stopGate })

def gate (m : Loop) (t : TransportId) : Call → Gate
  | .start => (m.state.rehearsedTransport t).startGate
  | .stop => (m.state.rehearsedTransport t).stopGate

/-- A call of a rehearsed transport succeeds, or fails as it was to. -/
def concludeCall (m : Loop) (t : TransportId) (call : Call) (fails : Bool) : Loop × Move :=
  if fails then (m, .done (.failed (.server { message := call.name ++ lit " failed" })))
  else (m.record (.succeeded t call), .done (.value .nothing))

/-- Goes through the gate of a call, once it is open. -/
def passGate (m : Loop) (t : TransportId) (call : Call) (fails : Bool) : Loop × Move :=
  if (m.gate t call).isOpen then m.concludeCall t call fails
  else
    let (m, waiter) := m.future
    (m.modifyGate t call fun gate => { gate with waiters := gate.waiters ++ [waiter] },
      .await waiter (.gated t call fails waiter))

def gateResumed (t : TransportId) (call : Call) (fails : Bool) (waiter : FutureId) (o : Ending) (m : Loop) :
    Loop × Move :=
  let m := m.modifyGate t call fun gate => { gate with waiters := gate.waiters.erase waiter }
  match o with
  | .value _ => m.concludeCall t call fails
  | o => (m, .done o)

/-- Opens the gate of a call; those who wait at it go on. -/
def openGate (m : Loop) (t : TransportId) (call : Call) : Loop :=
  let waiters := (m.gate t call).waiters
  let m := m.modifyGate t call fun gate => { gate with isOpen := true }
  waiters.foldl (fun m f => m.settle f (.value .nothing)) m

/-- A call of a rehearsed transport. -/
def rehearse (m : Loop) (t : TransportId) (call : Call) : Conduct → Loop × Move
  | .succeeds => m.concludeCall t call false
  | .fails => m.concludeCall t call true
  | .timesOut => (m, .done (.failed (.timedOut (lit "transport timed out"))))
  | .waits => m.passGate t call false
  | .waitsAndFails => m.passGate t call true

def startRehearsed (t : TransportId) (rehearsal : Rehearsal) (m : Loop) : Loop × Move :=
  let m := m.record (.called t .start)
  let m := match rehearsal.greeting with
    | some v => (m.receive t v).1
    | none => m
  let m := if rehearsal.endsAtStart then m.report t none else m
  m.rehearse t .start rehearsal.start

def stopRehearsed (t : TransportId) (rehearsal : Rehearsal) (m : Loop) : Loop × Move :=
  (m.record (.called t .stop)).rehearse t .stop rehearsal.stop

/-! ## Starting -/

def modifyTransport (m : Loop) (t : TransportId) (f : ChildTransport → ChildTransport) : Loop :=
  m.modify (·.modifyChildTransport t f)

def setPhase (m : Loop) (t : TransportId) (phase : Phase) : Loop :=
  m.modifyTransport t fun transport => { transport with phase }

/-- Launches a child and the two tasks that read from it. -/
def startChild (t : TransportId) (m : Loop) : Loop × Move :=
  let failed (message : Text) : Move := .done (.failed (.server { message }))
  let transport := m.state.childTransport t
  let command := Text.join (lit " ") m.state.settings.command
  match transport.phase with
  | .idle =>
    if m.state.settings.command = [] then (m.setPhase t .stopped, failed (lit "No tsserver command configured"))
    else
      match m.launch with
      | (m, .error e) => (m.setPhase t .stopped, failed (lit "Failed to launch " ++ command ++ lit ": " ++ e.message))
      | (m, .ok c) =>
        let m := m.modifyTransport t fun transport => { transport with phase := .running, child := some c }
        let (m, reader) := m.spawn (.readOutput t c)
        let (m, drain) := m.spawn (.drainErrors c)
        let m := modifyTransport m t fun transport => { transport with reader := some reader, drain := some drain }
        (m.note .info (lit "Launched tsserver: " ++ command ++ lit " (pid=" ++ Text.ofNat (Child.pid c) ++ lit ")"),
          .done (.value .nothing))
  | phase => (m, failed (lit "Transport cannot be started from state " ++ phase.name))

def start (t : TransportId) (m : Loop) : Loop × Move :=
  match m.state.transports[t]? with
  | some (.rehearsed r) => startRehearsed t r.rehearsal m
  | _ => startChild t m

/-! ## Stopping -/

/-- Cancels the tasks that have not ended, one after the other, and then ends the child. -/
def endTasks (t : TransportId) : List TaskId → Loop → Loop × Move
  | [], m =>
    let m := m.modifyTransport t fun transport => { transport with reader := none, drain := none }
    match (m.state.childTransport t).child with
    | none => (m, .done (.value .nothing))
    | some c =>
      let m := m.modifyTransport t fun transport => { transport with child := none }
      let m := m.modify (·.modifyChild c fun child => { child with inputClosed := true })
      if (m.state.child c).isAlive then
        (m.signal c .terminate, .call (.within m.state.settings.shutdownLimit (.awaitExit c)) (.terminating c))
      else (m, .done (.value .nothing))
  | task :: rest, m =>
    if m.hasEnded task then endTasks t rest m
    else ((m.cancelTask task).1, .await (m.futureOf task) (.ending t rest))

def stopChild (t : TransportId) (m : Loop) : Loop × Move :=
  let transport := m.state.childTransport t
  let m := m.setPhase t .stopped
  if transport.phase = .idle then (m, .done (.value .nothing))
  else (m, .become (.endTasks t (transport.reader.toList ++ transport.drain.toList)))

def stop (t : TransportId) (m : Loop) : Loop × Move :=
  match m.state.transports[t]? with
  | some (.rehearsed r) => stopRehearsed t r.rehearsal m
  | _ => stopChild t m

/-- A task that was cancelled has ended; the next one follows. -/
def endResumed (t : TransportId) (rest : List TaskId) (o : Ending) (m : Loop) : Loop × Move :=
  match o with
  | .failed e => (m, .done (.failed e))
  | _ => (m, .become (.endTasks t rest))

/-- Notes the end of a child that was made to end. -/
def noteTerminated (m : Loop) (c : ChildId) : Loop :=
  m.note .info (lit "tsserver terminated (pid=" ++ Text.ofNat (Child.pid c) ++ lit ")")

/-- The child has ended, or did not end in time. -/
def terminateResumed (c : ChildId) (o : Ending) (m : Loop) : Loop × Move :=
  match o with
  | .value _ => (m.noteTerminated c, .done (.value .nothing))
  | .failed (.timedOut _) => (m.signal c .kill, .call (.awaitExit c) (.killing c))
  | o => (m, .done o)

def killResumed (c : ChildId) (o : Ending) (m : Loop) : Loop × Move :=
  match o with
  | .value _ => (m.noteTerminated c, .done (.value .nothing))
  | o => (m, .done o)

/-! ## Waiting for a child -/

def awaitExit (c : ChildId) (m : Loop) : Loop × Move :=
  match (m.state.child c).returnCode with
  | some code => (m, .done (.value (.returnCode code)))
  | none =>
    let (m, waiter) := m.future
    (m.modify (·.modifyChild c fun child => { child with exitWaiters := child.exitWaiters ++ [waiter] }),
      .await waiter (.exiting c))

/-! ## Reading -/

/-- The transport reports its end, unless it was stopped. -/
def conclude (m : Loop) (t : TransportId) (error : Option ServerError) : Loop :=
  match (m.state.childTransport t).phase with
  | .running => (m.setPhase t .stopped).report t error
  | _ => m

/-- The output of a child cannot be read on. -/
def breakOff (m : Loop) (t : TransportId) (failure : Failure) : Loop × Move :=
  let m := m.note .error (lit "Read loop error: " ++ failure.message)
  (m.conclude t (some { message := lit "Error reading from tsserver: " ++ failure.message }), .done (.value .nothing))

/-- Waits until there is something to read. -/
def awaitStream (m : Loop) (c : ChildId) (pipe : Pipe) (frame : Frame) : Loop × Move :=
  let (m, waiter) := m.future
  (m.modifyStream c pipe fun s => { s with waiter := some waiter }, .await waiter frame)

/-- Reads chunks and passes on the messages they complete, until there is nothing to read or the output ends. Each
chunk is an octet at least, so `fuel` counts octets. -/
def readChunks (t : TransportId) (c : ChildId) : (fuel : Nat) → Decoder → Loop → Loop × Move
  | 0, decoder, m => m.awaitStream c .output (.reading t c decoder)
  | fuel + 1, decoder, m =>
    match (m.streamOf c .output).readChunk with
    | .nothingYet => m.awaitStream c .output (.reading t c decoder)
    | .failed failure => m.breakOff t failure
    | .octets [] _ => (m, .call (.awaitExit c) (.outputEnded t c decoder.pending))
    | .octets chunk rest =>
      let m := m.modifyStream c .output fun s => { s with buffer := rest }
      let fed := decoder.feed chunk
      let m := m.modify fun s => fed.notes.foldl (fun s n => s.record (.note n)) s
      match fed.messages with
      | .error r => m.breakOff t (.refused r)
      | .ok messages =>
        match m.receiveAll t messages with
        | (m, some failure) => m.breakOff t failure
        | (m, none) => readChunks t c fuel fed.decoder m

def readOn (t : TransportId) (c : ChildId) (decoder : Decoder) (m : Loop) : Loop × Move :=
  readChunks t c ((m.streamOf c .output).buffer.length + 1) decoder m

def readOutput (t : TransportId) (c : ChildId) (m : Loop) : Loop × Move :=
  readOn t c { encoding := m.state.settings.encoding, verbose := m.state.settings.verbose } m

/-- The wait for a stream is over. -/
def streamResumed (m : Loop) (c : ChildId) (pipe : Pipe) : Loop := m.modifyStream c pipe fun s => { s with waiter := none }

def readResumed (t : TransportId) (c : ChildId) (decoder : Decoder) (o : Ending) (m : Loop) : Loop × Move :=
  let m := m.streamResumed c .output
  match o with
  | .value _ => readOn t c decoder m
  | .failed failure => m.breakOff t failure
  | .cancelled => (m, .done .cancelled)

/-- The output has ended, and so has the child. -/
def outputResumed (t : TransportId) (c : ChildId) (pending : Nat) (o : Ending) (m : Loop) : Loop × Move :=
  match o with
  | .value (.returnCode code) =>
    let m := if pending = 0 then m
      else m.note .debug (lit "tsserver exited with " ++ Text.ofNat pending ++ lit " undecoded bytes")
    let m := if code = 0 then
        (m.note .info (lit "tsserver exited (pid=" ++ Text.ofNat (Child.pid c) ++ lit ")")).conclude t none
      else
        m.conclude t (some { message := lit "tsserver exited with code " ++ Text.ofInt code, returnCode := some code })
    (m, .done (.value .nothing))
  | o => (m, .done o)

/-- A line of error output as it is noted: what cannot be decoded is replaced, and blanks at its end are dropped. -/
def errorLine (encoding : Text) (line : Bytes) : Except Failure Text :=
  match Charset.lookup encoding with
  | .error f => .error (.refused (.encoding f))
  | .ok charset => .ok (Text.dropEndWhile CodePoint.isBlank (charset.decodeLossy line))

/-- Notes lines until there is no whole one left or the output ends. Each line is an octet at least, so `fuel` counts
octets. -/
def drainLines (c : ChildId) : (fuel : Nat) → Loop → Loop × Move
  | 0, m => m.awaitStream c .errors (.draining c)
  | fuel + 1, m =>
    match (m.streamOf c .errors).readLine with
    | .nothingYet => m.awaitStream c .errors (.draining c)
    | .failed failure => (m, .done (.failed failure))
    | .octets line rest =>
      let m := m.modifyStream c .errors fun s => { s with buffer := rest }
      if line = [] then (m, .done (.value .nothing))
      else
        match errorLine m.state.settings.encoding line with
        | .error failure => (m, .done (.failed failure))
        | .ok text => drainLines c fuel (m.note .debug (lit "[tsserver stderr] " ++ text))

def drainErrors (c : ChildId) (m : Loop) : Loop × Move := drainLines c ((m.streamOf c .errors).buffer.length + 1) m

def drainResumed (c : ChildId) (o : Ending) (m : Loop) : Loop × Move :=
  let m := m.streamResumed c .errors
  match o with
  | .value _ => drainErrors c m
  | o => (m, .done o)

end Loop

end DiagnosticsClient
