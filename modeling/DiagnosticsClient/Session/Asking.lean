import DiagnosticsClient.Session.Listening
import DiagnosticsClient.Session.Limit
/-
Asking for the diagnostics of a file.

Who asks listens first, so that the answer cannot be missed: then the file is
opened and its diagnostics are asked for. The first response that answers the
second request ends the wait. The listener is closed however the wait ends.
-/
namespace DiagnosticsClient

namespace Loop

open Async

/-- A number no request has had. -/
def issueSeq (m : Loop) : Loop × Nat := (m.modify fun s => { s with nextSeq := s.nextSeq + 1 }, m.state.nextSeq)

def request (file : Json) (limit : Option Seconds) (m : Loop) : Loop × Move :=
  let (m, first) := m.issueSeq
  let (m, second) := m.issueSeq
  let exchange := Routine.exchange (Request.openFile first file) (Request.semanticDiagnostics second file)
  match limit with
  | none => (m, .become exchange)
  | some limit => (m, .call (.within limit exchange) (.requesting file second limit))

/-- Whatever ran out of time, the file's diagnostics did not come in time. -/
def requestResumed (file : Json) (seq : Int) (limit : Seconds) (o : Ending) (m : Loop) : Loop × Move :=
  match o with
  | .failed (.timedOut _) => (m, .done (.failed (.noDiagnostics file seq limit)))
  | o => (m, .done o)

def exchange (opening asking : Request) (m : Loop) : Loop × Move :=
  let (m, l) := m.listen
  (m, .call (.openListener l) (.introducing l opening asking))

/-- Sends requests in order, up to one that cannot be written. -/
def sendAll (m : Loop) : List Request → Loop × Option Failure
  | [] => (m, none)
  | r :: rest =>
    match m.send r with
    | (m, none) => sendAll m rest
    | (m, some failure) => (m, some failure)

/-- The listener is open: both requests are sent. -/
def exchangeOpened (l : ListenerId) (opening asking : Request) (o : Ending) (m : Loop) : Loop × Move :=
  match o with
  | .value _ =>
    match m.sendAll [opening, asking] with
    | (m, none) => (m, .call (.next l) (.expecting l asking))
    | (m, some failure) => (m, .call (.closeListener l) (.finishing (.failed failure)))
  | o => (m, .done o)

/-- A message came, or the stream ended. -/
def exchangeResumed (l : ListenerId) (asking : Request) (o : Ending) (m : Loop) : Loop × Move :=
  let leave (m : Loop) (ending : Ending) : Loop × Move := (m, .call (.closeListener l) (.finishing ending))
  match o with
  | .value (.message (.response response)) =>
    if response.answers asking then
      leave (m.note .debug (lit "Received " ++ response.command ++ lit " response (request_seq=" ++
        Text.ofInt response.requestSeq ++ lit ")")) (.value (.message (.response response)))
    else (m, .call (.next l) (.expecting l asking))
  | .value _ => (m, .call (.next l) (.expecting l asking))
  | .failed .endOfStream => leave m (.failed (.unanswered asking.command asking.seq))
  | o => leave m o

end Loop

end DiagnosticsClient
