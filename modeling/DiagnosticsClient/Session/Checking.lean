import DiagnosticsClient.Session.Asking
import DiagnosticsClient.File.Path
/-
Checking files, all at once, over one session.

Each file has a task that asks for its diagnostics and reads the code around
them. When all have ended, or one has failed, the session is closed.
-/
namespace DiagnosticsClient

namespace Loop

open Async

def checkFile (file : Text) (context : Context) (limit : Option Seconds) (m : Loop) : Loop × Move :=
  (m, .call (.request (.str (Path.absolute m.state.workingDirectory file)) limit) (.answered file context))

/-- The code around the diagnostics of a file. -/
def fragmentsOf (m : Loop) (file : Text) (context : Context) (diagnostics : List Diagnostic) : Ending :=
  match Source.fragmentsOf (m.state.source (Path.absolute m.state.workingDirectory file)) diagnostics context with
  | .error e => .failed e
  | .ok code => .value (.code code)

/-- The response is there; the code is read aside. -/
def answerResumed (file : Text) (context : Context) (o : Ending) (m : Loop) : Loop × Move :=
  match o with
  | .value (.message message) =>
    match message.diagnostics with
    | .error e => (m, .done (.failed (.diagnostic e)))
    | .ok diagnostics =>
      let m := m.note .debug (file ++ lit ": " ++ Text.ofNat diagnostics.length ++ lit " diagnostic(s)")
      let (m, reading) := m.future
      (m.enqueue (.deliver reading (m.fragmentsOf file context diagnostics)),
        .await reading (.readSource file context diagnostics))
  | o => (m, .done o)

def sourceResumed (file : Text) (context : Context) (diagnostics : List Diagnostic) (o : Ending) (m : Loop) :
    Loop × Move :=
  match o with
  | .value v => (m, .done (.value (.record { file, diagnostics, code := v.fragments, context })))
  | o => (m, .done o)

def checkFiles (files : List Text) (context : Context) (limit : Option Seconds) (m : Loop) : Loop × Move :=
  let (m, outer, members) := m.spawnGroup (files.map fun file => .checkFile file context limit)
  (m, .await outer (.gathered members))

/-- The records of tasks that ended well, without those of clean files. -/
def recordsOf (m : Loop) (members : List TaskId) : List Record :=
  members.filterMap fun task =>
    match m.taskOutcome? task with
    | some (.value (.record r)) => if r.diagnostics.isEmpty then none else some r
    | _ => none

def gatherResumed (members : List TaskId) (o : Ending) (m : Loop) : Loop × Move :=
  let ending : Ending := match o with
    | .value _ => .value (.records (m.recordsOf members))
    | o => o
  (m, .call .closeSession (.finishing ending))

end Loop

end DiagnosticsClient
