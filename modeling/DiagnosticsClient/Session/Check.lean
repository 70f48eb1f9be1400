import DiagnosticsClient.File.Access
import DiagnosticsClient.Session.Program
/-
A check from start to end.

The files are checked over one session of their own. Its outcome is the
records of the files that have diagnostics, or the first failure.
-/
namespace DiagnosticsClient

open Async

/-- What a check needs beside the files: how the server is run, the files there are, and how children will behave. -/
structure Surroundings where
  settings : Settings := {}
  tree : FileTree := {}
  launches : List Launch := []
  script : Option Script := none

namespace Surroundings

/-- The session of a check before anything has happened. -/
def session (s : Surroundings) : State :=
  { settings := s.settings, launches := s.launches, script := s.script
    workingDirectory := s.tree.workingDirectory
    source := fun path => s.tree.readText (Path.tidy path) }

/-- Checks files; gives the session as it ends and the outcome. -/
def check (s : Surroundings) (fuel : Nat) (files : List Text) (context : Context) (limit : Option Seconds) :
    State × Ending :=
  let (m, ending) := Machine.complete Loop.program fuel (.checkFiles files context limit)
    ({ state := s.session } : Loop)
  (m.state, ending)

end Surroundings

namespace State

/-- The notes that were taken, oldest first. -/
def notes (s : State) : List Note := s.transcript.toList.filterMap fun | .note n => some n | _ => none

end State

end DiagnosticsClient
