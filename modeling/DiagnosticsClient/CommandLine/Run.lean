import DiagnosticsClient.CommandLine.Options
import DiagnosticsClient.Report.Console
import DiagnosticsClient.Report.IssueFile
import DiagnosticsClient.Session.Check
/-
The command.

It checks the files that the arguments name, prints the diagnostics and writes
the list of issues if that is asked for. Its status is 1 if a diagnostic is an
error or the check failed, 2 if the arguments are wrong, and 0 otherwise.
-/
namespace DiagnosticsClient

open Async

/-- What the command finds when it is run. -/
structure Invocation where
  arguments : List Text
  environment : Environment := []
  tree : FileTree := {}
  launches : List Launch := []
  script : Option Script := none
  /-- Whether what it prints to may show styles. -/
  inColour : Bool := false

/-- What the command leaves behind. -/
structure Completed where
  status : Nat
  out : Text := []
  err : Text := []
  tree : FileTree
  session : State := {}
  /-- A failure that the command does not handle. -/
  unhandled : Option Failure := none

namespace Invocation

/-- A line for the error output, in which only a terminal gets styles. -/
def errorText (i : Invocation) (t : Text) : Text := if i.inColour then t else Style.strip t

/-- A note as a line, if it matters enough to be shown. -/
def noteLine (verbose : Bool) (n : Note) : Text :=
  if verbose || n.level = .warning || n.level = .error then n.level.name ++ lit ": " ++ n.text ++ lit "\n" else []

/-- The arguments are wrong. -/
def misused (i : Invocation) (e : UsageError) : Completed := { status := 2, err := i.errorText e.report, tree := i.tree }

/-- Prints pieces in UTF-8, up to the first that is not there or has no octets. -/
def print : List (Except ExtentFault Text) → Text × Option Failure
  | [] => ([], none)
  | .error fault :: _ => ([], some (.extent fault))
  | .ok piece :: rest =>
    match Charset.utf8.encode piece with
    | .error fault => ([], some (.encode (.unencodable fault)))
    | .ok _ =>
      let (out, failure) := print rest
      (piece ++ out, failure)

/-- The records of a check are reported. -/
def reported (i : Invocation) (o : Options) (session : State) (err : Text) (records : List Record) : Completed :=
  match print (Console.printed (i.inColour && !o.noColour) records) with
  | (out, some failure) => { status := 1, out, err, tree := i.tree, session, unhandled := some failure }
  | (out, none) =>
    let status := if records.any Record.hasErrors then 1 else 0
    match Settings.given? o.report with
    | none => { status, out, err, tree := i.tree, session }
    | some output =>
      match IssueFile.save i.tree i.environment records output with
      | (tree, .error f) => { status := 1, out, err, tree, session, unhandled := some f }
      | (tree, .ok note) => { status, out, err := err ++ noteLine o.verbose note, tree, session }

/-- What a check is given: the settings of a server, and how its children will behave. -/
def surroundings (i : Invocation) (settings : Settings) : Surroundings :=
  { settings, tree := i.tree, launches := i.launches, script := i.script }

/-- A check has ended. -/
def concluded (i : Invocation) (o : Options) (session : State) (ending : Ending) : Completed :=
  let err := session.notes.flatMap (noteLine o.verbose)
  match ending with
  | .value (.records records) => i.reported o session err records
  | .failed f =>
    { status := 1, err := err ++ i.errorText (f.kind ++ lit ": " ++ f.message ++ lit "\n"), tree := i.tree, session }
  | _ => { status := 1, err, tree := i.tree, session }

/-- The files are checked with the settings of a server. -/
def checked (i : Invocation) (fuel : Nat) (o : Options) (files : List Text) (settings : Settings) : Completed :=
  let (session, ending) := (i.surroundings settings).check fuel files o.context (o.limit.map .real)
  i.concluded o session ending

/-- A text as the error output shows it: half a surrogate pair has no octets, and is escaped. -/
def withEscapes (t : Text) : Text := t.flatMap fun c => if c.isSurrogate then c.escaped else [c]

/-- What the command does. -/
def perform (i : Invocation) (fuel : Nat) : Completed :=
  match Sorted.ofArguments i.arguments with
  | .error e => i.misused e
  | .ok sorted =>
    if sorted.has .help then { status := 0, out := helpText, tree := i.tree }
    else
      match Options.ofSorted i.tree sorted with
      | .error (.usage e) => i.misused e
      | .error (.failed f) => { status := 1, tree := i.tree, unhandled := some f }
      | .ok o =>
        match uniqueFiles (o.files.map .str) with
        | .error e => i.misused e
        | .ok files =>
          match Settings.ofEnvironment i.tree i.environment o.script o.verbose none with
          | .error .noServer => { status := 1, err := i.errorText (Failure.noServer.message ++ lit "\n"), tree := i.tree }
          | .error f => { status := 1, tree := i.tree, unhandled := some f }
          | .ok settings => i.checked fuel o files settings

/-- Runs the command. -/
def run (i : Invocation) (fuel : Nat) : Completed :=
  let done := i.perform fuel
  { done with err := withEscapes done.err }

end Invocation

end DiagnosticsClient
