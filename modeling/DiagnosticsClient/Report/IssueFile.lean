import DiagnosticsClient.File.Access
import DiagnosticsClient.Log
import DiagnosticsClient.Report.Issue
import DiagnosticsClient.Settings.Lookup
/-
The file with the list of issues.

Paths in it are relative to the project's directory, which is given, or named
by the environment, or else the working directory. The list is complete before
anything is made or written.
-/
namespace DiagnosticsClient

namespace IssueFile

def projectVariable : Text := lit "CI_PROJECT_DIR"

/-- The directory that the paths of issues start from. -/
def projectDirectory (tree : FileTree) (environment : Environment) (given : Option Text) : Text :=
  (Settings.given? given <|> environment.get? projectVariable).getD tree.workingDirectory

/-- The issues of records. -/
def issues (tree : FileTree) (environment : Environment) (project : Option Text) (records : List Record) :
    Except Failure (List Issue) :=
  Issue.ofRecords MD5.digest tree.workingDirectory (projectDirectory tree environment project) [] records

/-- Writes the issues of records to a file, in a directory that is made if it is missing: the tree that is left, and the note
of it or what went wrong. -/
def save (tree : FileTree) (environment : Environment) (records : List Record) (output : Text) :
    FileTree × Except Failure Note :=
  match issues tree environment none records with
  | .error failure => (tree, .error failure)
  | .ok issues =>
    let path := Path.tidy output
    match tree.leaveDirectories (Path.parent path) with
    | (left, some failure) => (left, .error failure)
    | (left, none) =>
      match Issue.listing issues with
      | .error fault => (left, .error (.extent fault))
      | .ok listing =>
        match left.leaveText path listing with
        | (left, some failure) => (left, .error failure)
        | (left, none) =>
          (left, .ok ⟨.info, lit "Wrote " ++ Text.ofNat issues.length ++ lit " issue(s) to " ++ path⟩)

/-- Writes the issues of records to a file. -/
def write (tree : FileTree) (environment : Environment) (records : List Record) (output : Text) :
    Except Failure (FileTree × Note) :=
  match save tree environment records output with
  | (left, .ok note) => .ok (left, note)
  | (_, .error failure) => .error failure

end IssueFile

end DiagnosticsClient
