import DiagnosticsClient.File.Walk
/-
Reading and writing files, and making directories.

What takes more than one step of the system can stop on the way. It leaves a
tree behind then too, with all that was done before it stopped.
-/
namespace DiagnosticsClient

namespace FileTree

/-- The octets of a file. -/
def read (t : FileTree) (path : Text) : Except Failure Bytes := do
  match ← t.stat path with
  | .file content => .ok content
  | _ => .error (.system (.isADirectory path))

/-- The text of a file in UTF-8. -/
def readText (t : FileTree) (path : Text) : Except Failure Text := do
  (Charset.utf8.decode (← t.read path)).mapError .undecodable

/-- Makes a directory where nothing is. -/
def makeDirectory (t : FileTree) (path : Text) : Except Failure FileTree := do
  let arrival ← t.walkPath .kept path
  match arrival.node with
  | some _ => .error (.system (.fileExists path))
  | none => .ok (t.put arrival.place (.directory []))

/-- The most directories that are made at once. -/
def directoryLimit : Nat := 985

/-- Makes a directory and those above it that are missing, at most `count` together: the tree that is left, and what
went wrong. -/
def leaveDirectoriesWithin (t : FileTree) : (count : Nat) → (path : Text) → FileTree × Option Failure
  | 0, _ => (t, some .tooManyDirectories)
  | count + 1, path =>
    match t.makeDirectory path with
    | .ok made => (made, none)
    | .error (.system e) =>
      if e = .noSuchFile path then
        if Path.parent path = path then (t, some (.system e))
        else
          match t.leaveDirectoriesWithin count (Path.parent path) with
          | (left, some failure) => (left, some failure)
          | (left, none) =>
            match left.makeDirectory path with
            | .ok made => (made, none)
            | .error failure => (left, if left.isDirectory path then none else some failure)
      else (t, if t.isDirectory path then none else some (.system e))
    | .error failure => (t, some failure)

/-- Makes a directory and those above it that are missing: the tree that is left, and what went wrong. -/
def leaveDirectories (t : FileTree) (path : Text) : FileTree × Option Failure := t.leaveDirectoriesWithin directoryLimit path

/-- Makes a directory and those above it that are missing. -/
def makeDirectories (t : FileTree) (path : Text) : Except Failure FileTree :=
  match t.leaveDirectories path with
  | (left, none) => .ok left
  | (_, some failure) => .error failure

/-- Where a file is written. -/
def placeToWrite (t : FileTree) (path : Text) : Except Failure Place := do
  let arrival ← t.walkPath .written path
  match arrival.node with
  | some (.directory _) => .error (.system (.isADirectory path))
  | _ => .ok arrival.place

/-- Writes a text in UTF-8 to a file anew: the tree that is left, and what went wrong. The file is empty before the text is
looked at. -/
def leaveText (t : FileTree) (path text : Text) : FileTree × Option Failure :=
  match t.placeToWrite path with
  | .error failure => (t, some failure)
  | .ok place =>
    match Charset.utf8.encode text with
    | .error fault => (t.put place (.file []), some (.encode (.unencodable fault)))
    | .ok content => (t.put place (.file content), none)

end FileTree

end DiagnosticsClient
