import DiagnosticsClient.CommandLine.Run
/-
The program of the command.

It reads what the command needs from the disk, runs it and prints what it left
behind. It starts no child processes of its own: every launch of a server is
refused, and the command reports that.
-/
namespace DiagnosticsClient

namespace Main

/-- A text as a string. -/
def string (t : Text) : String := t.asString

/-- What the disk has at a path. -/
def nodeAt? (path : Text) : IO (Option FileNode) := do
  try
    let content ← IO.FS.readBinFile (string path)
    return some (.file content.toList)
  catch
    | .noFileOrDirectory .. => return none
    | _ => return some (.directory [])

/-- The paths that a command may look at: its arguments and the installed servers above the working directory. -/
def pathsOf (workingDirectory : Text) (arguments : List Text) : List Text :=
  let home := Path.parts workingDirectory
  arguments.map (Path.absolute workingDirectory) ++
    (List.range (home.length + 1)).map fun depth => Settings.scriptAt (home.take depth)

/-- The part of the disk that a command may look at. -/
def treeOf (workingDirectory : Text) (arguments : List Text) : IO FileTree := do
  let mut tree : FileTree := { workingDirectory }
  tree := tree.put (Path.parts workingDirectory) (.directory [])
  for path in pathsOf workingDirectory arguments do
    match ← nodeAt? path with
    | some node => if (tree.node? (Path.parts path)).isNone then tree := tree.put (Path.parts path) node
    | none => pure ()
  return tree

/-- The variables that the command looks at. -/
def environmentOf : IO Environment := do
  let mut environment : Environment := []
  for name in [Settings.nodeVariable, Settings.scriptVariable, IssueFile.projectVariable] do
    match ← IO.getEnv (string name) with
    | some value => environment := environment ++ [(name, lit value)]
    | none => pure ()
  return environment

/-- The refusal of every launch. -/
def noProcesses : SystemError := ⟨38, lit "Function not implemented", none⟩

/-- More steps than any run takes. -/
def patience : Nat := 1000000000

/-- Whether a tree has a file with just this content at a place. -/
def holds (tree : FileTree) (place : Place) (content : Bytes) : Bool :=
  match tree.node? place with
  | some (.file there) => there == content
  | _ => false

/-- Writes what the command changed in its tree. -/
def save (before after : FileTree) : IO Unit := do
  for (place, node) in Entries.listing [] after.root do
    match node with
    | .directory _ => IO.FS.createDirAll (string (FileTree.pathOf place))
    | .file content =>
      if !holds before place content then
        IO.FS.writeBinFile (string (FileTree.pathOf place)) ⟨content.toArray⟩
    | .link _ => pure ()

end Main

end DiagnosticsClient

open DiagnosticsClient in
def main (arguments : List String) : IO UInt32 := do
  let workingDirectory := lit (← IO.currentDir).toString
  let arguments := arguments.map lit
  let tree ← Main.treeOf workingDirectory arguments
  let done := Invocation.run
    { arguments, environment := ← Main.environmentOf, tree, launches := [.refused Main.noProcesses] } Main.patience
  IO.print (Main.string done.out)
  IO.eprint (Main.string done.err)
  Main.save tree done.tree
  match done.unhandled with
  | some failure => IO.eprintln (Main.string (failure.kind ++ lit ": " ++ failure.message))
  | none => pure ()
  return UInt32.ofNat done.status
