import DiagnosticsClient.File.Path
/-
A tree of files, directories and symbolic links.

A directory has entries, each a name and what it names. A place is the list of
names that leads to something from the root, through directories only.
-/
namespace DiagnosticsClient

/-- What a name in a directory names. -/
inductive FileNode where
  | file (content : Bytes)
  | link (target : Text)
  | directory (entries : List (Text × FileNode))

/-- The entries of a directory. -/
abbrev Entries := List (Text × FileNode)

/-- The names that lead from the root to a place. -/
abbrev Place := List Text

namespace Entries

/-- What a name names. -/
def get? (entries : Entries) (name : Text) : Option FileNode :=
  (List.find? (fun entry => entry.1 == name) entries).map (·.2)

/-- The entries of the directory of a name; a name of none has no entries. -/
def inner (entries : Entries) (name : Text) : Entries :=
  match get? entries name with
  | some (.directory inner) => inner
  | _ => []

/-- Gives a name something to name, in the place of what it named. -/
def set (entries : Entries) (name : Text) (node : FileNode) : Entries :=
  (name, node) :: List.filter (fun entry => entry.1 ≠ name) entries

/-- What is at a place, counted from a directory. -/
def at? (entries : Entries) : Place → Option FileNode
  | [] => some (.directory entries)
  | [name] => get? entries name
  | name :: next :: rest =>
    match get? entries name with
    | some (.directory inner) => at? inner (next :: rest)
    | _ => none

/-- Puts something at a place, counted from a directory; directories on the way are made. -/
def put (node : FileNode) (entries : Entries) : Place → Entries
  | [] => entries
  | [name] => set entries name node
  | name :: next :: rest => set entries name (.directory (put node (inner entries name) (next :: rest)))

end Entries

mutual
/-- What is at a place and below it, with the names that lead there. -/
def FileNode.listing (place : Place) : FileNode → List (Place × FileNode)
  | .file content => [(place, .file content)]
  | .link target => [(place, .link target)]
  | .directory entries => (place, .directory entries) :: Entries.listing place entries

/-- What the entries of the directory at a place name, and what is below. -/
def Entries.listing (place : Place) : List (Text × FileNode) → List (Place × FileNode)
  | [] => []
  | (name, node) :: rest => node.listing (place ++ [name]) ++ Entries.listing place rest
end

/-- What is below the root, and the directory that paths start from. -/
structure FileTree where
  root : Entries := []
  workingDirectory : Text := [Path.slash]

namespace FileTree

/-- What is at a place. -/
def node? (t : FileTree) (place : Place) : Option FileNode := Entries.at? t.root place

/-- Puts something at a place, in the place of what was there. -/
def put (t : FileTree) (place : Place) (node : FileNode) : FileTree := { t with root := Entries.put node t.root place }

/-- The path of a place. -/
def pathOf (place : Place) : Text := Path.slash :: Text.join [Path.slash] place

end FileTree

end DiagnosticsClient
