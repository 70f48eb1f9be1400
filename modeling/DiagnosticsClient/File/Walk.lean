import DiagnosticsClient.Failure
import DiagnosticsClient.File.Octets
import DiagnosticsClient.File.Tree
/-
Walking a path to what it leads to.

A path is looked over before anything is looked up: it has octets, none of
them nought, and there are some but not too many. Then it is walked name by
name: a link is replaced by its target, a double dot leads to the directory
above, and only a directory can be walked through. Nothing between two slashes
is as good as a dot.
-/
namespace DiagnosticsClient

/-- Why a walk does not arrive. -/
inductive WalkError where
  | missing
  | notDirectory
  | isDirectory
  | nameTooLong
  | tooManyLinks
deriving DecidableEq

/-- The error of an operation on a path that cannot be walked. -/
def WalkError.about (path : Text) : WalkError → SystemError
  | .missing => .noSuchFile path
  | .notDirectory => .notADirectory path
  | .isDirectory => .isADirectory path
  | .nameTooLong => .nameTooLong path
  | .tooManyLinks => .tooManyLinks path

namespace Path

/-- The most octets of a path. -/
def sizeLimit : Nat := 4095

/-- A path without octets, or with one that would end it early, is refused before the system sees it. -/
def admissible (path : Text) : Except Failure Bytes :=
  match octets path with
  | .error fault => .error (.encode (.unencodable fault))
  | .ok octets => if octets.contains 0 then .error .nulInPath else .ok octets

end Path

namespace FileTree

/-- The most links a walk follows. -/
def linkLimit : Nat := 40

/-- The most octets a name has. -/
def nameLimit : Nat := 255

/-- What becomes of the last name of a path. -/
inductive LastName where
  /-- A link is followed. -/
  | followed
  /-- A link is where the walk arrives. -/
  | kept
  /-- A link is followed to where a file is to be, which no name with a slash behind it can be. -/
  | written
deriving DecidableEq

/-- Where a walk stands: the directories below the root down to the one it has come to, the innermost first, each with its
name and its entries. -/
abbrev Standing := List (Text × Entries)

/-- The entries of the directory a walk stands in. -/
def entriesIn (t : FileTree) : Standing → Entries
  | [] => t.root
  | (_, entries) :: _ => entries

/-- The place a walk stands at. -/
def placeOf (standing : Standing) : Place := (standing.map (·.1)).reverse

/-- Goes down to a place, if there is a directory. -/
def descend (t : FileTree) (standing : Standing) : Place → Option Standing
  | [] => some standing
  | name :: rest =>
    match (t.entriesIn standing).get? name with
    | some (.directory entries) => t.descend ((name, entries) :: standing) rest
    | _ => none

/-- Where a walk arrives: a place, and what is there if there is anything. -/
structure Arrival where
  place : Place
  node : Option FileNode

/-- Walks through names from where it stands. At most `links` links are followed. -/
def walk (t : FileTree) (last : LastName) : (links : Nat) → Standing → List Text → Except WalkError Arrival
  | _, standing, [] => .ok ⟨placeOf standing, some (.directory (t.entriesIn standing))⟩
  | links, standing, name :: rest =>
    if name = [] || name = Path.dot then walk t last links standing rest
    else if name = Path.doubleDot then walk t last links standing.tail rest
    else if last = .written && rest ≠ [] && rest.all (· = []) then .error .isDirectory
    else if nameLimit < (name.flatMap Path.octetsOf).length then .error .nameTooLong
    else
      let arrived (node : Option FileNode) : Arrival := ⟨placeOf standing ++ [name], node⟩
      match (t.entriesIn standing).get? name with
      | some (.directory entries) => walk t last links ((name, entries) :: standing) rest
      | some (.file content) => if rest = [] then .ok (arrived (some (.file content))) else .error .notDirectory
      | some (.link target) =>
        if rest = [] && last = .kept then .ok (arrived (some (.link target)))
        else
          match links with
          | 0 => .error .tooManyLinks
          | links + 1 =>
            walk t last links (if Path.isAbsolute target then [] else standing) (target.splitOn Path.slash ++ rest)
      | none => if rest = [] then .ok (arrived none) else .error .missing
termination_by links _ names => (links, names.length)

/-- Where the walk of a path starts; the working directory may not be there. -/
def startOf? (t : FileTree) (path : Text) : Option Standing :=
  if Path.isAbsolute path then some [] else t.descend [] (Path.parts t.workingDirectory)

/-- Walks a path from the working directory. -/
def walkPath (t : FileTree) (last : LastName) (path : Text) : Except Failure Arrival := do
  let octets ← Path.admissible path
  if octets = [] then throw (.system (.noSuchFile path))
  if Path.sizeLimit < octets.length then throw (.system (.nameTooLong path))
  match t.startOf? path with
  | none => throw (.system (.noSuchFile path))
  | some standing =>
    (walk t last linkLimit standing (path.splitOn Path.slash)).mapError fun e => .system (e.about path)

/-- What a path leads to. -/
def stat (t : FileTree) (path : Text) : Except Failure FileNode := do
  match (← t.walkPath .followed path).node with
  | some node => .ok node
  | none => .error (.system (.noSuchFile path))

/-- Whether a path leads to a directory. -/
def isDirectory (t : FileTree) (path : Text) : Bool :=
  match t.stat path with
  | .ok (.directory _) => true
  | _ => false

/-- Whether a path leads to a file. A path that is too long is an error, or has a name that is; any other that leads
nowhere leads to no file. -/
def isFile (t : FileTree) (path : Text) : Except Failure Bool :=
  match t.stat path with
  | .ok (.file _) => .ok true
  | .error (.system e) => if e = .nameTooLong path then .error (.system e) else .ok false
  | _ => .ok false

end FileTree

end DiagnosticsClient
