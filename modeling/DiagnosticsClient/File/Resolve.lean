import DiagnosticsClient.File.Walk
/-
Resolving a path: following its links as far as they lead.

What has been followed so far is a `Trail`. Each further name is looked up at
the end of it; what is not there, or cannot be looked up, is no link and is
kept. Links that lead in a circle are left where they are met, and so is all
that follows them.
-/
namespace DiagnosticsClient

/-- A path without links, as it is followed: its names, the last one first, each with the entries of the directory there if
there is one. A relative path starts from `base` and may begin with double dots; those are not in `base` any more. An
absolute path has none. -/
structure Trail where
  isAbsolute : Bool
  base : FileTree.Standing
  back : List (Text × Option Entries) := []

namespace Trail

/-- The trail at the root. -/
def root : Trail := { isAbsolute := true, base := [] }

/-- The trail from which a path is followed, if it is met at the end of another. -/
def origin (here : Trail) (path : Text) : Trail := if Path.isAbsolute path then root else here

/-- A trail as a path. -/
def path (trail : Trail) : Text :=
  (if trail.isAbsolute then [Path.slash] else []) ++ Text.join [Path.slash] (trail.back.map (·.1)).reverse

/-- The entries of the directory at the end of a trail, if there is one. -/
def entries? (t : FileTree) (trail : Trail) : Option Entries :=
  match trail.back with
  | [] => some (t.entriesIn trail.base)
  | (_, entries) :: _ => entries

/-- One name further, to what is there. -/
def down (trail : Trail) (name : Text) (node : Option FileNode) : Trail :=
  let entries := match node with
    | some (.directory entries) => some entries
    | _ => none
  { trail with back := (name, entries) :: trail.back }

/-- Above all the names of a trail. -/
def above (t : FileTree) (trail : Trail) : Trail :=
  if trail.isAbsolute then trail
  else
    let base := trail.base.tail
    { trail with base, back := (Path.doubleDot, some (t.entriesIn base)) :: trail.back }

/-- One directory up. -/
def up (t : FileTree) (trail : Trail) : Trail :=
  match trail.back with
  | [] => trail.above t
  | (last, _) :: rest => if last = Path.doubleDot then trail.above t else { trail with back := rest }

end Trail

/-- What following the links of a path comes to. -/
inductive Followed where
  | whole (trail : Trail)
  /-- Some links lead in a circle: the path up to them, and the rest of it as it was. -/
  | circular (path : Text)

namespace FileTree

/-- What a name at the end of a trail names. A name that the system would not take is an error, which is about the whole
path. -/
def nodeAfter? (t : FileTree) (trail : Trail) (name : Text) : Except Failure (Option FileNode) :=
  match Path.admissible name with
  | .ok _ => .ok ((trail.entries? t).bind fun entries => entries.get? name)
  | .error _ =>
    match Path.admissible (trail.down name none).path with
    | .ok _ => .ok none
    | .error failure => .error failure

/-- Follows the links of a path from a trail on. `open_` are the links being followed: one of them is not followed again.
`depth` bounds how many there are at once. -/
def follow (t : FileTree) : (depth : Nat) → (open_ : List Text) → Trail → List Text → Except Failure Followed
  | _, _, trail, [] => .ok (.whole trail)
  | depth, open_, trail, name :: rest =>
    if name = [] || name = Path.dot then follow t depth open_ trail rest
    else if name = Path.doubleDot then follow t depth open_ (trail.up t) rest
    else
      let stuck (path : Text) : Except Failure Followed := .ok (.circular (Path.join path (Text.join [Path.slash] rest)))
      match t.nodeAfter? trail name with
      | .error failure => .error failure
      | .ok (some (.link target)) =>
        let here := (trail.down name none).path
        if open_.contains here then stuck here
        else
          match depth with
          | 0 => .error .tooManyFollowed
          | depth' + 1 =>
            match follow t depth' (here :: open_) (trail.origin target) (target.splitOn Path.slash) with
            | .error failure => .error failure
            | .ok (.circular path) => stuck path
            | .ok (.whole trail) => follow t (depth' + 1) open_ trail rest
      | .ok node => follow t depth open_ (trail.down name node) rest
termination_by depth _ _ names => (depth, names.length)

/-- The most links that are followed at once. -/
def followLimit : Nat := 985

/-- The trail at the working directory. -/
def homeTrail (t : FileTree) : Trail :=
  { isAbsolute := false, base := (t.descend [] (Path.parts t.workingDirectory)).getD [] }

/-- The absolute path that a tidy path resolves to; links that lead in a circle are an error. -/
def resolve (t : FileTree) (path : Text) : Except Failure Text := do
  let followed ← t.follow followLimit [] (t.homeTrail.origin path) (path.splitOn Path.slash)
  let resolved := Path.absolute t.workingDirectory (match followed with
    | .whole trail => trail.path
    | .circular path => path)
  match t.stat resolved with
  | .ok _ => .ok resolved
  | .error (.system e) => if e = .tooManyLinks resolved then .error (.misuse (.linkLoop resolved)) else .ok resolved
  | .error failure => .error failure

end FileTree

end DiagnosticsClient
