import DiagnosticsClient.Text.Basic
/-
Paths as text.

A path is cut at its slashes. A normal path has no empty part and no dot, and
a double dot only where nothing stands before it that it could take away. One
leading slash makes a path absolute; exactly two are kept as two.
-/
namespace DiagnosticsClient

namespace Path

def slash : CodePoint := pt '/'

def dot : Text := lit "."

def doubleDot : Text := lit ".."

/-- The parts of a path between its slashes, without the empty ones. -/
def parts (p : Text) : List Text := (p.splitOn slash).filter (· ≠ [])

/-- Whether a path starts at the root. -/
def isAbsolute (p : Text) : Bool := p.head? == some slash

/-- The slashes a normal path keeps in front. -/
def rootOf (p : Text) : Text :=
  let leading := p.takeWhile (· = slash)
  if leading.length = 2 then leading else leading.take 1

/-- Adds a part to the parts before it, the last one first. -/
def addPart (rooted : Bool) (before : List Text) (part : Text) : List Text :=
  if part = dot then before
  else if part ≠ doubleDot then part :: before
  else
    match before with
    | [] => if rooted then [] else [part]
    | last :: rest => if last = doubleDot then part :: before else rest

/-- The parts of a path in normal form. -/
def normalParts (p : Text) : List Text := ((parts p).foldl (addPart (isAbsolute p)) []).reverse

/-- A path in normal form. -/
def normalize (p : Text) : Text :=
  match rootOf p ++ Text.join [slash] (normalParts p) with
  | [] => dot
  | normal => normal

/-- A path without empty parts and dots; a double dot stays, since what stands before it may be a link. -/
def tidy (p : Text) : Text :=
  match rootOf p ++ Text.join [slash] ((parts p).filter (· ≠ dot)) with
  | [] => dot
  | tidied => tidied

/-- The directory of a tidy path. -/
def parent (p : Text) : Text := tidy (rootOf p ++ Text.join [slash] (parts p).dropLast)

/-- A path seen from a directory. -/
def join (directory p : Text) : Text :=
  if isAbsolute p then p
  else if directory = [] || directory.getLast? == some slash then directory ++ p
  else directory ++ slash :: p

/-- A path seen from the working directory, in normal form. -/
def absolute (workingDirectory p : Text) : Text :=
  normalize (if isAbsolute p then p else join workingDirectory p)

/-- The number of parts that two paths have in common at their front. -/
def commonLength : List Text → List Text → Nat
  | a :: as, b :: bs => if a = b then commonLength as bs + 1 else 0
  | _, _ => 0

/-- The way from a directory to a path. -/
def relative (workingDirectory directory p : Text) : Text :=
  let origin := parts (absolute workingDirectory directory)
  let target := parts (absolute workingDirectory p)
  let common := commonLength origin target
  match List.replicate (origin.length - common) doubleDot ++ target.drop common with
  | [] => dot
  | way => Text.join [slash] way

end Path

end DiagnosticsClient
