import DiagnosticsClient.File.Resolve
import DiagnosticsClient.Settings
/-
Where the server is found.

An explicit path to its script wins over the environment, and the environment
over the search for an installed one in the directories above.
-/
namespace DiagnosticsClient

/-- The variables of the environment. -/
abbrev Environment := List (Text × Text)

/-- The value of a variable that is set to something. -/
def Environment.get? (e : Environment) (name : Text) : Option Text :=
  match e.find? fun entry => entry.1 == name with
  | some entry => if entry.2 = [] then none else some entry.2
  | none => none

namespace Settings

def nodeVariable : Text := lit "TS_CHECK_NODE"

def scriptVariable : Text := lit "TS_CHECK_TSSERVER"

/-- Where an installed server has its script. -/
def installedScript : Text := lit "node_modules/typescript/lib/tsserver.js"

/-- The script of a server installed at a place. -/
def scriptAt (place : Place) : Text := Path.join (FileTree.pathOf place) installedScript

/-- The script installed at a place or above it, at the nearest one; the names of the place come last one first. -/
def findAbove? (tree : FileTree) : (back : List Text) → Except Failure (Option Text)
  | [] => do
    let script := scriptAt []
    return if ← tree.isFile script then some script else none
  | name :: back => do
    let script := scriptAt (name :: back).reverse
    if ← tree.isFile script then return some script else findAbove? tree back

/-- The script installed in the nearest directory, from `start` upwards. -/
def findScript? (tree : FileTree) (start : Text) : Except Failure (Option Text) := do
  let directory ← tree.resolve (Path.tidy start)
  findAbove? tree (Path.parts directory).reverse

/-- A text that is not empty. -/
def given? : Option Text → Option Text
  | some [] => none
  | t => t

/-- The settings for a server that is named, or found. -/
def ofEnvironment (tree : FileTree) (environment : Environment) (script : Option Text) (verbose : Bool)
    (workingDirectory : Option Text) : Except Failure Settings := do
  let node := (environment.get? nodeVariable).getD (lit "node")
  let script ← match given? script <|> environment.get? scriptVariable with
    | some path => .ok path
    | none =>
      match ← findScript? tree ((given? workingDirectory).getD tree.workingDirectory) with
      | some path => .ok path
      | none => .error .noServer
  return { command := [node, script], workingDirectory, verbose }

end Settings

end DiagnosticsClient
