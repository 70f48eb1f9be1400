import DiagnosticsClient.CommandLine.Similar
import DiagnosticsClient.CommandLine.Usage
import DiagnosticsClient.File.Walk
import DiagnosticsClient.Number.Reading
import DiagnosticsClient.Source.Fragment
/-
Reading a command line.

First the arguments are sorted into options with their values and operands;
then the values are read, in the order in which their options first appear.
The first error ends either. The last value of an option counts, but every
`--files` does.
-/
namespace DiagnosticsClient

/-! ## Sorting the arguments -/

/-- The options that were given, in order, and the operands. -/
structure Sorted where
  given : List (Switch × Text) := []
  operands : List Text := []

namespace Sorted

def dash : CodePoint := pt '-'

/-- Adds an option. -/
def give (s : Sorted) (option : Switch) (value : Text) : Sorted := { s with given := s.given ++ [(option, value)] }

/-- Adds an operand. -/
def operand (s : Sorted) (t : Text) : Sorted := { s with operands := s.operands ++ [t] }

/-- What follows a step: the options so far and the arguments that are left. -/
abbrev Step := Except UsageError (Sorted × List Text)

/-- A long option, with the value in its argument if there is one. -/
def long (s : Sorted) (option : Switch) (name : Text) (value : Option Text) (rest : List Text) : Step :=
  if option.takesValue then
    match value, rest with
    | some value, rest => .ok (s.give option value, rest)
    | none, value :: rest => .ok (s.give option value, rest)
    | none, [] => .error (.missingValue name)
  else
    match value with
    | some _ => .error (.unexpectedValue name)
    | none => .ok (s.give option [], rest)

/-- The letters of an argument; one that takes a value takes the rest of them, or the next argument. -/
def short (s : Sorted) : (letters : Text) → (rest : List Text) → Step
  | [], rest => .ok (s, rest)
  | c :: letters, rest =>
    match Switch.ofShort? c with
    | none => .error (.noSuchOption [dash, c] [])
    | some option =>
      if option.takesValue then
        match letters, rest with
        | [], value :: rest => .ok (s.give option value, rest)
        | [], [] => .error (.missingValue [dash, c])
        | letters, rest => .ok (s.give option letters, rest)
      else short (s.give option []) letters rest

/-- The name of a long option, and the value after its equals sign. -/
def splitValue (argument : Text) : Text × Option Text :=
  let name := argument.takeWhile (· ≠ pt '=')
  match argument.dropWhile (· ≠ pt '=') with
  | _ :: value => (name, some value)
  | [] => (name, none)

/-- An argument that begins with a dash. -/
def option (s : Sorted) (argument : Text) (rest : List Text) : Step :=
  let (name, value) := splitValue argument
  match Switch.ofLong? name with
  | some option => s.long option name value rest
  | none =>
    match argument with
    | _ :: second :: letters =>
      if second = dash then .error (.noSuchOption name (Similar.closest name (Switch.all.map Switch.longName)))
      else s.short (second :: letters) rest
    | _ => .ok (s.operand argument, rest)

/-- Sorts arguments; after two dashes all are operands. Each step takes an argument, so `fuel` counts them. -/
def sortWithin : (fuel : Nat) → Sorted → List Text → Except UsageError Sorted
  | 0, s, _ => .ok s
  | _, s, [] => .ok s
  | fuel + 1, s, argument :: rest =>
    if argument = [dash, dash] then .ok { s with operands := s.operands ++ rest }
    else if argument.head? = some dash && argument.length ≠ 1 then
      match s.option argument rest with
      | .ok (s, rest) => sortWithin fuel s rest
      | .error e => .error e
    else sortWithin fuel (s.operand argument) rest

/-- Sorts arguments. -/
def ofArguments (arguments : List Text) : Except UsageError Sorted := sortWithin arguments.length {} arguments

/-- The last value of an option. -/
def value? (s : Sorted) (option : Switch) : Option Text :=
  (s.given.reverse.find? fun entry => entry.1 == option).map (·.2)

/-- All values of an option. -/
def values (s : Sorted) (option : Switch) : List Text :=
  (s.given.filter fun entry => entry.1 == option).map (·.2)

def has (s : Sorted) (option : Switch) : Bool := s.given.any fun entry => entry.1 == option

/-- The options that were given, each once, in the order of their first appearance. -/
def order (s : Sorted) : List Switch := (s.given.map (·.1)).eraseDups

end Sorted

/-! ## Reading the values -/

/-- What a command line asks for. -/
structure Options where
  files : List Text := []
  noColour : Bool := false
  context : Context := {}
  report : Option Text := none
  verbose : Bool := false
  limit : Option Binary64 := none
  script : Option Text := none

/-- Why the values of a command line cannot be read. -/
inductive OptionError where
  | usage (e : UsageError)
  | failed (f : Failure)

namespace Options

/-- A number of lines. -/
def lineCount (t : Text) : Except ValueError Int :=
  match Written.whole? t with
  | none => .error (.notWhole t)
  | some n => if n < 0 then .error (.outOfRange (Text.ofInt n) (lit "x>=0")) else .ok n

/-- A number of seconds, which is not zero or less. -/
def timeLimit (t : Text) : Except ValueError Binary64 :=
  match Written.real? t with
  | none => .error (.notReal t)
  | some x => if x.le (.zero false) then .error (.outOfRange (x.render Json.quotedNumbers) (lit "x>0")) else .ok x

/-- A path to a file, which perhaps has to be there. -/
def filePath (tree : FileTree) (mustExist : Bool) (option : Switch) (t : Text) : Except OptionError Unit :=
  match tree.stat t with
  | .ok (.directory _) => .error (.usage (.badValue option (.isDirectory t)))
  | .ok _ => .ok ()
  | .error (.system _) => if mustExist then .error (.usage (.badValue option (.missingFile t))) else .ok ()
  | .error f => .error (.failed f)

/-- Reads the value of an option. -/
def read (tree : FileTree) (o : Options) (option : Switch) (value : Text) : Except OptionError Options :=
  let flawed {α : Type} (e : Except ValueError α) : Except OptionError α :=
    e.mapError fun e => .usage (.badValue option e)
  match option with
  | .file | .help => .ok o
  | .noColour => .ok { o with noColour := true }
  | .verbose => .ok { o with verbose := true }
  | .linesBefore => do
    let n ← flawed (lineCount value)
    return { o with context := { o.context with before := n } }
  | .linesAfter => do
    let n ← flawed (lineCount value)
    return { o with context := { o.context with after := n } }
  | .limit => do
    let x ← flawed (timeLimit value)
    return { o with limit := some x }
  | .report => do
    filePath tree false option value
    return { o with report := some value }
  | .script => do
    filePath tree true option value
    return { o with script := some value }

/-- Reads the values of options in turn. -/
def readAll (tree : FileTree) (s : Sorted) : List Switch → Options → Except OptionError Options
  | [], o => .ok o
  | option :: rest, o => do readAll tree s rest (← read tree o option ((s.value? option).getD []))

/-- What a sorted command line asks for. -/
def ofSorted (tree : FileTree) (s : Sorted) : Except OptionError Options :=
  readAll tree s s.order { files := s.operands ++ s.values .file }

end Options

/-! ## File names -/

/-- The file names among values, each once, in the order of their first appearance. -/
def uniqueFilesFrom (seen : List Text) : List Json → Except UsageError (List Text)
  | [] => .ok seen.reverse
  | v :: rest =>
    match v with
    | .str file =>
      if file.isBlank then .error (.badFileName v)
      else uniqueFilesFrom (if seen.contains file then seen else file :: seen) rest
    | v => .error (.badFileName v)

/-- The file names among values, each once; a blank one is no file name, nor is a value that is no text. -/
def uniqueFiles (values : List Json) : Except UsageError (List Text) := uniqueFilesFrom [] values

end DiagnosticsClient
