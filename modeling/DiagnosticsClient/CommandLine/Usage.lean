import DiagnosticsClient.File.Octets
import DiagnosticsClient.Text.Quoted
/-
The options of the command, and what is wrong with a command line.

An option that takes a value has one in the same argument or in the next. A
short option is one letter, and several may share an argument.
-/
namespace DiagnosticsClient

/-- An option. -/
inductive Switch where
  | file
  | noColour
  | linesBefore
  | linesAfter
  | report
  | verbose
  | limit
  | script
  | help
deriving DecidableEq

namespace Switch

def all : List Switch := [.file, .noColour, .linesBefore, .linesAfter, .report, .verbose, .limit, .script, .help]

def longName : Switch → Text
  | .file => lit "--files"
  | .noColour => lit "--no-color"
  | .linesBefore => lit "--code-lines-before"
  | .linesAfter => lit "--code-lines-after"
  | .report => lit "--gitlab-report"
  | .verbose => lit "--verbose"
  | .limit => lit "--timeout"
  | .script => lit "--tsserver"
  | .help => lit "--help"

def shortName? : Switch → Option CodePoint
  | .linesBefore => some (pt 'b')
  | .linesAfter => some (pt 'a')
  | .verbose => some (pt 'v')
  | .help => some (pt 'h')
  | _ => none

def takesValue : Switch → Bool
  | .noColour | .verbose | .help => false
  | _ => true

/-- The names of an option, as messages give them. -/
def names (s : Switch) : Text :=
  match s.shortName? with
  | some c => s.longName.quoted ++ lit " / " ++ Text.quoted [pt '-', c]
  | none => s.longName.quoted

/-- The option of a long name. -/
def ofLong? (name : Text) : Option Switch := all.find? fun s => s.longName == name

/-- The option of a letter. -/
def ofShort? (c : CodePoint) : Option Switch := all.find? fun s => s.shortName? == some c

end Switch

/-- What is wrong with the value of an option. -/
inductive ValueError where
  | notWhole (t : Text)
  | notReal (t : Text)
  /-- It is not in the range that is named. -/
  | outOfRange (value range : Text)
  | missingFile (t : Text)
  | isDirectory (t : Text)
deriving DecidableEq

def ValueError.message : ValueError → Text
  | .notWhole t => t.quoted ++ lit " is not a valid integer range."
  | .notReal t => t.quoted ++ lit " is not a valid float range."
  | .outOfRange value range => value ++ lit " is not in the range " ++ range ++ lit "."
  | .missingFile t => lit "File " ++ (Path.shown t).quoted ++ lit " does not exist."
  | .isDirectory t => lit "File " ++ (Path.shown t).quoted ++ lit " is a directory."

/-- What is wrong with a command line. -/
inductive UsageError where
  /-- There is no such option; the names given are close to it. -/
  | noSuchOption (name : Text) (similar : List Text)
  | missingValue (name : Text)
  | unexpectedValue (name : Text)
  | badValue (option : Switch) (e : ValueError)
  /-- A value is no file name. -/
  | badFileName (v : Json)

namespace UsageError

def message : UsageError → Text
  | .noSuchOption name similar =>
    lit "No such option " ++ name.quoted ++ lit "." ++
      (match similar with
        | [] => []
        | [one] => lit " Did you mean " ++ one.quoted ++ lit "?"
        | several => lit " (Did you mean one of: " ++ Text.join (lit ", ") (several.map Text.quoted) ++ lit "?)")
  | .missingValue name => lit "Option " ++ name.quoted ++ lit " requires an argument."
  | .unexpectedValue name => lit "Option " ++ name.quoted ++ lit " does not take a value."
  | .badValue option e => lit "Invalid value for " ++ option.names ++ lit ": " ++ e.message
  | .badFileName v => lit "Invalid file name: " ++ v.quoted

/-- Whether the usage is shown with an error. -/
def showsUsage : UsageError → Bool
  | .missingValue _ | .unexpectedValue _ => false
  | _ => true

/-- What is printed about an error. -/
def report (e : UsageError) : Text :=
  (if e.showsUsage then lit "Usage: main [OPTIONS] [FILES]...\nTry 'main --help' for help.\n\n" else []) ++
    lit "Error: " ++ e.message ++ lit "\n"

end UsageError

/-- The text of the help. -/
def helpText : Text := lit "Usage: main [OPTIONS] [FILES]...

  Checking types for the passed list of files.

Options:
  --files TEXT                    A file for type checking (repeatable)
  --no-color                      Disable colors for output
  -b, --code-lines-before INTEGER RANGE
                                  Print <number> lines of code before error
                                  [x>=0]
  -a, --code-lines-after INTEGER RANGE
                                  Print <number> lines of code after error
                                  [x>=0]
  --gitlab-report FILE            Path to gitlab code quality report file
  -v, --verbose                   Run with verbose logging
  --timeout FLOAT RANGE           Seconds to wait for tsserver to answer each
                                  file (default: no limit)  [x>0]
  --tsserver FILE                 Path to tsserver.js (default:
                                  node_modules/typescript/lib/tsserver.js)
  -h, --help                      Show this message and exit.
"

end DiagnosticsClient
