import DiagnosticsClient.Report.Record
import DiagnosticsClient.Report.Style
import DiagnosticsClient.Text.Extent
/-
The report for a terminal.

Each diagnostic has a header with its place, its category and its code, and
under it the code it is about. Each row of code has its line number in a gutter
of one width; under a line that the diagnostic spans a row of tildes marks the
part it spans. A diagnostic whose rows would be too long has no text. The
totals of each category come last.
-/
namespace DiagnosticsClient

namespace Console

/-- A code as it is shown. -/
def codeText : Option Int → Text
  | some n => Text.ofInt n
  | none => lit "None"

/-- The first line of a diagnostic. -/
def header (theme : Theme) (file : Text) (d : Diagnostic) : Text :=
  theme.fileName file ++
    theme.place (pt ':' :: (Text.ofInt d.start.line ++ pt ':' :: Text.ofInt d.start.offset)) ++
    lit " - " ++ theme.category d.category d.category ++
    theme.code (lit " TS" ++ codeText d.code ++ lit ": ") ++ d.text

/-- The width of the gutter. -/
def gutterWidth (d : Diagnostic) (context : Context) : Except ExtentFault Nat :=
  (Text.decimal? (d.stop.line + context.after)).map List.length

/-- A text with blanks in front, up to a width. -/
def padLeft (width : Nat) (t : Text) : Text := List.replicate (width - t.length) (pt ' ') ++ t

/-- The row of a line. -/
def lineRow (theme : Theme) (width : Nat) (number : Int) (line : Text) : Except ExtentFault Text :=
  (Text.decimal? number).map fun number => theme.lineNumber (padLeft width number) ++ pt ' ' :: line

/-- The row that marks the columns from `first` to before `last`. -/
def markRow (theme : Theme) (category : Text) (width : Nat) (first last : Int) : Except ExtentFault Text := do
  let blanks ← Text.copies? (pt ' ') first
  let tildes ← Text.copies? (pt '~') (max (last - first) 0)
  return theme.lineNumber (List.replicate width (pt ' ')) ++ pt ' ' :: theme.category category (blanks ++ tildes)

/-- The columns that are marked under a line, for each row of marks it has. `isFirst` says that the diagnostic starts in
the line. -/
def marks (d : Diagnostic) (number : Int) (isFirst : Bool) (line : Text) : List (Int × Int) :=
  let first := if isFirst then d.start.offset - 1 else 0
  (if d.start.line ≤ number && number < d.stop.line then [(first, (line.length : Int))] else []) ++
    (if number = d.stop.line then [(first, d.stop.offset - 1)] else [])

/-- The rows of the line at an index of a fragment, of which the first `before` lines are context. -/
def lineRows (theme : Theme) (d : Diagnostic) (width : Nat) (before : Int) (line : Text) (index : Nat) :
    Except ExtentFault (List Text) := do
  let number := (index : Int) - before + d.start.line
  let row ← lineRow theme width number line
  let markRows ← (marks d number (index == before) line).mapM fun (first, last) =>
    markRow theme d.category width first last
  return row :: markRows

/-- The rows of a fragment of code. -/
def rows (theme : Theme) (d : Diagnostic) (code : List Text) (context : Context) : Except ExtentFault (List Text) := do
  let width ← gutterWidth d context
  let before := min (d.start.line - 1) context.before
  let rows ← code.zipIdx.mapM fun (line, index) => lineRows theme d width before line index
  return rows.flatten

/-- A fragment of code with its gutter and marks. -/
def fragment (theme : Theme) (d : Diagnostic) (code : List Text) (context : Context) : Except ExtentFault Text :=
  (rows theme d code context).map (Text.join [pt '\n'])

/-- A diagnostic with its code. -/
def message (theme : Theme) (file : Text) (d : Diagnostic) (code : List Text) (context : Context) :
    Except ExtentFault Text :=
  (fragment theme d code context).map fun code => Text.join [pt '\n'] [header theme file d, [], code, []]

/-- Each diagnostic of a record with its code; one without code has none. -/
def recordMessages (theme : Theme) (r : Record) : List (Except ExtentFault Text) :=
  r.diagnostics.zipIdx.map fun (d, index) => message theme r.file d ((r.code[index]?).getD []) r.context

/-! ## Totals -/

/-- Counts one more of a category; a new category comes last. -/
def count (category : Text) : List (Text × Nat) → List (Text × Nat)
  | [] => [(category, 1)]
  | (c, n) :: rest => if c = category then (c, n + 1) :: rest else (c, n) :: count category rest

/-- How many diagnostics of each category there are, in the order in which the categories appear. -/
def counters (records : List Record) : List (Text × Nat) :=
  (records.flatMap (·.diagnostics)).foldl (fun counters d => count d.category counters) []

def totals (records : List Record) : List Text :=
  (counters records).map fun (category, n) => lit "Total " ++ category ++ lit "s: " ++ Text.ofNat n

/-! ## The report -/

/-- The pieces of a report, each of which ends a line. -/
def pieces (theme : Theme) (records : List Record) : List (Except ExtentFault Text) :=
  records.flatMap (recordMessages theme) ++ (totals records).map .ok

/-- The pieces as they are printed, each with its line end: in colours, or without anything that looks like a style. -/
def printed (inColour : Bool) (records : List Record) : List (Except ExtentFault Text) :=
  (pieces Theme.coloured records).map fun piece =>
    piece.map fun t => (if inColour then t else Style.strip t) ++ [pt '\n']

/-- All that is printed. -/
def report (inColour : Bool) (records : List Record) : Except ExtentFault Text :=
  ((printed inColour records).mapM id).map List.flatten

end Console

end DiagnosticsClient
