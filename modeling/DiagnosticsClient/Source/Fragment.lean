import DiagnosticsClient.Message.Diagnostic
/-
The lines of a source file around a diagnostic.

A line ends at a line feed, a carriage return or both together. A fragment is
the lines a diagnostic spans and some lines of context above and below.
-/
namespace DiagnosticsClient

/-- How many lines are shown above and below a diagnostic. -/
structure Context where
  before : Int := 0
  after : Int := 0
deriving DecidableEq

namespace Source

/-- A text in which every line ends with a line feed alone. -/
def unifyLineEnds : Text → Text
  | [] => []
  | [c] => if c = pt '\r' then [pt '\n'] else [c]
  | c :: d :: rest =>
    if c = pt '\r' then
      if d = pt '\n' then pt '\n' :: unifyLineEnds rest else pt '\n' :: unifyLineEnds (d :: rest)
    else c :: unifyLineEnds (d :: rest)

/-- The parts of a text between its line feeds. -/
def cutAtLineFeeds (t : Text) : List Text := t.splitOn (pt '\n')

/-- The lines of a text. -/
def lines (t : Text) : List Text := cutAtLineFeeds (unifyLineEnds t)

/-- Lines `start` to `stop`, counted from one, with their context. The context ends with the file; a last line before
the first one counts from the end of the file. -/
def sliceLines (lines : List Text) (start stop : Int) (context : Context) : List Text :=
  let first := max (start - 1 - context.before) 0
  let last := min (stop + context.after) lines.length
  let last := if last < 0 then max (last + lines.length) 0 else last
  (lines.take last.toNat).drop first.toNat

/-- The fragment of each diagnostic. -/
def fragments (content : Text) (diagnostics : List Diagnostic) (context : Context) : List (List Text) :=
  let lines := lines content
  diagnostics.map fun d => sliceLines lines d.lines.1 d.lines.2 context

/-- The fragments of diagnostics in a file that may not be readable; without diagnostics that does not matter. -/
def fragmentsOf {ε : Type} (content : Except ε Text) (diagnostics : List Diagnostic) (context : Context) :
    Except ε (List (List Text)) :=
  if diagnostics.isEmpty then .ok [] else content.map fun content => fragments content diagnostics context

end Source

end DiagnosticsClient
