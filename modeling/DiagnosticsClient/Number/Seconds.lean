import DiagnosticsClient.Text.Quoted
/-
Spans of time as they are given: a whole or a binary number of seconds.

A span keeps the form it came in, because messages show it.
-/
namespace DiagnosticsClient

/-- A number of seconds. -/
inductive Seconds where
  | whole (n : Int)
  | real (x : Binary64)
deriving DecidableEq

namespace Seconds

/-- A span as a binary number. -/
def toBinary : Seconds → Binary64
  | .whole n => .ofInt n
  | .real x => x

/-- A span as a binary number, unless it is a whole number beyond all of them. -/
def toBinary? (span : Seconds) : Option Binary64 :=
  match span with
  | .whole n =>
    match Binary64.ofInt n with
    | .infinite _ => none
    | x => some x
  | .real x => some x

/-- Whether a span has no room for anything: it is zero or less. -/
def isOver : Seconds → Bool
  | .whole n => n ≤ 0
  | .real x => x.le (.zero false)

/-- How a message shows a span. -/
def text : Seconds → Text
  | .whole n => Text.ofInt n
  | .real x => x.render Json.quotedNumbers

end Seconds

end DiagnosticsClient
