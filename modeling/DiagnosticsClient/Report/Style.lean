import DiagnosticsClient.Text.Basic
/-
Styles of a terminal.

A styled piece of text stands between an escape sequence that sets its style
and one that ends every style. `strip` takes control sequences of every kind out
of a text: an escape character, an opening bracket, parameters, intermediate
signs, and one final sign.
-/
namespace DiagnosticsClient

namespace Style

def escape : CodePoint := .ofNat 0x1B

/-- The sequence that sets a style. -/
def sequence (code : Nat) : Text := escape :: pt '[' :: (Text.ofNat code ++ [pt 'm'])

/-- A piece of text in a style. -/
def apply (code : Nat) (t : Text) : Text := sequence code ++ t ++ sequence 0

def brightBlack : Nat := 90

def brightRed : Nat := 91

def brightYellow : Nat := 93

def brightCyan : Nat := 96

/-- Foreground and background exchanged. -/
def reversed : Nat := 7

/-- Whether a code point is part of the parameters of a sequence. -/
def isParameter (c : CodePoint) : Bool := 0x30 ≤ c.val && c.val ≤ 0x3F

/-- Whether a code point may stand between the parameters of a sequence and its end. -/
def isIntermediate (c : CodePoint) : Bool := 0x20 ≤ c.val && c.val ≤ 0x2F

/-- Whether a code point ends a sequence. -/
def isFinal (c : CodePoint) : Bool := 0x40 ≤ c.val && c.val ≤ 0x7E

/-- What follows a sequence that starts after its escape character, if there is one. -/
def afterSequence? : Text → Option Text
  | c :: rest =>
    if c = pt '[' then
      match (rest.dropWhile isParameter).dropWhile isIntermediate with
      | last :: rest => if isFinal last then some rest else none
      | [] => none
    else none
  | [] => none

/-- A text without its sequences; `fuel` bounds its length. -/
def stripWithin : (fuel : Nat) → Text → Text
  | 0, t => t
  | _, [] => []
  | fuel + 1, c :: rest =>
    if c = escape then
      match afterSequence? rest with
      | some rest => stripWithin fuel rest
      | none => c :: stripWithin fuel rest
    else c :: stripWithin fuel rest

/-- A text without its sequences. -/
def strip (t : Text) : Text := stripWithin t.length t

end Style

/-- How the pieces of a report are set off. -/
structure Theme where
  fileName : Text → Text
  place : Text → Text
  code : Text → Text
  lineNumber : Text → Text
  category : (category : Text) → Text → Text

/-- Nothing is set off. -/
def Theme.plain : Theme := ⟨id, id, id, id, fun _ => id⟩

/-- The colour of a category. -/
def Theme.categoryColour (category : Text) : Nat :=
  if category = lit "error" then Style.brightRed
  else if category = lit "warning" then Style.brightYellow
  else if category = lit "suggestion" then Style.brightCyan
  else Style.brightBlack

/-- The colours of a terminal. -/
def Theme.coloured : Theme :=
  { fileName := Style.apply Style.brightCyan
    place := Style.apply Style.brightYellow
    code := Style.apply Style.brightBlack
    lineNumber := Style.apply Style.reversed
    category := fun category => Style.apply (Theme.categoryColour category) }

end DiagnosticsClient
