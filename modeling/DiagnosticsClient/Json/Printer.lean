import DiagnosticsClient.Json.Basic
import DiagnosticsClient.Number.Shortest
/-
The printer of JSON texts.

Only quotes, backslashes and control characters are escaped; everything else
stands for itself. A `Layout` says how items are separated, a `DecimalStyle`
how numbers are laid out, and a value is printed the same way in each of them
otherwise.
-/
namespace DiagnosticsClient

namespace Json

/-- A character inside a string. -/
def escape (c : CodePoint) : Text :=
  if c = pt '"' then lit "\\\""
  else if c = pt '\\' then lit "\\\\"
  else if c.val < 0x20 then
    if c.val = 0x08 then lit "\\b"
    else if c.val = 0x09 then lit "\\t"
    else if c.val = 0x0A then lit "\\n"
    else if c.val = 0x0C then lit "\\f"
    else if c.val = 0x0D then lit "\\r"
    else lit "\\u" ++ Text.hex 4 c.val
  else [c]

/-- A string between quotes. -/
def quote (t : Text) : Text := pt '"' :: (t.flatMap escape ++ lit "\"")

/-- What stands between the parts of a value: a line break with `indent` spaces a level, or nothing. -/
structure Layout where
  indent : Option Nat
  comma : Text
  colon : Text

/-- No space anywhere. -/
def Layout.compact : Layout := ⟨none, lit ",", lit ":"⟩

/-- One item a line, two spaces a level. -/
def Layout.indented : Layout := ⟨some 2, lit ",", lit ": "⟩

/-- The line break before an item at a level. -/
def Layout.newline (layout : Layout) (level : Nat) : Text :=
  match layout.indent with
  | none => []
  | some width => pt '\n' :: List.replicate (level * width) (pt ' ')

mutual
/-- A value at a level. -/
def renderAt (style : DecimalStyle) (layout : Layout) (level : Nat) : Json → Text
  | .null => lit "null"
  | .bool b => if b then lit "true" else lit "false"
  | .int n => Text.ofInt n
  | .float x => x.render style
  | .str t => quote t
  | .arr [] => lit "[]"
  | .arr (v :: vs) =>
    pt '[' :: (layout.newline (level + 1) ++ renderAt style layout (level + 1) v ++
      renderItems style layout (level + 1) vs ++ layout.newline level ++ lit "]")
  | .obj [] => lit "\x7b\x7d"
  | .obj (f :: fs) =>
    pt '\x7b' :: (layout.newline (level + 1) ++ renderField style layout (level + 1) f ++
      renderFields style layout (level + 1) fs ++ layout.newline level ++ lit "\x7d")

/-- The items after the first, each with its comma. -/
def renderItems (style : DecimalStyle) (layout : Layout) (level : Nat) : List Json → Text
  | [] => []
  | v :: vs =>
    layout.comma ++ (layout.newline level ++ (renderAt style layout level v ++ renderItems style layout level vs))

/-- A field: its name, a colon, its value. -/
def renderField (style : DecimalStyle) (layout : Layout) (level : Nat) : Text × Json → Text
  | (name, v) => quote name ++ layout.colon ++ renderAt style layout level v

/-- The fields after the first, each with its comma. -/
def renderFields (style : DecimalStyle) (layout : Layout) (level : Nat) : Fields → Text
  | [] => []
  | f :: fs =>
    layout.comma ++ (layout.newline level ++ (renderField style layout level f ++ renderFields style layout level fs))
end

/-- Numbers in a plain value: the point moves within sixteen places, an exponent has two digits. -/
def plainNumbers : DecimalStyle :=
  { leastPoint := -3
    greatestPoint := 16
    exponentWidth := 2
    notANumber := lit "NaN"
    infinity := lit "Infinity"
    negativeInfinity := lit "-Infinity" }

/-- Numbers in a message: one more place below one, an exponent as short as it is, and null for what is not finite. -/
def messageNumbers : DecimalStyle :=
  { leastPoint := -4
    greatestPoint := 16
    exponentWidth := 1
    notANumber := lit "null"
    infinity := lit "null"
    negativeInfinity := lit "null" }

/-- The text of a value. -/
def render (style : DecimalStyle) (layout : Layout) (v : Json) : Text := renderAt style layout 0 v

end Json

end DiagnosticsClient
