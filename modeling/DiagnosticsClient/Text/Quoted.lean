import DiagnosticsClient.Json.Printer
import DiagnosticsClient.Text.Printable
/-
Names and values as messages quote them.

A text stands between single quotes, or between double quotes where it holds a
single quote and no double one. Inside, the quote itself, backslashes, line
breaks and everything that leaves no mark are escaped. Values inside brackets
are quoted the same way all through.
-/
namespace DiagnosticsClient

namespace Text

/-- A code point inside quotes. -/
def quotedPoint (quote : CodePoint) (c : CodePoint) : Text :=
  if c = quote || c = pt '\\' then [pt '\\', c]
  else if c = pt '\n' then lit "\\n"
  else if c = pt '\r' then lit "\\r"
  else if c = pt '\t' then lit "\\t"
  else if c.isPrintable then [c]
  else c.escaped

/-- A text between quotes. -/
def quoted (t : Text) : Text :=
  let quote := if t.contains (pt '\'') && !t.contains (pt '"') then pt '"' else pt '\''
  quote :: (t.flatMap (quotedPoint quote) ++ [quote])

end Text

namespace Json

/-- Numbers as messages quote them. -/
def quotedNumbers : DecimalStyle :=
  { plainNumbers with notANumber := lit "nan", infinity := lit "inf", negativeInfinity := lit "-inf" }

mutual
/-- A value between its quotes or brackets. -/
def quoted : Json → Text
  | .null => lit "None"
  | .bool b => if b then lit "True" else lit "False"
  | .int n => Text.ofInt n
  | .float x => x.render quotedNumbers
  | .str t => t.quoted
  | .arr vs => pt '[' :: (Text.join (lit ", ") (quotedItems vs) ++ lit "]")
  | .obj fs => pt '\x7b' :: (Text.join (lit ", ") (quotedFields fs) ++ lit "\x7d")

def quotedItems : List Json → List Text
  | [] => []
  | v :: vs => quoted v :: quotedItems vs

def quotedFields : List (Text × Json) → List Text
  | [] => []
  | (name, v) :: fs => (name.quoted ++ lit ": " ++ quoted v) :: quotedFields fs
end

/-- A value as it stands in a message: a text as it is, everything else quoted. -/
def plain : Json → Text
  | .str t => t
  | v => v.quoted

/-- The octets of half a surrogate pair, each shown as a replacement character. -/
def shownPoint (c : CodePoint) : Text :=
  if c.isSurrogate then List.replicate 3 (.ofNat 0xFFFD) else [c]

/-- A value as it is shown: a text as it is, everything else quoted. -/
def shown : Json → Text
  | .str t => t.flatMap shownPoint
  | v => v.quoted.flatMap shownPoint

end Json

end DiagnosticsClient
