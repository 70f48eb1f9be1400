/-
Text as the list of its code points.

A JSON escape can denote half of a surrogate pair and nothing else in its
string, so a text here is a list of code points, surrogates included, and
not a `String`. Everything the client reads, compares and prints is such a
text; `lit` gives the text of a literal.
-/
namespace DiagnosticsClient

/-- A Unicode code point; a surrogate is one too. -/
structure CodePoint where
  val : Nat
  valid : val < 0x110000 := by decide
deriving DecidableEq

namespace CodePoint

instance : Inhabited CodePoint := ⟨⟨0xFFFD, by decide⟩⟩

/-- The code point of a number; a number past the last one gives the replacement character. -/
def ofNat (n : Nat) : CodePoint :=
  if h : n < 0x110000 then ⟨n, h⟩ else ⟨0xFFFD, by decide⟩

/-- The code point of a character. -/
def ofChar (c : Char) : CodePoint := ofNat c.toNat

/-- The first half of a surrogate pair. -/
def isHighSurrogate (c : CodePoint) : Bool := 0xD800 ≤ c.val && c.val ≤ 0xDBFF

/-- The second half of a surrogate pair. -/
def isLowSurrogate (c : CodePoint) : Bool := 0xDC00 ≤ c.val && c.val ≤ 0xDFFF

/-- Half of a surrogate pair: no encoding has a form for it on its own. -/
def isSurrogate (c : CodePoint) : Bool := 0xD800 ≤ c.val && c.val ≤ 0xDFFF

/-- The code point a surrogate pair stands for. -/
def ofSurrogates (high low : CodePoint) : CodePoint :=
  ofNat (0x10000 + (high.val - 0xD800) * 0x400 + (low.val - 0xDC00))

/-- An ASCII digit. -/
def isDigit (c : CodePoint) : Bool := 0x30 ≤ c.val && c.val ≤ 0x39

/-- The value of an ASCII digit. -/
def digitValue (c : CodePoint) : Nat := c.val - 0x30

/-- The value of a hexadecimal digit, of either case. -/
def hexValue? (c : CodePoint) : Option Nat :=
  if c.isDigit then some (c.val - 0x30)
  else if 0x61 ≤ c.val && c.val ≤ 0x66 then some (c.val - 0x61 + 10)
  else if 0x41 ≤ c.val && c.val ≤ 0x46 then some (c.val - 0x41 + 10)
  else none

/-- The small letter of an ASCII capital; everything else is kept. -/
def toAsciiLower (c : CodePoint) : CodePoint :=
  if 0x41 ≤ c.val && c.val ≤ 0x5A then ofNat (c.val + 0x20) else c

/-- The character of a code point, where it is one. -/
def toChar? (c : CodePoint) : Option Char :=
  if h : c.val.isValidChar then some (Char.ofNatAux c.val h) else none

end CodePoint

/-- A text: its code points in order. -/
abbrev Text := List CodePoint

/-- A sequence of octets. -/
abbrev Bytes := List UInt8

/-- The text of a string. -/
def lit (s : String) : Text := s.toList.map CodePoint.ofChar

/-- The code point of a character, for comparing with a literal one. -/
abbrev pt (c : Char) : CodePoint := CodePoint.ofChar c

/-- The octets of an ASCII string. -/
def asciiBytes (s : String) : Bytes := s.toList.map fun c => UInt8.ofNat c.toNat

namespace Text

/-- The greatest number of digits of a number that is read from a text or written into one. -/
def digitLimit : Nat := 4300

/-- A number in decimal. -/
def ofNat (n : Nat) : Text := (Nat.toDigits 10 n).map CodePoint.ofChar

/-- An integer in decimal, with a minus sign where it is negative. -/
def ofInt : Int → Text
  | .ofNat n => ofNat n
  | .negSucc n => pt '-' :: ofNat (n + 1)

/-- A digit below sixteen, in small letters. -/
def hexDigit (n : Nat) : CodePoint :=
  if n < 10 then .ofNat (0x30 + n) else .ofNat (0x61 + n - 10)

/-- The last `width` hexadecimal digits of a number. -/
def hex : (width : Nat) → Nat → Text
  | 0, _ => []
  | width + 1, n => hex width (n / 16) ++ [hexDigit (n % 16)]

/-- The value of a run of decimal digits. -/
def decimalValue (digits : Text) : Nat :=
  digits.foldl (fun value c => value * 10 + c.digitValue) 0

/-- A text with every ASCII capital made small. -/
def toAsciiLower (t : Text) : Text := t.map CodePoint.toAsciiLower

/-- The parts joined, with `sep` between neighbours. -/
def join (sep : Text) : List Text → Text
  | [] => []
  | [t] => t
  | t :: rest => t ++ sep ++ join sep rest

/-- The text up to its first line feed. -/
def firstLine (t : Text) : Text := t.takeWhile (· ≠ pt '\n')

/-- Whether `part` occurs in a text. -/
def hasPart (part : Text) : Text → Bool
  | [] => part.isEmpty
  | c :: rest => part.isPrefixOf (c :: rest) || hasPart part rest

/-- The string of a text; a surrogate, which no string holds, becomes the replacement character. -/
def asString (t : Text) : String :=
  String.ofList (t.map fun c => c.toChar?.getD '\uFFFD')

end Text

/-- A code point as an escape of two, four or eight hexadecimal digits. -/
def CodePoint.escaped (c : CodePoint) : Text :=
  if c.val < 0x100 then lit "\\x" ++ Text.hex 2 c.val
  else if c.val < 0x10000 then lit "\\u" ++ Text.hex 4 c.val
  else lit "\\U" ++ Text.hex 8 c.val

end DiagnosticsClient
