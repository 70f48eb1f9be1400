import DiagnosticsClient.Number.Binary64
import DiagnosticsClient.Text.Blank
/-
Numbers as people write them.

White space around a number is ignored, a single underscore may stand between two
digits, and the decimal digits of every script count. A whole number has an
optional sign and at most `Text.digitLimit` digits; a real one may have a
point and an exponent, or be a word for infinity or for no number.
-/
namespace DiagnosticsClient

namespace Written

/-- The zeros of the scripts that have decimal digits; the other nine follow each of them. -/
def zeros : Array Nat := #[
  0x30, 0x660, 0x6F0, 0x7C0, 0x966, 0x9E6, 0xA66, 0xAE6, 0xB66, 0xBE6, 0xC66, 0xCE6, 0xD66, 0xDE6, 0xE50,
  0xED0, 0xF20, 0x1040, 0x1090, 0x17E0, 0x1810, 0x1946, 0x19D0, 0x1A80, 0x1A90, 0x1B50, 0x1BB0, 0x1C40,
  0x1C50, 0xA620, 0xA8D0, 0xA900, 0xA9D0, 0xA9F0, 0xAA50, 0xABF0, 0xFF10, 0x104A0, 0x10D30, 0x11066, 0x110F0,
  0x11136, 0x111D0, 0x112F0, 0x11450, 0x114D0, 0x11650, 0x116C0, 0x11730, 0x118E0, 0x11950, 0x11C50, 0x11D50,
  0x11DA0, 0x16A60, 0x16AC0, 0x16B50, 0x1D7CE, 0x1D7D8, 0x1D7E2, 0x1D7EC, 0x1D7F6, 0x1E140, 0x1E2F0, 0x1E950,
  0x1FBF0]

/-- The value of a decimal digit of any script. -/
def digit? (c : CodePoint) : Option Nat :=
  if c.val < 0x80 then (if c.isDigit then some c.digitValue else none)
  else (zeros.find? fun first => first ≤ c.val && c.val < first + 10).map (c.val - ·)

/-- A text with every digit as an ASCII one. -/
def asciiDigits (t : Text) : Text :=
  t.map fun c => match digit? c with
    | some n => .ofNat (0x30 + n)
    | none => c

/-- A text without the underscores that stand between two digits; another underscore makes it no number. -/
def dropUnderscores? (afterDigit : Bool) : Text → Option Text
  | [] => some []
  | c :: rest =>
    if c = pt '_' then
      match rest with
      | d :: _ => if afterDigit && d.isDigit then dropUnderscores? false rest else none
      | [] => none
    else (dropUnderscores? c.isDigit rest).map (c :: ·)

/-- The characters of a number: its digits are ASCII, and there is nothing between them or around it. -/
def bare? (t : Text) : Option Text := dropUnderscores? false (asciiDigits (Text.trim CodePoint.isWhite t))

/-- Whether a number has a minus sign, and what follows its sign. -/
def signed : Text → Bool × Text
  | [] => (false, [])
  | c :: rest => if c = pt '-' then (true, rest) else if c = pt '+' then (false, rest) else (false, c :: rest)

/-- A whole number. -/
def whole? (t : Text) : Option Int := do
  let (negative, digits) := signed (← bare? t)
  if digits = [] || !digits.all CodePoint.isDigit || Text.digitLimit < digits.length then none
  else
    let n : Int := Text.decimalValue digits
    some (if negative then -n else n)

/-- The exponent of a real number: the number after its mark, or zero where there is no mark. -/
def exponent? : Text → Option Int
  | [] => some 0
  | mark :: rest =>
    if mark = pt 'e' || mark = pt 'E' then
      let (negative, digits) := signed rest
      if digits = [] || !digits.all CodePoint.isDigit then none
      else
        let n : Int := Text.decimalValue digits
        some (if negative then -n else n)
    else none

/-- The digits before and after the point, and what follows them. -/
def mantissa (t : Text) : Text × Text × Text :=
  let before := t.takeWhile CodePoint.isDigit
  match t.dropWhile CodePoint.isDigit with
  | c :: rest =>
    if c = pt '.' then (before, rest.takeWhile CodePoint.isDigit, rest.dropWhile CodePoint.isDigit)
    else (before, [], c :: rest)
  | [] => (before, [], [])

/-- A real number. -/
def real? (t : Text) : Option Binary64 := do
  let (negative, t) := signed (← bare? t)
  let word := t.toAsciiLower
  if word = lit "inf" || word = lit "infinity" then some (.infinite negative)
  else if word = lit "nan" then some .nan
  else
    let (before, after, rest) := mantissa t
    if before = [] && after = [] then none
    else
      let exponent ← exponent? rest
      some (.ofDecimal negative (Text.decimalValue (before ++ after)) (exponent - after.length))

end Written

end DiagnosticsClient
