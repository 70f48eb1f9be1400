import DiagnosticsClient.Number.Binary64
import DiagnosticsClient.Text.Basic
/-
The shortest decimal of a double-precision number.

For one digit, two digits and so on, the number lies between two neighbours
on the decimal grid of that many digits. The first grid with a neighbour that
reads back as the number gives its digits; of two, the nearer one, a tie to
the even digit. Seventeen digits are always enough; past them the exact
expansion stands as the last resort, so that the text always reads back.

A `DecimalStyle` says how the digits are laid out.
-/
namespace DiagnosticsClient

-- powers are the core library's, whatever other ones are in scope
attribute [local instance (high)] instPowNat

namespace Shortest

/-- A positive number as `digits * 10 ^ exponent`. -/
structure Decimal where
  digits : Nat
  exponent : Int
deriving DecidableEq

/-- The ratio `m * 2 ^ e` as a numerator and a denominator. -/
def ratio (m : Nat) (e : Int) : Nat × Nat :=
  if 0 ≤ e then (m * 2 ^ e.toNat, 1) else (m, 2 ^ (-e).toNat)

/-- The number of decimal digits before the point of `num / den`; it is not positive for a number below one. -/
def pointOf (num den : Nat) : Int :=
  if den ≤ num then (Nat.toDigits 10 (num / den)).length
  else
    -- the least k with `den ≤ num * 10 ^ k` puts the first digit at place k
    let k := (Nat.toDigits 10 (den / num)).length - (if den % num = 0 && isPower (den / num) then 1 else 0)
    1 - (k : Int)
where
  /-- A one followed by zeros. -/
  isPower (n : Nat) : Bool := n = 10 ^ ((Nat.toDigits 10 n).length - 1)

/-- The neighbour of `num / den` on a grid that reads back as `x`, the nearer where both do. -/
def neighbour? (x : Binary64) (num den : Nat) (exponent : Int) : Option Decimal :=
  -- the number over the unit of the grid
  let (n, d) := if 0 ≤ exponent then (num, den * 10 ^ exponent.toNat) else (num * 10 ^ (-exponent).toNat, den)
  let below := n / d
  let twice := 2 * (n % d)
  let reads (k : Nat) : Bool := k ≠ 0 && Binary64.ofDecimal false k exponent == x
  let lower := reads below
  let upper := reads (below + 1)
  let down := twice < d || (twice = d && below % 2 = 0)
  if lower && (down || !upper) then some ⟨below, exponent⟩
  else if upper then some ⟨below + 1, exponent⟩
  else none

/-- The digits of the first grid that has a neighbour, from `used` digits on. -/
def search (x : Binary64) (num den : Nat) (point : Int) : (fuel used : Nat) → Option Decimal
  | 0, _ => none
  | fuel + 1, used =>
    match neighbour? x num den (point - used) with
    | some d => some d
    | none => search x num den point fuel (used + 1)

/-- The exact expansion of `m * 2 ^ e`. -/
def exact (m : Nat) (e : Int) : Decimal :=
  if 0 ≤ e then ⟨m * 2 ^ e.toNat, 0⟩ else ⟨m * 5 ^ (-e).toNat, e⟩

/-- The shortest decimal of a finite positive number. -/
def decimal (m : Nat) (e : Int) (h : Binary64.Canonical m e) : Decimal :=
  let (num, den) := ratio m e
  (search (.finite false m e h) num den (pointOf num den) 17 1).getD (exact m e)

end Shortest

/-- How a number is laid out: the places of the point that need no exponent, the least width of an exponent, and the
texts of the numbers that are not finite. -/
structure DecimalStyle where
  leastPoint : Int
  greatestPoint : Int
  exponentWidth : Nat
  notANumber : Text
  infinity : Text
  negativeInfinity : Text

namespace Shortest

/-- The digits without the zeros at their end, and how many those were. -/
def trimZeros (digits : Text) : Text × Nat :=
  let kept := (digits.reverse.dropWhile (· = pt '0')).reverse
  (kept, digits.length - kept.length)

/-- The exponent with its sign, padded to a width. -/
def exponentText (width : Nat) (e : Int) : Text :=
  let digits := Text.ofNat e.natAbs
  (if e < 0 then pt '-' else pt '+') :: (List.replicate (width - digits.length) (pt '0') ++ digits)

/-- The layout of a positive decimal. A point at place `p` has `p` digits before it. -/
def layout (style : DecimalStyle) (d : Decimal) : Text :=
  let (digits, dropped) := trimZeros (Text.ofNat d.digits)
  let point : Int := digits.length + dropped + d.exponent
  if style.leastPoint ≤ point && point ≤ style.greatestPoint then
    if point ≤ 0 then lit "0." ++ List.replicate (-point).toNat (pt '0') ++ digits
    else if (digits.length : Int) ≤ point then
      digits ++ List.replicate (point.toNat - digits.length) (pt '0') ++ lit ".0"
    else digits.take point.toNat ++ pt '.' :: digits.drop point.toNat
  else
    let mantissa := match digits with
      | first :: second :: rest => first :: pt '.' :: second :: rest
      | digits => digits
    mantissa ++ pt 'e' :: exponentText style.exponentWidth (point - 1)

end Shortest

/-- The text of a number in a style. -/
def Binary64.render (style : DecimalStyle) : Binary64 → Text
  | .nan => style.notANumber
  | .infinite false => style.infinity
  | .infinite true => style.negativeInfinity
  | .finite negative m e h =>
    (if negative then lit "-" else []) ++
      (if m = 0 then lit "0.0" else Shortest.layout style (Shortest.decimal m e h))

end DiagnosticsClient
