/-
Double-precision numbers by value.

A finite number is a sign, a mantissa and a power of two, in the one form the
format gives it: the mantissa below 2^53, and at least 2^52 unless the
exponent is the least one. `round` takes an exact ratio to the nearest such
number, a tie to the even mantissa; addition and the reading of decimals are
that rounding of an exact result. There is one not-a-number.
-/
namespace DiagnosticsClient

-- powers are the core library's, whatever other ones are in scope
attribute [local instance (high)] instPowNat

/-- The least power of two a mantissa is multiplied by. -/
def Binary64.minExponent : Int := -1074

/-- The greatest power of two a mantissa is multiplied by. -/
def Binary64.maxExponent : Int := 971

/-- The mantissa and exponent the format stores a number with. -/
def Binary64.Canonical (mantissa : Nat) (exponent : Int) : Prop :=
  mantissa < 2 ^ (53 : Nat) ∧ Binary64.minExponent ≤ exponent ∧ exponent ≤ Binary64.maxExponent ∧
    (exponent = Binary64.minExponent ∨ 2 ^ (52 : Nat) ≤ mantissa)

instance (m : Nat) (e : Int) : Decidable (Binary64.Canonical m e) :=
  inferInstanceAs (Decidable (_ ∧ _ ∧ _ ∧ _))

/-- A double-precision number. -/
inductive Binary64 where
  | nan
  | infinite (negative : Bool)
  | finite (negative : Bool) (mantissa : Nat) (exponent : Int) (canonical : Binary64.Canonical mantissa exponent)
deriving DecidableEq

namespace Binary64

/-- Zero with a sign. -/
def zero (negative : Bool) : Binary64 := .finite negative 0 minExponent (by decide)

instance : Inhabited Binary64 := ⟨zero false⟩

/-- The quotient rounded to the nearest number, a tie to the even one. -/
def roundDiv (num den : Nat) : Nat :=
  let q := num / den
  let r := num % den
  if 2 * r < den then q
  else if 2 * r = den then q + q % 2
  else q + 1

/-- The number of a mantissa that may just have reached 2^53; past the greatest exponent it is infinite. -/
def ofParts (negative : Bool) (m : Nat) (e : Int) : Binary64 :=
  let (m, e) := if m = 2 ^ (53 : Nat) then (2 ^ (52 : Nat), e + 1) else (m, e)
  if h : Canonical m e then .finite negative m e h else .infinite negative

/-- The greatest exponent at which a ratio has a mantissa of at least 2^52, if that is not below the least one. -/
def exponentOf (num den : Nat) : Int :=
  let guess : Int := (num.log2 : Int) - den.log2 - 52
  -- the ratio lies between 2^(guess + 51) and 2^(guess + 53)
  let scaled := if 0 ≤ guess then num < den * 2 ^ (52 + guess).toNat else num * 2 ^ (-guess).toNat < den * 2 ^ (52 : Nat)
  max minExponent (if scaled then guess - 1 else guess)

/-- The number nearest to `num / den`; `den` is not zero. -/
def round (negative : Bool) (num den : Nat) : Binary64 :=
  if num = 0 then zero negative
  else
    let e := exponentOf num den
    let m := if 0 ≤ e then roundDiv num (den * 2 ^ e.toNat) else roundDiv (num * 2 ^ (-e).toNat) den
    ofParts negative m e

/-- The number nearest to `digits * 10 ^ exponent`. -/
def ofDecimal (negative : Bool) (digits : Nat) (exponent : Int) : Binary64 :=
  if digits = 0 then zero negative
  else
    let magnitude : Int := (Nat.toDigits 10 digits).length + exponent
    if magnitude > 310 then .infinite negative
    else if magnitude < -330 then zero negative
    else if 0 ≤ exponent then round negative (digits * 10 ^ exponent.toNat) 1
    else round negative digits (10 ^ (-exponent).toNat)

/-- The number nearest to an integer. -/
def ofInt (n : Int) : Binary64 := ofDecimal (n < 0) n.natAbs 0

/-- The integer a finite number is equal to, if it is whole. -/
def toInt? : Binary64 → Option Int
  | .finite negative m e _ =>
    let signed (n : Nat) : Int := if negative then -(n : Int) else n
    if 0 ≤ e then some (signed (m * 2 ^ e.toNat))
    else
      let unit : Nat := 2 ^ (-e).toNat
      if m % unit = 0 then some (signed (m / unit)) else none
  | _ => none

/-- A finite number as a multiple of the least positive one. -/
def scaled (negative : Bool) (m : Nat) (e : Int) : Int :=
  let n : Int := m * 2 ^ (e - minExponent).toNat
  if negative then -n else n

/-- The sum, rounded once. -/
def add : Binary64 → Binary64 → Binary64
  | .nan, _ | _, .nan => .nan
  | .infinite s, .infinite t => if s = t then .infinite s else .nan
  | .infinite s, .finite .. | .finite .., .infinite s => .infinite s
  | .finite s m e _, .finite t n f _ =>
    let sum := scaled s m e + scaled t n f
    if sum = 0 then zero (s && t)
    else round (sum < 0) sum.natAbs (2 ^ (1074 : Nat))

/-- Whether one number is below another; nothing is above or below not-a-number. -/
def lt : Binary64 → Binary64 → Bool
  | .nan, _ | _, .nan => false
  | .infinite s, .infinite t => s && !t
  | .infinite s, .finite .. => s
  | .finite .., .infinite t => !t
  | .finite s m e _, .finite t n f _ => scaled s m e < scaled t n f

/-- Whether one number is at most another. -/
def le (x y : Binary64) : Bool :=
  match x, y with
  | .nan, _ | _, .nan => false
  | _, _ => !lt y x

/-- Whether a number is zero, of either sign. -/
def isZero : Binary64 → Bool
  | .finite _ m _ _ => m = 0
  | _ => false

/-- The number a stored form of 64 bits stands for. -/
def ofBits (bits : Nat) : Binary64 :=
  let negative : Bool := bits / 2 ^ (63 : Nat) % 2 = 1
  let biased : Nat := bits / 2 ^ (52 : Nat) % 2 ^ (11 : Nat)
  let fraction := bits % 2 ^ (52 : Nat)
  if biased = 2047 then (if fraction = 0 then .infinite negative else .nan)
  else
    let (m, e) : Nat × Int :=
      if biased = 0 then (fraction, minExponent) else (2 ^ (52 : Nat) + fraction, (biased : Int) - 1075)
    if h : Canonical m e then .finite negative m e h else .nan

/-- The stored form of a number, as a number below 2^64. -/
def toBits : Binary64 → Nat
  | .nan => 0x7FF8000000000000
  | .infinite negative => sign negative + 2047 * 2 ^ (52 : Nat)
  | .finite negative m e _ =>
    if m < 2 ^ (52 : Nat) then sign negative + m
    else sign negative + (e + 1075).toNat * 2 ^ (52 : Nat) + (m - 2 ^ (52 : Nat))
where
  sign (negative : Bool) : Nat := if negative then 2 ^ (63 : Nat) else 0

end Binary64

end DiagnosticsClient
