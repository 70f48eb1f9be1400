import DiagnosticsClient.Text.Basic
/-
Texts whose length hangs on a number.

A number is written only if its digits are within the limit of digits. Copies
of a code point are counted by a word of 64 bits with a sign, and there are
only as many as memory holds; a negative count gives none.
-/
namespace DiagnosticsClient

-- powers are the core library's, whatever other ones are in scope
attribute [local instance (high)] instPowNat

/-- Why there is no text of a number, or of a length. -/
inductive ExtentFault where
  | tooManyDigits
  /-- No word counts so many. -/
  | uncountable
  /-- No memory holds so many. -/
  | unholdable
deriving DecidableEq

namespace ExtentFault

/-- The name of the kind of a fault. -/
def kind : ExtentFault → Text
  | .tooManyDigits => lit "ValueError"
  | .uncountable => lit "OverflowError"
  | .unholdable => lit "MemoryError"

def message : ExtentFault → Text
  | .tooManyDigits =>
    lit "Exceeds the limit (" ++ Text.ofNat Text.digitLimit ++
      lit " digits) for integer string conversion; use sys.set_int_max_str_digits() to increase the limit"
  | .uncountable => lit "cannot fit 'int' into an index-sized integer"
  | .unholdable => []

end ExtentFault

namespace Text

/-- A number in decimal, within the limit of digits. -/
def decimal? (n : Int) : Except ExtentFault Text :=
  if (ofNat n.natAbs).length ≤ digitLimit then .ok (ofInt n) else .error .tooManyDigits

/-- How many copies memory holds. -/
def copyLimit : Int := 2 ^ (32 : Nat)

/-- `n` copies of one code point; a negative number gives none. -/
def copies? (c : CodePoint) (n : Int) : Except ExtentFault Text :=
  if n < -(2 ^ (63 : Nat)) ∨ 2 ^ (63 : Nat) ≤ n then .error .uncountable
  else if copyLimit ≤ n then .error .unholdable
  else .ok (List.replicate n.toNat c)

end Text

end DiagnosticsClient
