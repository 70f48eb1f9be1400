import DiagnosticsClient.Text.Basic
/-
White space, in two sets, and what is left of a text without it.

The Unicode property has the tab, the line breaks and the spaces of every
width. The wider set has the four information separators as well.
-/
namespace DiagnosticsClient

/-- The Unicode property of white space. -/
def CodePoint.isWhite (c : CodePoint) : Bool :=
  let n := c.val
  (0x09 ≤ n && n ≤ 0x0D) || n = 0x20 || n = 0x85 || n = 0xA0 || n = 0x1680 || (0x2000 ≤ n && n ≤ 0x200A) ||
    n = 0x2028 || n = 0x2029 || n = 0x202F || n = 0x205F || n = 0x3000

/-- White space or an information separator. -/
def CodePoint.isBlank (c : CodePoint) : Bool := c.isWhite || (0x1C ≤ c.val && c.val ≤ 0x1F)

namespace Text

/-- A text without the code points of a set at its end. -/
def dropEndWhile (p : CodePoint → Bool) (t : Text) : Text := (t.reverse.dropWhile p).reverse

/-- A text without the code points of a set at either end. -/
def trim (p : CodePoint → Bool) (t : Text) : Text := dropEndWhile p (t.dropWhile p)

/-- Whether nothing of a text is left without blanks. -/
def isBlank (t : Text) : Bool := t.all CodePoint.isBlank

end Text

end DiagnosticsClient
