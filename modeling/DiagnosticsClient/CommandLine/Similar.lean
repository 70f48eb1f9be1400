import DiagnosticsClient.Text.Basic
/-
Names that look like another one.

Two texts are as similar as the code points they share in order: those of the
longest run that is in both, and likewise before it and after it. A name is
close to a word if at least six tenths of the code points of both are shared.
-/
namespace DiagnosticsClient

namespace Similar

/-- The length of the run that two texts begin with. -/
def sharedFront : Text → Text → Nat
  | c :: a, d :: b => if c = d then sharedFront a b + 1 else 0
  | _, _ => 0

/-- A run that is in two texts, and where. -/
structure Run where
  first : Nat
  second : Nat
  length : Nat

/-- The longest run of two texts; of those, the one that begins first, in the first text and then in the second. -/
def longestRun (a b : Text) : Run :=
  (List.range a.length).foldl (fun best i =>
    (List.range b.length).foldl (fun best j =>
      let length := sharedFront (a.drop i) (b.drop j)
      if best.length < length then ⟨i, j, length⟩ else best) best) ⟨0, 0, 0⟩

/-- How many code points two texts share; `fuel` bounds the number of runs. -/
def shared : (fuel : Nat) → Text → Text → Nat
  | 0, _, _ => 0
  | fuel + 1, a, b =>
    let run := longestRun a b
    if run.length = 0 then 0
    else
      shared fuel (a.take run.first) (b.take run.second) + run.length +
        shared fuel (a.drop (run.first + run.length)) (b.drop (run.second + run.length))

/-- Whether a name is close to a word. -/
def isClose (word name : Text) : Bool := 3 * (name.length + word.length) ≤ 10 * shared word.length name word

/-- Whether one text comes before another, by code points. -/
def textBefore : Text → Text → Bool
  | [], _ => true
  | _, [] => false
  | c :: a, d :: b => if c = d then textBefore a b else c.val < d.val

/-- Whether one name is no less similar to a word than another; of two that are alike the later in order is preferred. -/
def isCloser (word a b : Text) : Bool :=
  let left := shared word.length a word * (b.length + word.length)
  let right := shared word.length b word * (a.length + word.length)
  if left = right then textBefore b a else right < left

/-- The three names closest to a word, in order. -/
def closest (word : Text) (names : List Text) : List Text :=
  (((names.filter (isClose word)).mergeSort (isCloser word)).take 3).mergeSort textBefore

end Similar

end DiagnosticsClient
