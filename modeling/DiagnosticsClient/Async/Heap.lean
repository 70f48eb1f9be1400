/-
Binary heaps in arrays.

The children of place `i` are at places `2 * i + 1` and `2 * i + 2`, and no
entry is above its parent. Entries that compare alike leave in the order this
arrangement gives them, which is not the order they came in.
-/
namespace DiagnosticsClient

namespace Heap

variable {α : Type}

/-- Moves the entry `x`, meant for place `pos`, up past every greater parent. `fuel` bounds the height. -/
def bubble (below : α → α → Bool) (x : α) : (fuel pos : Nat) → Array α → Array α
  | 0, pos, heap => heap.setIfInBounds pos x
  | fuel + 1, pos, heap =>
    if pos = 0 then heap.setIfInBounds pos x
    else
      let parent := (pos - 1) / 2
      match heap[parent]? with
      | some p =>
        if below x p then bubble below x fuel parent (heap.setIfInBounds pos p) else heap.setIfInBounds pos x
      | none => heap.setIfInBounds pos x

/-- Moves the lesser child up into each place from `pos` down to a leaf; gives that leaf. -/
def sink (below : α → α → Bool) : (fuel pos : Nat) → Array α → Nat × Array α
  | 0, pos, heap => (pos, heap)
  | fuel + 1, pos, heap =>
    let left := 2 * pos + 1
    match heap[left]?, heap[left + 1]? with
    | none, _ => (pos, heap)
    | some l, none => sink below fuel left (heap.setIfInBounds pos l)
    | some l, some r =>
      if below l r then sink below fuel left (heap.setIfInBounds pos l)
      else sink below fuel (left + 1) (heap.setIfInBounds pos r)

/-- Adds an entry. -/
def push (below : α → α → Bool) (heap : Array α) (x : α) : Array α :=
  bubble below x heap.size heap.size (heap.push x)

/-- Takes the least entry out. -/
def pop? (below : α → α → Bool) (heap : Array α) : Option (α × Array α) :=
  match heap[0]?, heap.back? with
  | some first, some last =>
    let rest := heap.pop
    if rest.size = 0 then some (first, rest)
    else
      let (leaf, rest) := sink below rest.size 0 rest
      some (first, bubble below last rest.size leaf rest)
  | _, _ => none

end Heap

end DiagnosticsClient
