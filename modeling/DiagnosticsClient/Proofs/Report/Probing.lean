import Mathlib.Data.List.Perm.Basic
import Mathlib.Data.Set.Insert
/-
Probing for a free slot.

Every slot leads to a next one. A key starts at a slot of its own and takes the first
free one on its way. Which slots are taken in the end does not depend on the order in
which the keys come (`occupied_perm`): of two keys that meet at a free slot one stays
and the other goes on, and the ways on are the same.

A search that looks at no more slots than are taken finds the free one, if there is
one, as long as the way never comes back to a slot it has left (`occupy_slot`).
-/
namespace DiagnosticsClient

namespace Probing

variable {α : Type} {next : α → α} {taken : Set α} {x y z : α} {size : α → Nat}

/-- The first free slot on the way from one slot is another. -/
inductive Lands (next : α → α) (taken : Set α) : α → α → Prop
  | free {x : α} (h : x ∉ taken) : Lands next taken x x
  | onward {x y : α} (h : x ∈ taken) (hl : Lands next taken (next x) y) : Lands next taken x y

/-- The slots that are taken once a key that starts at `x` has come, which takes none if all are taken on its way. -/
def occupy (next : α → α) (taken : Set α) (x : α) : Set α := taken ∪ {y | Lands next taken x y}

theorem Lands.notMem (h : Lands next taken x y) : y ∉ taken := by
  induction h with
  | free h => exact h
  | onward _ _ ih => exact ih

theorem Lands.unique (h : Lands next taken x y) (h' : Lands next taken x z) : y = z := by
  induction h with
  | free h =>
    cases h' with
    | free => rfl
    | onward h' => exact absurd h' h
  | onward h _ ih =>
    cases h' with
    | free h' => exact absurd h h'
    | onward _ hl => exact ih hl

theorem occupy_of_lands (h : Lands next taken x y) : occupy next taken x = insert y taken := by
  ext z
  constructor
  · rintro (hz | hz)
    · exact .inr hz
    · exact .inl (hz.unique h)
  · rintro (rfl | hz)
    · exact .inr h
    · exact .inl hz

theorem occupy_of_forall_not (h : ∀ y, ¬ Lands next taken x y) : occupy next taken x = taken := by
  ext z
  exact ⟨fun hz => hz.elim id fun hz => absurd hz (h z), .inl⟩

/-! ## Two keys -/

/-- A slot that is taken elsewhere changes nothing on the way. -/
theorem Lands.insert_of_ne (h : Lands next taken x y) (hne : y ≠ z) : Lands next (insert z taken) x y := by
  induction h with
  | free h => exact .free fun hmem => hmem.elim hne h
  | onward h _ ih => exact .onward (.inr h) (ih hne)

/-- Who finds the free slot taken goes on from there. -/
theorem Lands.through (h : Lands next taken x z) (h' : Lands next (insert z taken) z y) :
    Lands next (insert z taken) x y := by
  induction h with
  | free => exact h'
  | onward h _ ih => exact .onward (.inr h) (ih h')

/-- Once a slot is taken, a way ends where it did before, or it ended at that slot and goes on from there. -/
theorem Lands.of_insert (h : Lands next (insert z taken) x y) :
    Lands next taken x y ∨ Lands next taken x z ∧ Lands next (insert z taken) z y := by
  induction h with
  | free h => exact .inl (.free fun hmem => h (.inr hmem))
  | @onward x y hx hl ih =>
    by_cases hold : x ∈ taken
    · exact ih.imp (.onward hold) fun ⟨hz, hy⟩ => ⟨.onward hold hz, hy⟩
    · obtain rfl : x = z := hx.resolve_right hold
      exact .inr ⟨.free hold, .onward hx hl⟩

theorem occupy_occupy_subset (x y : α) :
    occupy next (occupy next taken x) y ⊆ occupy next (occupy next taken y) x := by
  rintro z ((hz | hz) | hz)
  · exact .inl (.inl hz)
  · -- the first key has taken the slot
    by_cases hsame : z ∈ occupy next taken y
    · exact .inl hsame
    · refine .inr ?_
      by_cases hy : ∃ v, Lands next taken y v
      · obtain ⟨v, hv⟩ := hy
        rw [occupy_of_lands hv] at hsame ⊢
        exact hz.insert_of_ne fun heq => hsame (.inl heq)
      · rw [occupy_of_forall_not fun v hv => hy ⟨v, hv⟩]
        exact hz
  · -- the second one has
    by_cases hx : ∃ u, Lands next taken x u
    · obtain ⟨u, hu⟩ := hx
      rw [occupy_of_lands hu] at hz
      rcases hz.of_insert with hz | ⟨hyu, hz⟩
      · exact .inl (.inr hz)
      · rw [occupy_of_lands hyu]
        exact .inr (hu.through hz)
    · rw [occupy_of_forall_not fun u hu => hx ⟨u, hu⟩] at hz
      exact .inl (.inr hz)

/-- Of two keys, either may come first. -/
instance : RightCommutative (occupy next) where
  right_comm _ x y := Set.Subset.antisymm (occupy_occupy_subset x y) (occupy_occupy_subset y x)

/-- **The slots that keys take do not depend on their order.** -/
theorem occupied_perm {xs ys : List α} (h : xs.Perm ys) (taken : Set α) :
    xs.foldl (occupy next) taken = ys.foldl (occupy next) taken :=
  h.foldl_eq taken

/-! ## Looking at a few slots -/

/-- The slot at which a search from `x` ends: the first free one, or the last one it looks at. -/
def slot [DecidableEq α] (next : α → α) (taken : List α) : (fuel : Nat) → α → α
  | 0, x => x
  | fuel + 1, x => if x ∈ taken then slot next taken fuel (next x) else x

/-- The next slot is a greater one, unless the way ends. -/
def Grows (next : α → α) (size : α → Nat) : Prop := ∀ x, next x = x ∨ size x < size (next x)

theorem not_lands_of_fixed (hx : x ∈ taken) (hnext : next x = x) : ¬ Lands next taken x y := by
  intro h
  generalize heq : x = w at h
  induction h with
  | free h => exact h (heq ▸ hx)
  | onward _ _ ih =>
    subst heq
    exact ih hnext.symm

variable {ts : List α} {fuel : Nat}

theorem slot_of_fixed [DecidableEq α] (hnext : next x = x) : slot next ts fuel x = x := by
  induction fuel with
  | zero => rfl
  | succ fuel ih =>
    unfold slot
    split
    · rw [hnext, ih]
    · rfl

/-- The next slot has fewer taken ones before it. -/
theorem countP_lt_of_mem (hx : x ∈ ts) (hlt : size x < size y) :
    ts.countP (fun t => size y ≤ size t) < ts.countP fun t => size x ≤ size t := by
  induction ts with
  | nil => cases hx
  | cons t ts ih =>
    have hle : ts.countP (fun t => size y ≤ size t) ≤ ts.countP fun t => size x ≤ size t :=
      List.countP_mono_left fun s _ h => by simp only [decide_eq_true_eq] at h ⊢; omega
    rw [List.countP_cons, List.countP_cons]
    rcases List.mem_cons.mp hx with rfl | hmem
    · simp only [Nat.not_le.mpr hlt, decide_false, Bool.false_eq_true, if_false, le_refl, decide_true, if_true]
      omega
    · have := ih hmem
      by_cases hy : size y ≤ size t
      · simp only [hy, (Nat.le_of_lt hlt).trans hy, decide_true, if_true]
        omega
      · simp only [hy, decide_false, Bool.false_eq_true, if_false]
        omega

/-- A search ends at the free slot, or at a taken one if there is no free one on the way. -/
theorem slot_lands [DecidableEq α] (hg : Grows next size) (hfuel : ts.countP (fun t => size x ≤ size t) ≤ fuel) :
    Lands next {t | t ∈ ts} x (slot next ts fuel x) ∨
      slot next ts fuel x ∈ ts ∧ ∀ y, ¬ Lands next {t | t ∈ ts} x y := by
  induction fuel generalizing x with
  | zero =>
    refine .inl (.free fun hx => ?_)
    have hnone := List.countP_eq_zero.mp (Nat.le_zero.mp hfuel) x hx
    simp at hnone
  | succ fuel ih =>
    unfold slot
    split
    · next hx =>
      rcases hg x with hnext | hlt
      · rw [hnext, slot_of_fixed hnext]
        exact .inr ⟨hx, fun y => not_lands_of_fixed hx hnext⟩
      · have hless := countP_lt_of_mem hx hlt
        refine (ih (by omega)).imp (.onward hx) fun ⟨hmem, hnot⟩ => ⟨hmem, fun y hl => ?_⟩
        cases hl with
        | free h => exact h hx
        | onward _ hl => exact hnot y hl
    · next hx => exact .inl (.free hx)

/-- **A search that looks at no more slots than are taken occupies the right one.** -/
theorem occupy_slot [DecidableEq α] (hg : Grows next size) (x : α) :
    {t | t ∈ slot next ts ts.length x :: ts} = occupy next {t | t ∈ ts} x := by
  have hset : {t | t ∈ slot next ts ts.length x :: ts} = insert (slot next ts ts.length x) {t | t ∈ ts} := by
    ext t
    exact List.mem_cons
  rw [hset]
  rcases slot_lands hg List.countP_le_length with hl | ⟨hmem, hnot⟩
  · rw [occupy_of_lands hl]
  · rw [occupy_of_forall_not hnot, Set.insert_eq_of_mem (show _ ∈ {t | t ∈ ts} from hmem)]

/-! ## Many keys -/

/-- The slots that keys take one after the other. -/
def slots [DecidableEq α] (next : α → α) : (taken : List α) → List α → List α
  | _, [] => []
  | taken, x :: xs =>
    let s := slot next taken taken.length x
    s :: slots next (s :: taken) xs

theorem mem_slots [DecidableEq α] (hg : Grows next size) (xs : List α) {t : α} :
    t ∈ slots next ts xs ∨ t ∈ ts ↔ t ∈ xs.foldl (occupy next) {t | t ∈ ts} := by
  induction xs generalizing ts with
  | nil => simp [slots]
  | cons x xs ih =>
    rw [List.foldl_cons, ← occupy_slot hg, ← ih, slots, List.mem_cons, List.mem_cons, or_assoc, or_left_comm]

/-- **The same keys in another order take the same slots.** -/
theorem mem_slots_perm [DecidableEq α] (hg : Grows next size) {xs ys : List α} (h : xs.Perm ys) {t : α} :
    t ∈ slots next [] xs ↔ t ∈ slots next [] ys := by
  have hslots : ∀ zs, t ∈ slots next [] zs ↔ t ∈ zs.foldl (occupy next) {t | t ∈ ([] : List α)} := fun zs => by
    rw [← mem_slots hg]
    simp only [List.not_mem_nil, or_false]
  rw [hslots, hslots, occupied_perm h]

end Probing

end DiagnosticsClient
