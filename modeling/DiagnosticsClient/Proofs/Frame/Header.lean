import DiagnosticsClient.Frame.Basic
import Mathlib.Data.List.TakeWhile
/-
The headers of frames, as a grammar.

`Header.whole?` reads a header exactly where the grammar has one: the name, at
least one digit, and two line ends. `Header.mayGrow` holds of octets without a
whole header exactly when some octets after them would make one, so octets it
refuses stay refused whatever comes next.
-/
namespace DiagnosticsClient

namespace Header

/-- A line end: a line feed, with or without a carriage return. -/
def IsLineEnd (e : Bytes) : Prop := e = [lineFeed] ∨ e = [carriageReturn, lineFeed]

theorem lineEnd?_eq_some_iff {b : Bytes} {n : Nat} {rest : Bytes} :
    lineEnd? b = some (n, rest) ↔ ∃ e, IsLineEnd e ∧ b = e ++ rest ∧ n = e.length := by
  constructor
  · intro h
    unfold lineEnd? at h
    split at h
    · cases h
    split at h
    · next hb =>
      simp only [Option.some.injEq, Prod.mk.injEq] at h
      obtain ⟨rfl, rfl⟩ := h
      exact ⟨_, .inl rfl, by simp [hb], rfl⟩
    split at h
    · next hb =>
      split at h
      · cases h
      · split at h
        · next hb' =>
          simp only [Option.some.injEq, Prod.mk.injEq] at h
          obtain ⟨rfl, rfl⟩ := h
          exact ⟨_, .inr rfl, by simp [hb, hb'], rfl⟩
        · cases h
    · cases h
  · rintro ⟨e, rfl | rfl, rfl, rfl⟩
    · simp [lineEnd?]
    · simp [lineEnd?, lineFeed, carriageReturn]

theorem isDigit_lineFeed : isDigit lineFeed = false := by decide

theorem isDigit_carriageReturn : isDigit carriageReturn = false := by decide

theorem IsLineEnd.head_append {e : Bytes} (he : IsLineEnd e) (rest : Bytes) :
    ∀ c ∈ (e ++ rest).head?, isDigit c = false := by
  rcases he with rfl | rfl
  · simp [isDigit_lineFeed]
  · simp [isDigit_carriageReturn]

/-- A run of digits ends where something else begins. -/
theorem span_digits {ds r : Bytes} (hd : ∀ d ∈ ds, isDigit d = true) (hr : ∀ c ∈ r.head?, isDigit c = false) :
    (ds ++ r).takeWhile isDigit = ds ∧ (ds ++ r).dropWhile isDigit = r := by
  rw [List.takeWhile_append_of_pos hd, List.dropWhile_append_of_pos hd]
  cases r with
  | nil => simp
  | cons c r => simp [hr c (by simp)]

/-- What a whole header is: its name, its digits and two line ends. -/
structure Grammar (buffer : Bytes) (h : Whole) (e₁ e₂ : Bytes) : Prop where
  first : IsLineEnd e₁
  second : IsLineEnd e₂
  nonempty : h.digits ≠ []
  digits : ∀ d ∈ h.digits, isDigit d = true
  buffer : buffer = name ++ (h.digits ++ (e₁ ++ (e₂ ++ h.rest)))
  size : h.size = name.length + h.digits.length + e₁.length + e₂.length

/-- **A header is read where the grammar has one**, and nowhere else. -/
theorem whole?_eq_some_iff {buffer : Bytes} {h : Whole} :
    whole? buffer = some h ↔ ∃ e₁ e₂, Grammar buffer h e₁ e₂ := by
  constructor
  · intro hw
    unfold whole? at hw
    split at hw
    · next hname =>
      obtain ⟨tail, rfl⟩ := List.isPrefixOf_iff_prefix.mp hname
      simp only [List.drop_left] at hw
      split at hw
      · cases hw
      · next hne =>
        split at hw
        · cases hw
        · next h₁ =>
          split at hw
          · cases hw
          · next h₂ =>
            cases hw
            obtain ⟨e₁, he₁, hd₁, rfl⟩ := lineEnd?_eq_some_iff.mp h₁
            obtain ⟨e₂, he₂, rfl, rfl⟩ := lineEnd?_eq_some_iff.mp h₂
            refine ⟨e₁, e₂, he₁, he₂, hne, fun d hd => List.mem_takeWhile_imp hd, ?_, rfl⟩
            rw [← hd₁, List.takeWhile_append_dropWhile]
    · cases hw
  · rintro ⟨e₁, e₂, g⟩
    obtain ⟨digits, size, rest⟩ := h
    obtain ⟨he₁, he₂, hne, hd, rfl, hsize⟩ := g
    simp only at hne hd hsize
    subst hsize
    have hname : name.isPrefixOf (name ++ (digits ++ (e₁ ++ (e₂ ++ rest)))) = true := by simp
    have h₁ : lineEnd? (e₁ ++ (e₂ ++ rest)) = some (e₁.length, e₂ ++ rest) :=
      lineEnd?_eq_some_iff.mpr ⟨e₁, he₁, rfl, rfl⟩
    have h₂ : lineEnd? (e₂ ++ rest) = some (e₂.length, rest) := lineEnd?_eq_some_iff.mpr ⟨e₂, he₂, rfl, rfl⟩
    obtain ⟨hd', hr'⟩ := span_digits hd (he₁.head_append (e₂ ++ rest))
    simp only [whole?, hname, if_true, List.drop_left, hd', hr', hne, if_false, h₁, h₂]

/-- A header is there whatever comes after it. -/
theorem whole?_append {a b : Bytes} {h : Whole} (hw : whole? a = some h) :
    whole? (a ++ b) = some { h with rest := h.rest ++ b } := by
  obtain ⟨e₁, e₂, g⟩ := whole?_eq_some_iff.mp hw
  refine whole?_eq_some_iff.mpr ⟨e₁, e₂, g.first, g.second, g.nonempty, g.digits, ?_, g.size⟩
  rw [g.buffer]
  simp only [List.append_assoc]

/-- The octets of a header and what follows them. -/
theorem length_whole? {buffer : Bytes} {h : Whole} (hw : whole? buffer = some h) :
    h.size + h.rest.length = buffer.length ∧ name.length < h.size := by
  obtain ⟨e₁, e₂, g⟩ := whole?_eq_some_iff.mp hw
  have hpos : 0 < h.digits.length := List.length_pos_iff.mpr g.nonempty
  rw [g.buffer, g.size]
  simp only [List.length_append]
  omega

theorem drop_whole? {buffer : Bytes} {h : Whole} (hw : whole? buffer = some h) : buffer.drop h.size = h.rest := by
  obtain ⟨e₁, e₂, g⟩ := whole?_eq_some_iff.mp hw
  rw [g.buffer, g.size]
  have : name ++ (h.digits ++ (e₁ ++ (e₂ ++ h.rest))) = (name ++ h.digits ++ e₁ ++ e₂) ++ h.rest := by
    simp only [List.append_assoc]
  rw [this, List.drop_left' (by simp only [List.length_append])]

/-! ## Headers that have not arrived -/

/-- What two line ends can begin with, short of both. -/
theorem mem_lineEndStarts {r b e₁ e₂ rest : Bytes} (h₁ : IsLineEnd e₁) (h₂ : IsLineEnd e₂)
    (h : r ++ b = e₁ ++ (e₂ ++ rest)) (hn : ∀ s, r ≠ e₁ ++ (e₂ ++ s)) : r ∈ lineEndStarts := by
  rcases h₁ with rfl | rfl <;> rcases h₂ with rfl | rfl <;>
    rcases r with _ | ⟨c₁, _ | ⟨c₂, _ | ⟨c₃, _ | ⟨c₄, r⟩⟩⟩⟩ <;>
    simp_all [lineEndStarts, lineFeed, carriageReturn]

theorem head_lineEndStarts {r : Bytes} (h : r ∈ lineEndStarts) : ∀ c ∈ r.head?, isDigit c = false := by
  simp only [lineEndStarts, List.mem_cons, List.not_mem_nil, or_false] at h
  rcases h with rfl | rfl | rfl | rfl | rfl | rfl <;> simp [isDigit_lineFeed, isDigit_carriageReturn]

/-- What is left of two line ends that have begun. -/
theorem completes_lineEndStarts {r : Bytes} (h : r ∈ lineEndStarts) :
    ∃ b e₁ e₂, IsLineEnd e₁ ∧ IsLineEnd e₂ ∧ r ++ b = e₁ ++ (e₂ ++ []) := by
  simp only [lineEndStarts, List.mem_cons, List.not_mem_nil, or_false] at h
  rcases h with rfl | rfl | rfl | rfl | rfl | rfl
  · exact ⟨[lineFeed, lineFeed], _, _, .inl rfl, .inl rfl, rfl⟩
  · exact ⟨[lineFeed, lineFeed], _, _, .inr rfl, .inl rfl, rfl⟩
  · exact ⟨[lineFeed], _, _, .inl rfl, .inl rfl, rfl⟩
  · exact ⟨[lineFeed], _, _, .inr rfl, .inl rfl, rfl⟩
  · exact ⟨[lineFeed], _, _, .inl rfl, .inr rfl, rfl⟩
  · exact ⟨[lineFeed], _, _, .inr rfl, .inr rfl, rfl⟩

/-- A shortest whole header. -/
theorem whole?_zero : (whole? (name ++ [48, lineFeed, lineFeed])).isSome = true := by decide

/-- Octets that may grow become a header when the right ones follow. -/
theorem exists_whole?_of_mayGrow {a : Bytes} (h : mayGrow a = true) : ∃ b, (whole? (a ++ b)).isSome = true := by
  unfold mayGrow at h
  split at h
  · obtain ⟨c, hc⟩ := List.isPrefixOf_iff_prefix.mp h
    exact ⟨c ++ [48, lineFeed, lineFeed], by rw [← List.append_assoc, hc]; exact whole?_zero⟩
  · simp only [Bool.and_eq_true, decide_eq_true_eq] at h
    obtain ⟨⟨hname, hne⟩, hstart⟩ := h
    obtain ⟨tail, rfl⟩ := List.isPrefixOf_iff_prefix.mp hname
    rw [List.drop_left] at hne hstart
    obtain ⟨b, e₁, e₂, he₁, he₂, hb⟩ := completes_lineEndStarts (List.contains_iff_mem.mp hstart)
    refine ⟨b, Option.isSome_iff_exists.mpr
      ⟨⟨tail.takeWhile isDigit, name.length + (tail.takeWhile isDigit).length + e₁.length + e₂.length, []⟩, whole?_eq_some_iff.mpr
        ⟨e₁, e₂, he₁, he₂, hne, fun d hd => List.mem_takeWhile_imp hd, ?_, rfl⟩⟩⟩
    rw [← hb, ← List.append_assoc (tail.takeWhile isDigit), List.takeWhile_append_dropWhile, List.append_assoc]

/-- Octets that become a header when others follow, and are none yet, may grow. -/
theorem mayGrow_of_whole?_append {a b : Bytes} (ha : whole? a = none) (h : (whole? (a ++ b)).isSome = true) :
    mayGrow a = true := by
  obtain ⟨w, hw⟩ := Option.isSome_iff_exists.mp h
  obtain ⟨e₁, e₂, g⟩ := whole?_eq_some_iff.mp hw
  unfold mayGrow
  split
  · next hle =>
    refine List.isPrefixOf_iff_prefix.mpr ?_
    exact List.prefix_of_prefix_length_le (List.prefix_append a b) (g.buffer ▸ List.prefix_append _ _) hle
  · next hlt =>
    have hname : name <+: a :=
      List.prefix_of_prefix_length_le (g.buffer ▸ List.prefix_append _ _) (List.prefix_append a b) (by omega)
    obtain ⟨tail, rfl⟩ := hname
    have htail : tail ++ b = w.digits ++ (e₁ ++ (e₂ ++ w.rest)) := by
      have := g.buffer
      rwa [List.append_assoc, List.append_cancel_left_eq] at this
    have hshort : ∀ r, tail = w.digits ++ r → r ++ b = e₁ ++ (e₂ ++ w.rest) → r ∈ lineEndStarts := by
      intro r htail' hr
      refine mem_lineEndStarts g.first g.second hr fun s hs => ?_
      have : whole? (name ++ tail) = some { w with rest := s } :=
        whole?_eq_some_iff.mpr ⟨e₁, e₂, g.first, g.second, g.nonempty, g.digits, by rw [htail', hs], g.size⟩
      rw [ha] at this
      cases this
    have key : tail.takeWhile isDigit ≠ [] ∧ tail.dropWhile isDigit ∈ lineEndStarts := by
      rcases List.append_eq_append_iff.mp htail with ⟨c, hc, -⟩ | ⟨r, hr, hrb⟩
      · -- Only digits have come.
        have hall : ∀ d ∈ tail, isDigit d = true := fun d hd => g.digits d (hc ▸ List.mem_append_left _ hd)
        obtain ⟨ht, hd⟩ := span_digits (r := []) hall (by simp)
        rw [List.append_nil] at ht hd
        rw [ht, hd]
        refine ⟨fun h => hlt ?_, by simp [lineEndStarts]⟩
        simp [h]
      · have hmem := hshort r hr hrb.symm
        obtain ⟨ht, hd⟩ := span_digits (r := r) g.digits (head_lineEndStarts hmem)
        rw [hr, ht, hd]
        exact ⟨g.nonempty, hmem⟩
    simp only [Bool.and_eq_true, decide_eq_true_eq, List.drop_left]
    exact ⟨⟨by simp, key.1⟩, List.contains_iff_mem.mpr key.2⟩

/-- **Octets without a whole header may grow exactly when some octets after them make one.** -/
theorem mayGrow_iff_exists_whole? {a : Bytes} (ha : whole? a = none) :
    mayGrow a = true ↔ ∃ b, (whole? (a ++ b)).isSome = true :=
  ⟨exists_whole?_of_mayGrow, fun ⟨_, h⟩ => mayGrow_of_whole?_append ha h⟩

/-- Octets that can never be a header stay so. -/
theorem not_mayGrow_append {a b : Bytes} (ha : whole? a = none) (hg : mayGrow a = false) :
    whole? (a ++ b) = none ∧ mayGrow (a ++ b) = false := by
  have hno : ∀ c, whole? (a ++ c) = none := by
    intro c
    by_contra h
    rw [mayGrow_of_whole?_append ha (Option.isSome_iff_ne_none.mpr h)] at hg
    cases hg
  refine ⟨hno b, ?_⟩
  by_contra h
  obtain ⟨c, hc⟩ := exists_whole?_of_mayGrow (Bool.not_eq_false _ ▸ h)
  rw [List.append_assoc, hno] at hc
  cases hc

end Header

end DiagnosticsClient
