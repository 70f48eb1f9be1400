import Mathlib.Data.List.TakeWhile
import DiagnosticsClient.Number.Shortest
import DiagnosticsClient.Proofs.Number.Rounding
/-
The shortest decimal reads back.

A grid gives a neighbour only if that reads as the number; where no grid of
seventeen digits does, the exact expansion stands, whose ratio is the number
itself. So whichever is taken, the decimal is read as the number it is of
(`decimal_reads`). A layout moves the point and drops the zeros at the end,
and neither changes what the digits and the exponent are read as.
-/
namespace DiagnosticsClient

namespace Shortest

open Binary64 (Canonical ofDecimal magnitude)

variable {m : Nat} {e : Int}

/-! ## The digits -/

theorem neighbour?_reads {x : Binary64} {num den : Nat} {exponent : Int} {d : Decimal}
    (h : neighbour? x num den exponent = some d) : d.digits ≠ 0 ∧ ofDecimal false d.digits d.exponent = x := by
  unfold neighbour? at h
  generalize (if 0 ≤ exponent then (num, den * 10 ^ exponent.toNat) else (num * 10 ^ (-exponent).toNat, den)) = ratio at h
  obtain ⟨n, d'⟩ := ratio
  dsimp only at h
  split at h
  · next hd =>
    obtain rfl := Option.some.inj h
    simpa using (Bool.and_eq_true_iff.mp hd).1
  · split at h
    · next hu =>
      obtain rfl := Option.some.inj h
      simpa using hu
    · cases h

theorem search_reads {x : Binary64} {num den : Nat} {point : Int} {fuel used : Nat} {d : Decimal}
    (h : search x num den point fuel used = some d) : d.digits ≠ 0 ∧ ofDecimal false d.digits d.exponent = x := by
  induction fuel generalizing used with
  | zero => cases h
  | succ fuel ih =>
    rw [search] at h
    split at h
    · next d' hd =>
      cases h
      exact neighbour?_reads hd
    · exact ih h

/-- The exact expansion as a ratio is the number. -/
theorem exact_ratio (m : Nat) (e : Int) : ((exact m e).digits : ℚ) * 10 ^ (exact m e).exponent = m * 2 ^ e := by
  unfold exact
  split
  · next he =>
    push_cast
    rw [mul_one, ← zpow_natCast, Int.toNat_of_nonneg he]
  · next he =>
    obtain ⟨k, rfl⟩ : ∃ k : Nat, e = -(k : Int) := ⟨(-e).toNat, by omega⟩
    simp only [neg_neg, Int.toNat_natCast]
    push_cast
    rw [zpow_neg, zpow_neg, zpow_natCast, zpow_natCast, show (10 : ℚ) = 5 * 2 by norm_num, mul_pow]
    field_simp

theorem exact_digits_ne_zero (hm : m ≠ 0) (e : Int) : (exact m e).digits ≠ 0 := by
  unfold exact
  split <;> simp [hm]

/-- The exact expansion of a number of the format is within the range of a decimal. -/
theorem exact_magnitude (h : Canonical m e) (hm : m ≠ 0) :
    -330 ≤ magnitude (exact m e).digits (exact m e).exponent ∧
      magnitude (exact m e).digits (exact m e).exponent ≤ 310 := by
  obtain ⟨hlt, hmin, hmax, -⟩ := h
  simp only [Binary64.minExponent, Binary64.maxExponent] at hmin hmax
  unfold exact magnitude
  split
  · next he =>
    have hpow : m * 2 ^ e.toNat < 10 ^ 310 :=
      calc m * 2 ^ e.toNat < 2 ^ 53 * 2 ^ e.toNat := Nat.mul_lt_mul_of_pos_right hlt (by positivity)
        _ ≤ 2 ^ 53 * 2 ^ 971 := Nat.mul_le_mul_left _ (Nat.pow_le_pow_right (by decide) (by omega))
        _ < 10 ^ 310 := by decide +kernel
    have := (Text.length_ofNat_le_iff (by decide)).mpr hpow
    dsimp only
    omega
  · next he =>
    obtain ⟨k, rfl⟩ : ∃ k : Nat, e = -(k : Int) := ⟨(-e).toNat, by omega⟩
    simp only [neg_neg, Int.toNat_natCast]
    have hhigh : m * 5 ^ k < 10 ^ (16 + k) :=
      calc m * 5 ^ k < 2 ^ 53 * 5 ^ k := Nat.mul_lt_mul_of_pos_right hlt (by positivity)
        _ ≤ 10 ^ 16 * 10 ^ k := Nat.mul_le_mul (by norm_num) (Nat.pow_le_pow_left (by decide) k)
        _ = 10 ^ (16 + k) := (Nat.pow_add ..).symm
    have h1 := (Text.length_ofNat_le_iff (by omega)).mpr hhigh
    have h2 : k ≤ 330 + (Text.ofNat (m * 5 ^ k)).length := by
      by_contra hshort
      have hpow : 5 ^ k < 10 ^ (k - 331) :=
        calc 5 ^ k ≤ m * 5 ^ k := Nat.le_mul_of_pos_left _ (Nat.pos_of_ne_zero hm)
          _ < 10 ^ (Text.ofNat (m * 5 ^ k)).length := Text.lt_pow_length_ofNat _
          _ ≤ 10 ^ (k - 331) := Nat.pow_le_pow_right (by decide) (by omega)
      have hsmall : 5 ^ k * 10 ^ 331 < 5 ^ k * 2 ^ k :=
        calc 5 ^ k * 10 ^ 331 < 10 ^ (k - 331) * 10 ^ 331 := Nat.mul_lt_mul_of_pos_right hpow (by positivity)
          _ = 5 ^ k * 2 ^ k := by rw [← Nat.pow_add, ← Nat.mul_pow, Nat.sub_add_cancel (by omega)]
      have hbig : 2 ^ k ≤ 10 ^ 331 :=
        Nat.le_trans (Nat.pow_le_pow_right (by decide) (by omega : k ≤ 1074)) (by decide +kernel)
      exact absurd (Nat.lt_of_mul_lt_mul_left hsmall) (Nat.not_lt.mpr hbig)
    omega

theorem exact_reads (h : Canonical m e) (hm : m ≠ 0) :
    ofDecimal false (exact m e).digits (exact m e).exponent = .finite false m e h := by
  obtain ⟨num, den, hd, hq⟩ := Binary64.exists_ratio (exact m e).digits (exact m e).exponent
  obtain ⟨hlow, hhigh⟩ := exact_magnitude h hm
  rw [Binary64.ofDecimal_eq_round false (exact_digits_ne_zero hm e) hlow hhigh hd hq]
  exact Binary64.round_exact false h hm hd (hq.trans (exact_ratio m e))

theorem decimal_digits_ne_zero (h : Canonical m e) (hm : m ≠ 0) : (decimal m e h).digits ≠ 0 := by
  unfold decimal
  dsimp only
  cases hs : search (.finite false m e h) (ratio m e).1 (ratio m e).2 (pointOf (ratio m e).1 (ratio m e).2) 17 1 with
  | none => exact exact_digits_ne_zero hm e
  | some d => exact (search_reads hs).1

/-- **The decimal of a number is read as that number**, under either sign. -/
theorem decimal_reads (negative : Bool) (h : Canonical m e) (hm : m ≠ 0) :
    ofDecimal negative (decimal m e h).digits (decimal m e h).exponent = .finite negative m e h := by
  rw [Binary64.ofDecimal_withSign negative false]
  have hread : ofDecimal false (decimal m e h).digits (decimal m e h).exponent = .finite false m e h := by
    unfold decimal
    dsimp only
    cases hs : search (.finite false m e h) (ratio m e).1 (ratio m e).2 (pointOf (ratio m e).1 (ratio m e).2) 17 1 with
    | none => exact exact_reads h hm
    | some d => exact (search_reads hs).2
  rw [hread]
  rfl

/-! ## The layout -/

theorem trimZeros_append (t : Text) : (trimZeros t).1 ++ List.replicate (trimZeros t).2 (pt '0') = t := by
  have hsplit : t = (t.reverse.dropWhile (· = pt '0')).reverse ++ (t.reverse.takeWhile (· = pt '0')).reverse := by
    rw [← List.reverse_append, List.takeWhile_append_dropWhile, List.reverse_reverse]
  have hzeros : (t.reverse.takeWhile (· = pt '0')).reverse =
      List.replicate (t.reverse.takeWhile (· = pt '0')).length (pt '0') := by
    refine List.eq_replicate_iff.mpr ⟨by simp, fun c hc => ?_⟩
    simpa using List.mem_takeWhile_imp (List.mem_reverse.mp hc)
  have hlen : (trimZeros t).2 = (t.reverse.takeWhile (· = pt '0')).length := by
    have := congrArg List.length hsplit
    simp only [List.length_append, List.length_reverse] at this
    simp only [trimZeros, List.length_reverse]
    omega
  rw [hlen, ← hzeros]
  exact hsplit.symm

end Shortest

/-- The text of a number that is not whole: the digits before its point, those after it, and an exponent with the
least width that is written in. -/
structure Numeral where
  whole : Text
  part : Text
  exponent : Option (Nat × Int) := none

namespace Numeral

/-- A point and the digits after it, if there are any. -/
def pointed (part : Text) : Text := if part = [] then [] else pt '.' :: part

/-- The mark of an exponent and the exponent, if there is one. -/
def marked : Option (Nat × Int) → Text
  | none => []
  | some (width, e) => pt 'e' :: Shortest.exponentText width e

def text (n : Numeral) : Text := n.whole ++ (pointed n.part ++ marked n.exponent)

/-- What makes a text of a number readable: a whole part is one zero or begins with none, and a point has digits after it. -/
structure Regular (n : Numeral) : Prop where
  whole : Text.IsDigits n.whole
  nonempty : n.whole ≠ []
  first : n.whole = lit "0" ∨ n.whole.head? ≠ some (pt '0')
  part : Text.IsDigits n.part
  broken : n.part = [] → n.exponent ≠ none

/-- The number a text stands for. -/
def value (negative : Bool) (n : Numeral) : Binary64 :=
  .ofDecimal negative (Text.decimalValue (n.whole ++ n.part)) ((n.exponent.map (·.2)).getD 0 - n.part.length)

theorem value_eq (negative : Bool) {n : Numeral} {digits k : Nat} {exponent : Int}
    (hd : Text.decimalValue (n.whole ++ n.part) = digits * 10 ^ k)
    (he : (n.exponent.map (·.2)).getD 0 - n.part.length + k = exponent) :
    n.value negative = .ofDecimal negative digits exponent := by
  rw [value, hd, Binary64.ofDecimal_mul_pow, he]

end Numeral

namespace Shortest

open Binary64 (ofDecimal)

/-- **A layout is a readable text of its decimal**, wherever the style puts the point. -/
theorem layout_eq_numeral (style : DecimalStyle) {d : Decimal} (hd : d.digits ≠ 0) :
    ∃ n : Numeral, layout style d = n.text ∧ n.Regular ∧ ∀ negative, n.value negative = ofDecimal negative d.digits d.exponent := by
  have happ := trimZeros_append (Text.ofNat d.digits)
  unfold layout
  generalize trimZeros (Text.ofNat d.digits) = trimmed at happ
  obtain ⟨kept, dropped⟩ := trimmed
  dsimp only at happ ⊢
  have hdigits : Text.IsDigits kept := fun c hc =>
    Text.isDigits_ofNat d.digits c (by rw [← happ]; exact List.mem_append_left _ hc)
  have hvalue : d.digits = Text.decimalValue kept * 10 ^ dropped := by
    rw [← Text.decimalValue_ofNat d.digits, ← happ, Text.decimalValue_append]
    simp
  obtain ⟨first, more, rfl⟩ : ∃ first more, kept = first :: more := by
    cases kept with
    | nil => simp [hvalue] at hd
    | cons first more => exact ⟨first, more, rfl⟩
  have hfirst : first ≠ pt '0' := Text.head_ofNat_ne_zero hd happ.symm
  -- the zeros that were dropped count in the exponent
  have htarget (negative : Bool) : ofDecimal negative d.digits d.exponent =
      ofDecimal negative (Text.decimalValue (first :: more)) (d.exponent + dropped) := by
    rw [hvalue, Binary64.ofDecimal_mul_pow]
  simp only [htarget]
  have hpoint : ((first :: more).length : Int) + dropped + d.exponent = (d.exponent + dropped) + (more.length + 1) := by
    rw [List.length_cons]
    omega
  rw [hpoint]
  generalize d.exponent + dropped = exponent
  have hzeros (k : Nat) := Text.isDigits_replicate_zero k
  split
  · split
    · next hp =>
      refine ⟨⟨lit "0", List.replicate (-(exponent + (more.length + 1))).toNat (pt '0') ++ first :: more, none⟩, ?_, ?_,
        fun negative => Numeral.value_eq negative (k := 0) ?_ ?_⟩
      · simp [Numeral.text, Numeral.pointed, Numeral.marked, lit]
      · exact ⟨hzeros 1, List.cons_ne_nil _ _, .inl rfl, (hzeros _).append hdigits, by simp⟩
      · rw [← List.append_assoc, Text.decimalValue_append]
        simp [Text.decimalValue_append, show Text.decimalValue (lit "0") = 0 by decide]
      · simp
        omega
    · split
      · next hp hle =>
        have hlen : (exponent + (more.length + 1)).toNat - (first :: more).length = exponent.toNat := by
          rw [List.length_cons] at hle ⊢
          omega
        rw [hlen]
        refine ⟨⟨first :: more ++ List.replicate exponent.toNat (pt '0'), lit "0", none⟩, ?_, ?_,
          fun negative => Numeral.value_eq negative (k := exponent.toNat + 1) ?_ ?_⟩
        · simp [Numeral.text, Numeral.pointed, Numeral.marked, lit]
        · exact ⟨hdigits.append (hzeros _), List.cons_ne_nil _ _, .inr (by simpa using hfirst), hzeros 1, by simp [lit]⟩
        · have hall : List.replicate exponent.toNat (pt '0') ++ lit "0" = List.replicate (exponent.toNat + 1) (pt '0') := by
            rw [List.replicate_succ']
            rfl
          rw [List.append_assoc, hall, Text.decimalValue_append]
          simp
        · rw [List.length_cons] at hle
          simp [lit]
          omega
      · next hp hle =>
        rw [List.length_cons] at hle
        obtain ⟨k, hk⟩ : ∃ k : Nat, (exponent + (more.length + 1)).toNat = k + 1 := ⟨(exponent + more.length).toNat, by omega⟩
        rw [hk, List.take_succ_cons, List.drop_succ_cons]
        have hdrop : more.drop k ≠ [] := by
          simp
          omega
        have hsplit := List.take_append_drop k more
        refine ⟨⟨first :: more.take k, more.drop k, none⟩, ?_, ?_, fun negative => Numeral.value_eq negative (k := 0) ?_ ?_⟩
        · simp [Numeral.text, Numeral.pointed, Numeral.marked, hdrop]
        · refine ⟨fun c hc => hdigits c ?_, List.cons_ne_nil _ _, .inr (by simpa using hfirst), fun c hc => hdigits c ?_,
            fun h => absurd h hdrop⟩
          · rw [List.mem_cons] at hc ⊢
            exact hc.imp_right List.mem_of_mem_take
          · exact List.mem_cons_of_mem _ (List.mem_of_mem_drop hc)
        · rw [List.cons_append, hsplit, Nat.pow_zero, Nat.mul_one]
        · simp
          omega
  · refine ⟨⟨[first], more, some (style.exponentWidth, exponent + (more.length + 1) - 1)⟩, ?_, ?_,
      fun negative => Numeral.value_eq negative (k := 0) ?_ ?_⟩
    · cases more <;> simp [Numeral.text, Numeral.pointed, Numeral.marked]
    · exact ⟨fun c hc => hdigits c (by simp_all), List.cons_ne_nil _ _, .inr (by simpa using hfirst),
        fun c hc => hdigits c (by simp [hc]), by simp⟩
    · simp
    · simp
      omega

end Shortest

end DiagnosticsClient
