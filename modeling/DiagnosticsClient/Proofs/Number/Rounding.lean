import Mathlib.Algebra.Order.Field.Power
import Mathlib.Data.Int.Log
import Mathlib.Data.Rat.Floor
import Mathlib.Tactic.Positivity
import DiagnosticsClient.Number.Binary64
import DiagnosticsClient.Proofs.Text.Decimal
/-
Rounding to the nearest double-precision number.

`round` looks at a numerator and a denominator, but what it gives depends on
their ratio alone (`round_congr`): the exponent is that of the binade of the
ratio (`exponentOf_eq_log`), and the mantissa a quotient that a common factor
does not change. So a ratio that is a number of the format is rounded to that
number (`round_exact`), and zeros may move from the digits of a decimal to its
exponent (`ofDecimal_mul_pow`).
-/
namespace DiagnosticsClient

namespace Binary64

variable {num den num' den' : Nat}

/-! ## The nearest quotient -/

theorem roundDiv_mul_right (num den : Nat) {c : Nat} (hc : 0 < c) : roundDiv (num * c) (den * c) = roundDiv num den := by
  simp only [roundDiv, Nat.mul_div_mul_right _ _ hc, Nat.mul_mod_mul_right, ← Nat.mul_assoc, Nat.mul_lt_mul_right hc,
    Nat.mul_left_inj (Nat.pos_iff_ne_zero.mp hc)]

/-- Equal ratios have one nearest quotient. -/
theorem roundDiv_congr (hd : 0 < den) (hd' : 0 < den') (h : num * den' = num' * den) :
    roundDiv num den = roundDiv num' den' := by
  rw [← roundDiv_mul_right num den hd', h, Nat.mul_comm den den', roundDiv_mul_right num' den' hd]

theorem roundDiv_mul_self (m : Nat) (hd : 0 < den) : roundDiv (m * den) den = m := by
  simp [roundDiv, Nat.mul_div_cancel _ hd, hd]

/-! ## The exponent -/

/-- The logarithms of a numerator and a denominator leave two binades for their ratio. -/
theorem ratio_binade (hn : num ≠ 0) (hd : den ≠ 0) :
    (2 : ℚ) ^ ((num.log2 : Int) - den.log2 - 1) < num / den ∧ (num : ℚ) / den < 2 ^ ((num.log2 : Int) - den.log2 + 1) := by
  have hd0 : (0 : ℚ) < den := by positivity
  have n1 : (2 : ℚ) ^ (num.log2 : Int) ≤ num := by exact_mod_cast Nat.log2_self_le hn
  have n2 : (num : ℚ) < 2 ^ ((num.log2 : Int) + 1) := by exact_mod_cast Nat.lt_log2_self (n := num)
  have d1 : (2 : ℚ) ^ (den.log2 : Int) ≤ den := by exact_mod_cast Nat.log2_self_le hd
  have d2 : (den : ℚ) < 2 ^ ((den.log2 : Int) + 1) := by exact_mod_cast Nat.lt_log2_self (n := den)
  constructor
  · rw [lt_div_iff₀ hd0]
    calc (2 : ℚ) ^ ((num.log2 : Int) - den.log2 - 1) * den
        < 2 ^ ((num.log2 : Int) - den.log2 - 1) * 2 ^ ((den.log2 : Int) + 1) :=
          mul_lt_mul_of_pos_left d2 (by positivity)
      _ = 2 ^ (num.log2 : Int) := by rw [← zpow_add₀ (by norm_num)]; congr 1; ring
      _ ≤ num := n1
  · rw [div_lt_iff₀ hd0]
    calc (num : ℚ) < 2 ^ ((num.log2 : Int) + 1) := n2
      _ = 2 ^ ((num.log2 : Int) - den.log2 + 1) * 2 ^ (den.log2 : Int) := by
        rw [← zpow_add₀ (by norm_num)]; congr 1; ring
      _ ≤ 2 ^ ((num.log2 : Int) - den.log2 + 1) * den := mul_le_mul_of_nonneg_left d1 (by positivity)

/-- Whether a ratio is below a power of two, asked of whole numbers. -/
theorem scaled_lt_iff (hd : den ≠ 0) (guess : Int) :
    (if 0 ≤ guess then num < den * 2 ^ (52 + guess).toNat else num * 2 ^ (-guess).toNat < den * 2 ^ 52) ↔
      (num : ℚ) / den < 2 ^ (guess + 52) := by
  have hd0 : (0 : ℚ) < den := by positivity
  rw [div_lt_iff₀ hd0]
  split
  · next h =>
    have hpow : (2 : ℚ) ^ (guess + 52) = 2 ^ (52 + guess).toNat := by
      rw [← zpow_natCast, Int.toNat_of_nonneg (by omega), Int.add_comm]
    rw [hpow, mul_comm]
    exact_mod_cast Iff.rfl
  · next h =>
    have hpow : (2 : ℚ) ^ (guess + 52) * 2 ^ (-guess).toNat = 2 ^ 52 := by
      rw [← zpow_natCast, Int.toNat_of_nonneg (by omega), ← zpow_add₀ (by norm_num)]
      norm_num
    have hp : (0 : ℚ) < 2 ^ (-guess).toNat := by positivity
    rw [← mul_lt_mul_iff_of_pos_right hp, mul_right_comm, hpow, mul_comm _ (den : ℚ)]
    exact_mod_cast Iff.rfl

/-- **The exponent is that of the ratio's binade**, if that is not below the least one. -/
theorem exponentOf_eq_log (hn : num ≠ 0) (hd : den ≠ 0) :
    exponentOf num den = max minExponent (Int.log 2 ((num : ℚ) / den) - 52) := by
  have hq : (0 : ℚ) < (num : ℚ) / den := by positivity
  obtain ⟨hlow, hhigh⟩ := ratio_binade hn hd
  unfold exponentOf
  simp only [scaled_lt_iff hd]
  generalize hg : (num.log2 : Int) - den.log2 - 52 = guess at *
  have h1 : guess + 51 ≤ Int.log 2 ((num : ℚ) / den) := by
    rw [← Int.zpow_le_iff_le_log (by decide) hq]
    have : (2 : ℚ) ^ (guess + 51) = 2 ^ ((num.log2 : Int) - den.log2 - 1) := by congr 1; omega
    exact_mod_cast this ▸ hlow.le
  have h2 : Int.log 2 ((num : ℚ) / den) < guess + 53 := by
    rw [← Int.lt_zpow_iff_log_lt (by decide) hq]
    have : (2 : ℚ) ^ (guess + 53) = 2 ^ ((num.log2 : Int) - den.log2 + 1) := by congr 1; omega
    exact_mod_cast this ▸ hhigh
  have h3 : (num : ℚ) / den < 2 ^ (guess + 52) ↔ Int.log 2 ((num : ℚ) / den) < guess + 52 := by
    rw [← Int.lt_zpow_iff_log_lt (by decide) hq]
    norm_cast
  simp only [h3]
  congr 1
  split <;> omega

/-! ## Rounding a ratio -/

theorem round_zero (negative : Bool) (den : Nat) : round negative 0 den = zero negative := rfl

/-- **Rounding depends on the ratio alone.** -/
theorem round_congr (negative : Bool) (hd : den ≠ 0) (hd' : den' ≠ 0) (h : (num : ℚ) / den = num' / den') :
    round negative num den = round negative num' den' := by
  have hcross : num * den' = num' * den := by
    have := (div_eq_div_iff (by positivity) (by positivity)).mp h
    exact_mod_cast this
  by_cases hn : num = 0
  · subst hn
    have hn' : num' = 0 := by simpa [hd] using hcross.symm
    rw [hn', round_zero, round_zero]
  · have hn' : num' ≠ 0 := by
      rintro rfl
      simp [hn, hd'] at hcross
    simp only [round, if_neg hn, if_neg hn', exponentOf_eq_log hn hd, exponentOf_eq_log hn' hd', h]
    congr 1
    split
    · refine roundDiv_congr (by positivity) (by positivity) ?_
      rw [← Nat.mul_assoc, ← Nat.mul_assoc, hcross]
    · refine roundDiv_congr (by positivity) (by positivity) ?_
      rw [Nat.mul_right_comm, hcross, Nat.mul_right_comm]

/-- A mantissa the format keeps, with its exponent, is that of its own binade. -/
theorem exponentOf_exact {m : Nat} {e : Int} (h : Canonical m e) (hm : m ≠ 0) (hd : den ≠ 0)
    (hq : (num : ℚ) / den = m * 2 ^ e) : exponentOf num den = e := by
  have hm0 : (0 : ℚ) < m := by exact_mod_cast Nat.pos_of_ne_zero hm
  have hpos : (0 : ℚ) < m * 2 ^ e := by positivity
  have hn : num ≠ 0 := by
    rintro rfl
    rw [← hq] at hpos
    simp at hpos
  have hhigh : Int.log 2 ((m : ℚ) * 2 ^ e) < 53 + e := by
    rw [← Int.lt_zpow_iff_log_lt (by decide) hpos, Nat.cast_ofNat, zpow_add₀ (by norm_num)]
    gcongr
    exact_mod_cast h.1
  rw [exponentOf_eq_log hn hd, hq]
  obtain ⟨-, hmin, -, rfl | hbig⟩ := h
  · exact max_eq_left (by omega)
  · have hlow : 52 + e ≤ Int.log 2 ((m : ℚ) * 2 ^ e) := by
      rw [← Int.zpow_le_iff_le_log (by decide) hpos, Nat.cast_ofNat, zpow_add₀ (by norm_num)]
      gcongr
      exact_mod_cast hbig
    rw [max_eq_right (by omega)]
    omega

theorem ofParts_canonical (negative : Bool) {m : Nat} {e : Int} (h : Canonical m e) :
    ofParts negative m e = .finite negative m e h := by
  have hm : m ≠ 2 ^ 53 := by
    have := h.1
    omega
  simp only [ofParts, if_neg hm, dif_pos h]

/-- **A ratio that is a number of the format is rounded to that number.** -/
theorem round_exact (negative : Bool) {m : Nat} {e : Int} (h : Canonical m e) (hm : m ≠ 0) (hd : den ≠ 0)
    (hq : (num : ℚ) / den = m * 2 ^ e) : round negative num den = .finite negative m e h := by
  have hden : (den : ℚ) ≠ 0 := by positivity
  have hnum : (num : ℚ) = m * 2 ^ e * den := by rw [← hq, div_mul_cancel₀ _ hden]
  have hn : num ≠ 0 := by
    rintro rfl
    have hm0 : (m : ℚ) ≠ 0 := by exact_mod_cast hm
    have hne : (m : ℚ) * 2 ^ e * den ≠ 0 := by positivity
    exact hne (by rw [← hnum, Nat.cast_zero])
  rw [← ofParts_canonical negative h]
  simp only [round, if_neg hn, exponentOf_exact h hm hd hq]
  congr 1
  split
  · next he =>
    have hpow : (2 : ℚ) ^ e = 2 ^ e.toNat := by rw [← zpow_natCast, Int.toNat_of_nonneg he]
    have hnat : num = m * (den * 2 ^ e.toNat) := by
      rw [hpow, mul_assoc, mul_comm (2 ^ e.toNat : ℚ)] at hnum
      exact_mod_cast hnum
    rw [hnat]
    exact roundDiv_mul_self m (by positivity)
  · next he =>
    have hpow : (2 : ℚ) ^ e * 2 ^ (-e).toNat = 1 := by
      rw [← zpow_natCast, Int.toNat_of_nonneg (by omega), ← zpow_add₀ (by norm_num)]
      norm_num
    have hnat : num * 2 ^ (-e).toNat = m * den := by
      have : (num : ℚ) * 2 ^ (-e).toNat = m * den := by
        rw [hnum, mul_right_comm, mul_assoc (m : ℚ), hpow, mul_one]
      exact_mod_cast this
    rw [hnat]
    exact roundDiv_mul_self m (by positivity)

/-! ## Decimals -/

/-- The place of the first digit of a decimal. -/
def magnitude (digits : Nat) (exponent : Int) : Int := (Text.ofNat digits).length + exponent

/-- A decimal within the range of the format is its ratio rounded, however that is written. -/
theorem ofDecimal_eq_round (negative : Bool) {digits : Nat} {exponent : Int} (hn : digits ≠ 0)
    (hlow : -330 ≤ magnitude digits exponent) (hhigh : magnitude digits exponent ≤ 310) (hd : den ≠ 0)
    (hq : (num : ℚ) / den = digits * 10 ^ exponent) : ofDecimal negative digits exponent = round negative num den := by
  rw [magnitude, Text.length_ofNat] at hlow hhigh
  unfold ofDecimal
  rw [if_neg hn]
  simp only [gt_iff_lt, Int.not_lt.mpr hhigh, Int.not_lt.mpr hlow, if_false]
  split
  · next he =>
    refine round_congr negative (by decide) hd ?_
    rw [hq]
    push_cast
    rw [div_one, ← zpow_natCast, Int.toNat_of_nonneg he]
  · next he =>
    refine round_congr negative (by positivity) hd ?_
    rw [hq]
    push_cast
    rw [← zpow_natCast, Int.toNat_of_nonneg (by omega), zpow_neg, div_inv_eq_mul]

/-- A decimal as a ratio. -/
theorem exists_ratio (digits : Nat) (exponent : Int) :
    ∃ num den : Nat, den ≠ 0 ∧ (num : ℚ) / den = digits * 10 ^ exponent := by
  by_cases he : 0 ≤ exponent
  · refine ⟨digits * 10 ^ exponent.toNat, 1, by decide, ?_⟩
    push_cast
    rw [div_one, ← zpow_natCast, Int.toNat_of_nonneg he]
  · refine ⟨digits, 10 ^ (-exponent).toNat, by positivity, ?_⟩
    push_cast
    rw [← zpow_natCast, Int.toNat_of_nonneg (by omega), zpow_neg, div_inv_eq_mul]

theorem magnitude_mul_pow {digits : Nat} (hn : digits ≠ 0) (k : Nat) (exponent : Int) :
    magnitude (digits * 10 ^ k) exponent = magnitude digits (exponent + k) := by
  rw [magnitude, magnitude, Text.length_ofNat_mul_pow hn]
  omega

/-- A decimal past the range of the format. -/
theorem ofDecimal_of_magnitude_gt (negative : Bool) {digits : Nat} {exponent : Int} (hn : digits ≠ 0)
    (h : 310 < magnitude digits exponent) : ofDecimal negative digits exponent = .infinite negative := by
  rw [magnitude, Text.length_ofNat] at h
  simp only [ofDecimal, if_neg hn, gt_iff_lt, if_pos h]

theorem ofDecimal_of_magnitude_lt (negative : Bool) {digits : Nat} {exponent : Int} (hn : digits ≠ 0)
    (h : magnitude digits exponent < -330) : ofDecimal negative digits exponent = zero negative := by
  rw [magnitude, Text.length_ofNat] at h
  have h' : ¬ 310 < ((Nat.toDigits 10 digits).length : Int) + exponent := by omega
  simp only [ofDecimal, if_neg hn, gt_iff_lt, if_neg h', if_pos h]

/-- **Zeros at the end of the digits may move to the exponent.** -/
theorem ofDecimal_mul_pow (negative : Bool) (digits k : Nat) (exponent : Int) :
    ofDecimal negative (digits * 10 ^ k) exponent = ofDecimal negative digits (exponent + k) := by
  by_cases hn : digits = 0
  · subst hn
    rw [Nat.zero_mul]
    rfl
  have hn' : digits * 10 ^ k ≠ 0 := by positivity
  have hm := magnitude_mul_pow hn k exponent
  by_cases hhigh : 310 < magnitude digits (exponent + k)
  · rw [ofDecimal_of_magnitude_gt negative hn hhigh, ofDecimal_of_magnitude_gt negative hn' (hm ▸ hhigh)]
  by_cases hlow : magnitude digits (exponent + k) < -330
  · rw [ofDecimal_of_magnitude_lt negative hn hlow, ofDecimal_of_magnitude_lt negative hn' (hm ▸ hlow)]
  obtain ⟨num, den, hd, hq⟩ := exists_ratio digits (exponent + k)
  rw [ofDecimal_eq_round negative hn (by omega) (by omega) hd hq]
  refine ofDecimal_eq_round negative hn' (by omega) (by omega) hd ?_
  rw [hq, zpow_add₀ (by norm_num)]
  push_cast
  rw [zpow_natCast]
  ring

/-! ## Signs -/

/-- A number with another sign; not-a-number has none. -/
def withSign (negative : Bool) : Binary64 → Binary64
  | .nan => .nan
  | .infinite _ => .infinite negative
  | .finite _ m e h => .finite negative m e h

theorem ofParts_withSign (negative s : Bool) (m : Nat) (e : Int) :
    ofParts negative m e = (ofParts s m e).withSign negative := by
  unfold ofParts
  dsimp only
  generalize (if m = 2 ^ 53 then (2 ^ 52, e + 1) else (m, e)) = parts
  split <;> rfl

theorem round_withSign (negative s : Bool) (num den : Nat) :
    round negative num den = (round s num den).withSign negative := by
  unfold round
  split
  · rfl
  · exact ofParts_withSign negative s _ _

/-- The sign of a decimal is the sign of its number. -/
theorem ofDecimal_withSign (negative s : Bool) (digits : Nat) (exponent : Int) :
    ofDecimal negative digits exponent = (ofDecimal s digits exponent).withSign negative := by
  simp only [ofDecimal]
  split
  · rfl
  · split
    · rfl
    · split
      · rfl
      · split <;> exact round_withSign negative s _ _

end Binary64

end DiagnosticsClient
