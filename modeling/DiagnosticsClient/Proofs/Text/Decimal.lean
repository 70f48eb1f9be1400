import Mathlib.Data.Nat.Digits.Defs
import DiagnosticsClient.Text.Basic
/-
Numbers in decimal and their texts.

`decimalValue` takes a text back to the number whose decimal it is, and a run
of digits that begins with no zero is as long as its number asks. So the length
of a decimal grows by one for every zero put after it, which is what moves a
point against an exponent.
-/
namespace DiagnosticsClient

namespace CodePoint

theorem ofChar_val (c : Char) : (ofChar c).val = c.toNat := by
  have h : c.toNat < 0x110000 := by
    rcases c.valid with h | h
    · exact Nat.lt_trans h (by decide)
    · exact h.2
  simp [ofChar, ofNat, h]

theorem ext {c d : CodePoint} (h : c.val = d.val) : c = d := by
  cases c
  cases d
  simpa using h

@[simp] theorem ofChar_inj {a b : Char} : ofChar a = ofChar b ↔ a = b :=
  ⟨fun h => Char.toNat_inj.mp (by rw [← ofChar_val a, ← ofChar_val b, h]), congrArg ofChar⟩

theorem isDigit_iff {c : CodePoint} : c.isDigit = true ↔ 0x30 ≤ c.val ∧ c.val ≤ 0x39 := by
  simp [isDigit]

theorem isDigit_ofChar {c : Char} (h : c.isDigit = true) : (ofChar c).isDigit = true := by
  rw [isDigit_iff, ofChar_val]
  simpa [Char.isDigit, UInt32.le_iff_toNat_le] using h

theorem digitValue_ofChar (c : Char) : (ofChar c).digitValue = c.toNat - '0'.toNat := by
  rw [digitValue, ofChar_val]
  rfl

end CodePoint

namespace Text

/-- Whether a text is a run of decimal digits. -/
def IsDigits (t : Text) : Prop := ∀ c ∈ t, c.isDigit = true

theorem IsDigits.append {s t : Text} (hs : IsDigits s) (ht : IsDigits t) : IsDigits (s ++ t) := by
  simpa [IsDigits, or_imp, forall_and] using ⟨hs, ht⟩

theorem isDigits_replicate_zero (k : Nat) : IsDigits (List.replicate k (pt '0')) := by
  intro c hc
  rw [(List.mem_replicate.mp hc).2]
  decide

/-! ## The value of a run of digits -/

theorem decimalValue_append (s t : Text) :
    decimalValue (s ++ t) = decimalValue s * 10 ^ t.length + decimalValue t := by
  have go (value : Nat) : t.foldl (fun value c => value * 10 + c.digitValue) value =
      value * 10 ^ t.length + decimalValue t := by
    unfold decimalValue
    induction t generalizing value with
    | nil => simp
    | cons c t ih =>
      rw [List.foldl_cons, List.foldl_cons, ih, ih (0 * 10 + _), List.length_cons, Nat.pow_succ]
      ring
  rw [decimalValue, List.foldl_append, go]
  rfl

theorem decimalValue_cons (c : CodePoint) (t : Text) :
    decimalValue (c :: t) = c.digitValue * 10 ^ t.length + decimalValue t := by
  rw [← List.singleton_append, decimalValue_append]
  simp [decimalValue]

@[simp] theorem decimalValue_nil : decimalValue [] = 0 := rfl

@[simp] theorem decimalValue_replicate_zero (k : Nat) : decimalValue (List.replicate k (pt '0')) = 0 := by
  induction k with
  | zero => rfl
  | succ k ih => rw [List.replicate_succ, decimalValue_cons, ih, show (pt '0').digitValue = 0 by decide]; simp

theorem decimalValue_lt {t : Text} (h : IsDigits t) : decimalValue t < 10 ^ t.length := by
  induction t with
  | nil => simp
  | cons c t ih =>
    have hc := CodePoint.isDigit_iff.mp (h c (by simp))
    have ht := ih fun d hd => h d (by simp [hd])
    have hv : c.digitValue ≤ 9 := by
      rw [CodePoint.digitValue]
      omega
    rw [decimalValue_cons, List.length_cons, Nat.pow_succ]
    have := Nat.mul_le_mul_right (10 ^ t.length) hv
    omega

/-! ## The decimal of a number -/

theorem ofNat_ne_nil (n : Nat) : ofNat n ≠ [] := by
  simp [ofNat, Nat.toDigits_ne_nil]

theorem isDigits_ofNat (n : Nat) : IsDigits (ofNat n) := by
  intro c hc
  obtain ⟨d, hd, rfl⟩ := List.mem_map.mp hc
  exact CodePoint.isDigit_ofChar (Nat.isDigit_of_mem_toDigits (by decide) (by decide) hd)

/-- **The decimal of a number is read as that number.** -/
@[simp] theorem decimalValue_ofNat (n : Nat) : decimalValue (ofNat n) = n := by
  rw [decimalValue, ofNat, List.foldl_map]
  simp only [CodePoint.digitValue_ofChar]
  have h := Nat.ofDigitChars_ten_toDigits (n := n)
  rw [Nat.ofDigitChars_eq_foldl] at h
  simpa only [Nat.mul_comm] using h

theorem length_ofNat (n : Nat) : (ofNat n).length = (Nat.toDigits 10 n).length := by
  simp [ofNat]

theorem length_ofNat_le_iff {n k : Nat} (hk : 0 < k) : (ofNat n).length ≤ k ↔ n < 10 ^ k := by
  rw [length_ofNat, Nat.length_toDigits_le_iff (by decide) hk]

theorem length_ofNat_pos (n : Nat) : 0 < (ofNat n).length :=
  List.length_pos_iff.mpr (ofNat_ne_nil n)

theorem lt_pow_length_ofNat (n : Nat) : n < 10 ^ (ofNat n).length :=
  (length_ofNat_le_iff (length_ofNat_pos n)).mp (Nat.le_refl _)

theorem pow_le_of_lt_length_ofNat {n k : Nat} (hk : 0 < k) (h : k < (ofNat n).length) : 10 ^ k ≤ n := by
  rw [← Nat.not_lt, ← length_ofNat_le_iff hk]
  omega

/-- Every zero after a decimal makes it one digit longer. -/
theorem length_ofNat_mul_pow {n : Nat} (hn : n ≠ 0) (k : Nat) :
    (ofNat (n * 10 ^ k)).length = (ofNat n).length + k := by
  have hpos := length_ofNat_pos n
  have hpos' := length_ofNat_pos (n * 10 ^ k)
  apply Nat.le_antisymm
  · rw [length_ofNat_le_iff (by omega), Nat.pow_add]
    exact Nat.mul_lt_mul_of_pos_right (lt_pow_length_ofNat n) (by positivity)
  · by_contra hlt
    have hn' : n * 10 ^ k < 10 ^ ((ofNat n).length - 1 + k) :=
      (length_ofNat_le_iff (by
        by_contra hz
        have : (ofNat (n * 10 ^ k)).length ≤ 0 := by omega
        omega)).mp (by omega)
    rw [Nat.pow_add] at hn'
    have hlow : n < 10 ^ ((ofNat n).length - 1) := Nat.lt_of_mul_lt_mul_right hn'
    by_cases hone : (ofNat n).length = 1
    · rw [hone] at hlow
      simp at hlow
      exact hn hlow
    · have := pow_le_of_lt_length_ofNat (n := n) (k := (ofNat n).length - 1) (by omega) (by omega)
      omega

/-- The decimal of zero is one zero, and no other decimal begins with one. -/
theorem ofNat_zero : ofNat 0 = [pt '0'] := by decide

theorem head_ofNat_ne_zero {n : Nat} (hn : n ≠ 0) {c : CodePoint} {rest : Text} (h : ofNat n = c :: rest) : c ≠ pt '0' := by
  rintro rfl
  have hv : decimalValue (ofNat n) = decimalValue rest := by
    rw [h, decimalValue_cons, show (pt '0').digitValue = 0 by decide]
    simp
  rw [decimalValue_ofNat] at hv
  have hlt : n < 10 ^ rest.length :=
    hv ▸ decimalValue_lt fun d hd => isDigits_ofNat n d (by simp [h, hd])
  cases rest with
  | nil => simp at hlt; exact hn hlt
  | cons d rest =>
    have := (length_ofNat_le_iff (by simp)).mpr hlt
    rw [h] at this
    simp at this

end Text

end DiagnosticsClient
