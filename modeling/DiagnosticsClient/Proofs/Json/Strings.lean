import DiagnosticsClient.Json.Printer
import DiagnosticsClient.Json.Reader
import DiagnosticsClient.Proofs.Text.Utf8
import DiagnosticsClient.Proofs.Text.Decimal
/-
Reading back a quoted string.

Each character is escaped on its own, and its escape is read as that character
whatever stands after it. The one escape that looks further, at the second half
of a surrogate pair, is only written for control characters, which are no half
of one.
-/
namespace DiagnosticsClient

open Charset (val_ofNat ofNat_val)

/-! ## Hexadecimal digits -/

theorem Text.hexValue?_hexDigit {n : Nat} (h : n < 16) : (Text.hexDigit n).hexValue? = some n := by
  revert h
  revert n
  decide

namespace Json

theorem hex4?_hex {n : Nat} (h : n < 0x10000) :
    ∃ a b c d, Text.hex 4 n = [a, b, c, d] ∧ hex4? a b c d = some n := by
  refine ⟨_, _, _, _, rfl, ?_⟩
  simp only [hex4?, Text.hexValue?_hexDigit (Nat.mod_lt _ (by decide)), Option.bind_eq_bind, Option.bind_some, Option.pure_def,
    Option.some.injEq]
  omega

/-! ## One character -/

variable (opening acc : Text) (next : CodePoint) (more : Text)

/-- A character that stands for itself. -/
theorem stringTail_plain {c : CodePoint} (hq : c ≠ pt '"') (hb : c ≠ pt '\\') (hc : 0x20 ≤ c.val) :
    stringTail opening acc (c :: more) = stringTail opening (c :: acc) more := by
  rw [stringTail.eq_def]
  simp only [if_neg hq, if_neg hb, if_neg (Nat.not_lt.mpr hc)]

/-- An escape of one letter. -/
theorem stringTail_letter {kind c : CodePoint} (h : escaped? kind = some c) :
    stringTail opening acc (pt '\\' :: kind :: more) = stringTail opening (c :: acc) more := by
  have hq : pt '\\' ≠ pt '"' := by decide
  have hu : kind ≠ pt 'u' := by
    rintro rfl
    simp [show escaped? (pt 'u') = none by decide] at h
  rw [stringTail.eq_def]
  simp only [if_neg hq, if_true, if_neg hu, h]

/-- An escape of four digits, of a character that is no half of a surrogate pair. -/
theorem stringTail_hex {n : Nat} (h : n < 0xD800) :
    stringTail opening acc (pt '\\' :: pt 'u' :: (Text.hex 4 n ++ next :: more)) =
      stringTail opening (.ofNat n :: acc) (next :: more) := by
  obtain ⟨a, b, c, d, hhex, hn⟩ := hex4?_hex (n := n) (by omega)
  have hq : pt '\\' ≠ pt '"' := by decide
  have hhigh : (CodePoint.ofNat n).isHighSurrogate = false := by
    simp [CodePoint.isHighSurrogate, val_ofNat (show n < 0x110000 by omega)]
    omega
  rw [hhex, stringTail.eq_def]
  simp only [if_neg hq, if_true, List.cons_append, List.nil_append, hn, hhigh]
  split <;> simp

/-- **The escape of a character is read as that character.** -/
theorem stringTail_escape (c : CodePoint) :
    stringTail opening acc (escape c ++ next :: more) = stringTail opening (c :: acc) (next :: more) := by
  have hletter {kind : CodePoint} (h : escaped? kind = some c) :
      stringTail opening acc ([pt '\\', kind] ++ next :: more) = stringTail opening (c :: acc) (next :: more) :=
    stringTail_letter opening acc (next :: more) h
  unfold escape
  split
  · next h => exact hletter (h ▸ rfl)
  · next hq =>
    split
    · next h => exact hletter (h ▸ rfl)
    · next hb =>
      split
      · next hc =>
        have hnamed {kind : CodePoint} {k : Nat} (hk : c.val = k) (h : escaped? kind = some (.ofNat k)) :
            stringTail opening acc ([pt '\\', kind] ++ next :: more) = stringTail opening (c :: acc) (next :: more) :=
          hletter (by rw [h, ← hk, ofNat_val])
        split_ifs with h8 h9 hA hC hD
        · exact hnamed h8 rfl
        · exact hnamed h9 rfl
        · exact hnamed hA rfl
        · exact hnamed hC rfl
        · exact hnamed hD rfl
        · have hsmall : c.val < 0xD800 := by omega
          have hhex := stringTail_hex opening acc next more hsmall
          rw [ofNat_val] at hhex
          exact hhex
      · next hc => exact stringTail_plain opening acc (next :: more) hq hb (Nat.not_lt.mp hc)

/-- **A quoted string is read to its closing quote, as that string.** -/
theorem stringTail_flatMap_escape (t rest : Text) :
    stringTail opening acc (t.flatMap escape ++ pt '"' :: rest) = .ok (acc.reverse ++ t, rest) := by
  induction t generalizing acc with
  | nil =>
    rw [List.flatMap_nil, List.nil_append, stringTail.eq_def]
    simp
  | cons c t ih =>
    rw [List.flatMap_cons, List.append_assoc]
    obtain ⟨next, more, hmore⟩ : ∃ next more, t.flatMap escape ++ pt '"' :: rest = next :: more :=
      List.exists_cons_of_ne_nil (by simp)
    rw [hmore, stringTail_escape, ← hmore, ih]
    simp

end Json

end DiagnosticsClient
