import DiagnosticsClient.Json.Reader
import DiagnosticsClient.Proofs.Number.Shortest
/-
Reading back the text of a number.

A number is read as far as its grammar goes, so its text must be followed by
nothing that could belong to it: no digit, no point and no mark of an
exponent. In front of such a rest a regular numeral is read to its end, and as
the number it stands for; so are the decimal of an integer and the shortest
decimal of a double-precision number, whatever the style.
-/
namespace DiagnosticsClient

namespace Json

/-! ## What a number may be followed by -/

/-- Whether a character can belong to a number. -/
def continuesNumber (c : CodePoint) : Bool := c.isDigit || c = pt '.' || c = pt 'e' || c = pt 'E'

/-- Nothing at the front of a text could belong to a number before it. -/
def Breaks (rest : Text) : Prop := ∀ c ∈ rest.head?, continuesNumber c = false

theorem breaks_cons {c : CodePoint} {rest : Text} : Breaks (c :: rest) ↔ continuesNumber c = false := by
  simp [Breaks]

variable {rest : Text}

/-- The marks that part the values of a text, and space, cannot belong to a number. -/
theorem Breaks.of_mem {c : CodePoint} (h : c ∈ [pt ',', pt ']', pt '\x7d', pt '\n', pt ' ']) : Breaks (c :: rest) := by
  rw [breaks_cons]
  revert c
  decide

theorem Breaks.digit (h : Breaks rest) : ∀ c ∈ rest.head?, c.isDigit = false := by
  intro c hc
  have := h c hc
  simp only [continuesNumber, Bool.or_eq_false_iff] at this
  exact this.1.1.1

/-! ## The parts of a number -/

theorem digits_append {ds : Text} (hd : Text.IsDigits ds) (hr : ∀ c ∈ rest.head?, c.isDigit = false) :
    digits (ds ++ rest) = (ds, rest) := by
  rw [digits, List.takeWhile_append_of_pos hd, List.dropWhile_append_of_pos hd]
  cases rest with
  | nil => simp
  | cons c rest => simp [hr c (by simp)]

theorem isDigit_ne {c d : CodePoint} (hc : c.isDigit = true) (hd : d.isDigit = false) : c ≠ d := by
  rintro rfl
  rw [hc] at hd
  cases hd

theorem wholePart?_append {whole : Text} (hd : Text.IsDigits whole) (hne : whole ≠ [])
    (hfirst : whole = lit "0" ∨ whole.head? ≠ some (pt '0')) (hr : ∀ c ∈ rest.head?, c.isDigit = false) :
    wholePart? (whole ++ rest) = some (whole, rest) := by
  obtain ⟨c, more, rfl⟩ := List.exists_cons_of_ne_nil hne
  rw [List.cons_append, wholePart?]
  by_cases hc : c = pt '0'
  · obtain rfl : more = [] := by
      rcases hfirst with h | h
      · exact (List.cons.inj h).2
      · exact absurd (by simp [hc]) h
    rw [if_pos hc, List.nil_append]
  · rw [if_neg hc, if_pos (hd c (by simp)), ← List.cons_append, digits_append hd hr]

theorem fraction_append {part : Text} (hd : Text.IsDigits part) (hr : ∀ c ∈ rest.head?, c.isDigit = false)
    (hpoint : part = [] → rest.head? ≠ some (pt '.')) :
    fraction (Numeral.pointed part ++ rest) = (part, rest) := by
  unfold Numeral.pointed
  split
  · next h =>
    subst h
    rw [List.nil_append]
    cases rest with
    | nil => rfl
    | cons c rest =>
      have hc : c ≠ pt '.' := by simpa using hpoint rfl
      simp [fraction, hc]
  · next h =>
    rw [List.cons_append, fraction, digits_append hd hr]
    simp [h]

theorem exponent?_eq_none (h : Breaks rest) : exponent? rest = none := by
  cases rest with
  | nil => rfl
  | cons c rest =>
    have hc := breaks_cons.mp h
    simp only [continuesNumber, Bool.or_eq_false_iff, decide_eq_false_iff_not] at hc
    simp [exponent?, hc.1.2, hc.2]

theorem exponent?_marked (width : Nat) (e : Int) (hr : ∀ c ∈ rest.head?, c.isDigit = false) :
    exponent? (pt 'e' :: Shortest.exponentText width e ++ rest) = some (e, rest) := by
  have hdigits : Text.IsDigits (List.replicate (width - (Text.ofNat e.natAbs).length) (pt '0') ++ Text.ofNat e.natAbs) :=
    (Text.isDigits_replicate_zero _).append (Text.isDigits_ofNat _)
  have hvalue : Text.decimalValue (List.replicate (width - (Text.ofNat e.natAbs).length) (pt '0') ++ Text.ofNat e.natAbs) =
      e.natAbs := by
    rw [Text.decimalValue_append]
    simp
  have hne : List.replicate (width - (Text.ofNat e.natAbs).length) (pt '0') ++ Text.ofNat e.natAbs ≠ [] := by
    simp [Text.ofNat_ne_nil]
  rw [Shortest.exponentText]
  generalize List.replicate (width - (Text.ofNat e.natAbs).length) (pt '0') ++ Text.ofNat e.natAbs = ds at *
  rw [List.cons_append, List.cons_append, exponent?, if_pos (by simp)]
  have hplus : pt '+' ≠ pt '-' := by decide
  by_cases he : e < 0
  · have hneg : -(e.natAbs : Int) = e := by omega
    simp only [if_pos he, if_true, digits_append hdigits hr, if_neg hne, hvalue, hneg]
  · have hpos : (e.natAbs : Int) = e := by omega
    simp only [if_neg he, if_neg hplus, if_true, digits_append hdigits hr, if_neg hne, hvalue, hpos]
    rfl

/-! ## Whole numbers and numerals -/

/-- The sign in front of a number. -/
def signText (negative : Bool) : Text := if negative then [pt '-'] else []

/-- A number whose whole part is regular: what it gives is told by what follows the whole part. -/
theorem number_append (negative : Bool) {whole : Text} (hd : Text.IsDigits whole) (hne : whole ≠ [])
    (hfirst : whole = lit "0" ∨ whole.head? ≠ some (pt '0')) {after : Text} (hr : ∀ c ∈ after.head?, c.isDigit = false) :
    number (signText negative ++ (whole ++ after)) =
      match exponent? (fraction after).2 with
      | some (e, rest) =>
        .ok (.float (.ofDecimal negative (Text.decimalValue (whole ++ (fraction after).1)) (e - (fraction after).1.length)), rest)
      | none =>
        if (fraction after).1 ≠ [] then
          .ok (.float (.ofDecimal negative (Text.decimalValue (whole ++ (fraction after).1)) (-(fraction after).1.length)),
            (fraction after).2)
        else if Text.digitLimit < whole.length then .error (.integerTooLong whole.length)
        else .ok (.int (if negative then -(Text.decimalValue whole) else Text.decimalValue whole), (fraction after).2) := by
  have hwhole := wholePart?_append hd hne hfirst hr
  have hminus : ∀ c ∈ (whole ++ after).head?, c ≠ pt '-' := by
    obtain ⟨c, more, rfl⟩ := List.exists_cons_of_ne_nil hne
    simpa using isDigit_ne (hd c (by simp)) (by decide)
  unfold number
  cases negative with
  | true =>
    have hsigned : signText true ++ (whole ++ after) = pt '-' :: (whole ++ after) := rfl
    rw [hsigned]
    dsimp only
    rw [if_pos rfl]
    dsimp only
    rewrite [hwhole]
    rfl
  | false =>
    obtain ⟨c, more, hc⟩ : ∃ c more, whole ++ after = c :: more :=
      List.exists_cons_of_ne_nil (by simp [hne])
    have hcm : c ≠ pt '-' := hminus c (by simp [hc])
    simp only [signText, Bool.false_eq_true, if_false, List.nil_append]
    rw [hc] at hwhole ⊢
    simp only [if_neg hcm, hwhole]
    rfl

/-- **A regular numeral is read to its end, as the number it stands for.** -/
theorem number_numeral (negative : Bool) {n : Numeral} (h : n.Regular) (hr : Breaks rest) :
    number (signText negative ++ (n.text ++ rest)) = .ok (.float (n.value negative), rest) := by
  obtain ⟨whole, part, exponent⟩ := n
  obtain ⟨hwhole, hne, hfirst, hpart, hbroken⟩ := h
  dsimp only at hwhole hne hfirst hpart hbroken
  -- what follows the part is no digit, and no point where there is no part
  have hmark : (∀ c ∈ (Numeral.marked exponent ++ rest).head?, c.isDigit = false) ∧
      (part = [] → (Numeral.marked exponent ++ rest).head? ≠ some (pt '.')) := by
    cases exponent with
    | none => exact ⟨hr.digit, fun hp => absurd rfl (hbroken hp)⟩
    | some we => exact ⟨by simp [Numeral.marked]; decide, fun _ => by simp [Numeral.marked]⟩
  have hfraction := fraction_append hpart hmark.1 hmark.2
  have hafter : ∀ c ∈ (Numeral.pointed part ++ (Numeral.marked exponent ++ rest)).head?, c.isDigit = false := by
    unfold Numeral.pointed
    split
    · exact hmark.1
    · simp
      decide
  rw [Numeral.text, List.append_assoc, List.append_assoc, number_append negative hwhole hne hfirst hafter, hfraction]
  cases exponent with
  | none =>
    have hpart' : part ≠ [] := fun hp => hbroken hp rfl
    simp [Numeral.marked, exponent?_eq_none hr, hpart', Numeral.value]
  | some we =>
    obtain ⟨width, e⟩ := we
    simp only [Numeral.marked]
    rw [exponent?_marked width e hr.digit]
    rfl

/-- **The decimal of an integer is read to its end, as that integer**, where it is not longer than the limit. -/
theorem number_ofInt {n : Int} (hn : n.natAbs < 10 ^ Text.digitLimit) (hr : Breaks rest) :
    number (Text.ofInt n ++ rest) = .ok (.int n, rest) := by
  have hfraction : fraction rest = ([], rest) := by
    have hnone : Text.IsDigits [] := by simp [Text.IsDigits]
    have h := fraction_append hnone hr.digit
    simp only [Numeral.pointed, if_true, List.nil_append] at h
    refine h fun _ hpoint => ?_
    have := hr (pt '.') hpoint
    revert this
    decide
  have hnat (negative : Bool) {k : Nat} (hk : k < 10 ^ Text.digitLimit) :
      number (signText negative ++ (Text.ofNat k ++ rest)) = .ok (.int (if negative then -(k : Int) else k), rest) := by
    have hlen : ¬ Text.digitLimit < (Text.ofNat k).length :=
      Nat.not_lt.mpr ((Text.length_ofNat_le_iff (by decide)).mpr hk)
    have hfirst : Text.ofNat k = lit "0" ∨ (Text.ofNat k).head? ≠ some (pt '0') := by
      by_cases hz : k = 0
      · exact .inl (hz ▸ Text.ofNat_zero)
      · right
        obtain ⟨c, more, hc⟩ := List.exists_cons_of_ne_nil (Text.ofNat_ne_nil k)
        simpa [hc] using Text.head_ofNat_ne_zero hz hc
    rw [number_append negative (Text.isDigits_ofNat k) (Text.ofNat_ne_nil k) hfirst hr.digit, hfraction]
    simp [exponent?_eq_none hr, hlen]
  cases n with
  | ofNat k => exact hnat false hn
  | negSucc k => exact hnat true hn

/-- **The text of a finite number is read to its end, as that number**, in every style. -/
theorem number_render (style : DecimalStyle) {negative : Bool} {m : Nat} {e : Int} (h : Binary64.Canonical m e)
    (hr : Breaks rest) :
    number (Binary64.render style (.finite negative m e h) ++ rest) = .ok (.float (.finite negative m e h), rest) := by
  have hsign : (if negative then lit "-" else []) = signText negative := rfl
  rw [Binary64.render, hsign, List.append_assoc]
  split
  · next hm =>
    subst hm
    obtain ⟨-, -, -, rfl | habsurd⟩ := id h
    · exact number_numeral (n := ⟨lit "0", lit "0", none⟩) negative
        ⟨Text.isDigits_replicate_zero 1, by decide, .inl rfl, Text.isDigits_replicate_zero 1, by simp [lit]⟩ hr
    · simp at habsurd
  · next hm =>
    obtain ⟨n, htext, hregular, hvalue⟩ := Shortest.layout_eq_numeral style (Shortest.decimal_digits_ne_zero h hm)
    rw [htext, number_numeral negative hregular hr, hvalue, Shortest.decimal_reads negative h hm]

/-! ## Where a number begins -/

/-- A text that begins as a number does: with a digit, or with a minus sign and a digit. -/
def BeginsNumber (t : Text) : Prop :=
  ∃ negative c more, CodePoint.isDigit c = true ∧ t = signText negative ++ c :: more

theorem beginsNumber_digits (negative : Bool) {ds : Text} (hd : Text.IsDigits ds) (hne : ds ≠ []) (after : Text) :
    BeginsNumber (signText negative ++ (ds ++ after)) := by
  obtain ⟨c, more, rfl⟩ := List.exists_cons_of_ne_nil hne
  exact ⟨negative, c, more ++ after, hd c (by simp), rfl⟩

theorem beginsNumber_ofInt (n : Int) (after : Text) : BeginsNumber (Text.ofInt n ++ after) := by
  cases n with
  | ofNat k => exact beginsNumber_digits false (Text.isDigits_ofNat k) (Text.ofNat_ne_nil k) after
  | negSucc k => exact beginsNumber_digits true (Text.isDigits_ofNat (k + 1)) (Text.ofNat_ne_nil (k + 1)) after

theorem beginsNumber_render (style : DecimalStyle) {negative : Bool} {m : Nat} {e : Int} (h : Binary64.Canonical m e)
    (after : Text) : BeginsNumber (Binary64.render style (.finite negative m e h) ++ after) := by
  have hsign : (if negative then lit "-" else []) = signText negative := rfl
  rw [Binary64.render, hsign, List.append_assoc]
  split
  · have hzero : Text.IsDigits (lit "0") := Text.isDigits_replicate_zero 1
    exact beginsNumber_digits negative hzero (by decide) (lit ".0" ++ after)
  · next hm =>
    obtain ⟨n, htext, hregular, -⟩ := Shortest.layout_eq_numeral style (Shortest.decimal_digits_ne_zero h hm)
    rw [htext, Numeral.text, List.append_assoc]
    exact beginsNumber_digits negative hregular.whole hregular.nonempty _

/-- No word is at the front of a text that begins as a number. -/
theorem not_prefix_of_beginsNumber {t : Text} (h : BeginsNumber t) : ∀ word ∈ words, ¬ word.1 <+: t := by
  obtain ⟨negative, c, more, hc, rfl⟩ := h
  have hne (d : Char) (hd : (pt d).isDigit = false) : pt d ≠ c := (isDigit_ne hc hd).symm
  have hn := hne 'n' (by decide)
  have ht := hne 't' (by decide)
  have hf := hne 'f' (by decide)
  have hN := hne 'N' (by decide)
  have hI := hne 'I' (by decide)
  have hminus := hne '-' (by decide)
  intro word hword
  simp only [words, List.mem_cons, List.not_mem_nil, or_false] at hword
  rcases hword with rfl | rfl | rfl | rfl | rfl | rfl <;> cases negative <;>
    simp [lit, signText, List.cons_prefix_cons, hn, ht, hf, hN, hI, hminus]

theorem scalar_of_beginsNumber {t : Text} (h : BeginsNumber t) : scalar t = number t := by
  have hnone : words.find? (fun word => word.1.isPrefixOf t) = none :=
    List.find?_eq_none.mpr fun word hword hprefix =>
      not_prefix_of_beginsNumber h word hword (List.isPrefixOf_iff_prefix.mp hprefix)
  rw [scalar, hnone]

end Json

end DiagnosticsClient
