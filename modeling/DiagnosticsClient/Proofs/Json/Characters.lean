import DiagnosticsClient.Proofs.Json.RoundTrip
/-
The characters of a printed text.

A string is escaped so that no control character is left in it, and numbers,
words and marks have none. So a value without half a surrogate pair is printed
to characters that are all past the control characters and that every Unicode
encoding has a form for, and to those that its layout puts between them
(`forall_renderAt`).
-/
namespace DiagnosticsClient

/-- A character that is no control character and no half of a surrogate pair. -/
def CodePoint.IsClear (c : CodePoint) : Prop := 0x20 ≤ c.val ∧ c.isSurrogate = false

instance (c : CodePoint) : Decidable c.IsClear := inferInstanceAs (Decidable (_ ∧ _))

/-- A text of such characters. -/
def Text.IsClear (t : Text) : Prop := ∀ c ∈ t, c.IsClear

instance (t : Text) : Decidable t.IsClear := inferInstanceAs (Decidable (∀ c ∈ t, c.IsClear))

namespace Text

theorem isClear_nil : IsClear [] := by simp [IsClear]

theorem isClear_cons {c : CodePoint} {t : Text} : IsClear (c :: t) ↔ c.IsClear ∧ IsClear t := by
  simp [IsClear]

theorem isClear_append {s t : Text} : IsClear (s ++ t) ↔ IsClear s ∧ IsClear t := by
  simp [IsClear, or_imp, forall_and]

theorem IsDigits.isClear {t : Text} (h : IsDigits t) : t.IsClear := by
  intro c hc
  have := CodePoint.isDigit_iff.mp (h c hc)
  simp only [CodePoint.IsClear, CodePoint.isSurrogate, Bool.and_eq_false_iff, decide_eq_false_iff_not]
  omega

theorem isClear_ofInt (n : Int) : (ofInt n).IsClear := by
  cases n with
  | ofNat k => exact (isDigits_ofNat k).isClear
  | negSucc k => exact isClear_cons.mpr ⟨by decide, (isDigits_ofNat (k + 1)).isClear⟩

end Text

open Text (isClear_nil isClear_cons isClear_append)

/-! ## Numbers -/

theorem Numeral.Regular.isClear {n : Numeral} (h : n.Regular) : n.text.IsClear := by
  have hpart : (Numeral.pointed n.part).IsClear := by
    unfold Numeral.pointed
    split
    · exact isClear_nil
    · exact isClear_cons.mpr ⟨by decide, h.part.isClear⟩
  have hmark : (Numeral.marked n.exponent).IsClear := by
    cases n.exponent with
    | none => exact isClear_nil
    | some we =>
      refine isClear_cons.mpr ⟨by decide, isClear_cons.mpr ⟨?_, ?_⟩⟩
      · split <;> decide
      · exact ((Text.isDigits_replicate_zero _).append (Text.isDigits_ofNat _)).isClear
  exact isClear_append.mpr ⟨h.whole.isClear, isClear_append.mpr ⟨hpart, hmark⟩⟩

theorem Binary64.isClear_render (style : DecimalStyle) {x : Binary64} (hx : Json.isFinite x = true) :
    (x.render style).IsClear := by
  cases x with
  | finite negative m e h =>
    rw [render, isClear_append]
    constructor
    · split
      · exact isClear_cons.mpr ⟨by decide, isClear_nil⟩
      · exact isClear_nil
    · split
      · decide
      · next hm =>
        obtain ⟨n, htext, hregular, -⟩ := Shortest.layout_eq_numeral style (Shortest.decimal_digits_ne_zero h hm)
        rw [htext]
        exact hregular.isClear
  | nan | infinite => cases hx

namespace Json

/-! ## Strings -/

/-- Whether a text has no half of a surrogate pair. -/
def isPaired (t : Text) : Bool := t.all fun c => !c.isSurrogate

mutual
/-- Whether no string or name in a value has half a surrogate pair. -/
def isEncodable : Json → Bool
  | .null | .bool _ | .int _ | .float _ => true
  | .str t => isPaired t
  | .arr vs => areEncodable vs
  | .obj fs => fieldsEncodable fs

def areEncodable : List Json → Bool
  | [] => true
  | v :: vs => v.isEncodable && areEncodable vs

def fieldsEncodable : List (Text × Json) → Bool
  | [] => true
  | (name, v) :: fs => isPaired name && v.isEncodable && fieldsEncodable fs
end

theorem areEncodable_iff {vs : List Json} : areEncodable vs = true ↔ ∀ v ∈ vs, v.isEncodable = true := by
  induction vs with
  | nil => simp [areEncodable]
  | cons v vs ih => simp [areEncodable, ih]

theorem isClear_hex (width n : Nat) : (Text.hex width n).IsClear := by
  induction width generalizing n with
  | zero => exact isClear_nil
  | succ width ih =>
    refine isClear_append.mpr ⟨ih (n / 16), isClear_cons.mpr ⟨?_, isClear_nil⟩⟩
    have h : ∀ k < 16, (Text.hexDigit k).IsClear := by decide
    exact h _ (Nat.mod_lt _ (by decide))

theorem isClear_escape {c : CodePoint} (h : c.isSurrogate = false) : (escape c).IsClear := by
  unfold escape
  split
  · decide
  · split
    · decide
    · split
      · split_ifs
        · decide
        · decide
        · decide
        · decide
        · decide
        · exact isClear_append.mpr ⟨by decide, isClear_hex 4 c.val⟩
      · next hc => exact isClear_cons.mpr ⟨⟨Nat.not_lt.mp hc, h⟩, isClear_nil⟩

theorem isClear_quote {t : Text} (h : isPaired t = true) : (quote t).IsClear := by
  refine isClear_cons.mpr ⟨by decide, isClear_append.mpr ⟨?_, by decide⟩⟩
  intro d hd
  obtain ⟨c, hc, hd⟩ := List.mem_flatMap.mp hd
  simp only [isPaired, List.all_eq_true, Bool.not_eq_true'] at h
  exact isClear_escape (h c hc) d hd

/-! ## Values -/

/-- What all clear characters have, and those that a layout puts between the parts of a value. -/
structure Layout.Shares (layout : Layout) (P : CodePoint → Prop) : Prop where
  clear : ∀ t : Text, t.IsClear → ∀ c ∈ t, P c
  comma : ∀ c ∈ layout.comma, P c
  colon : ∀ c ∈ layout.colon, P c
  newline : ∀ level, ∀ c ∈ layout.newline level, P c

theorem Layout.shares_compact : compact.Shares CodePoint.IsClear :=
  ⟨fun _ h => h, by decide, by decide, fun _ => isClear_nil⟩

variable (style : DecimalStyle) {layout : Layout} {P : CodePoint → Prop}

mutual
/-- **The characters of a printed value** are clear ones where the value has no half of a surrogate pair, and those of its
layout. -/
theorem forall_renderAt (hP : layout.Shares P) (level : Nat) (v : Json) (hv : v.isExact = true) (he : v.isEncodable = true) :
    ∀ c ∈ renderAt style layout level v, P c := by
  cases v with
  | null =>
    rw [renderAt]
    exact hP.clear _ (by decide)
  | bool b => cases b <;> rw [renderAt] <;> exact hP.clear _ (by decide)
  | int n =>
    rw [renderAt]
    exact hP.clear _ (Text.isClear_ofInt n)
  | float x =>
    rw [renderAt]
    exact hP.clear _ (Binary64.isClear_render style hv)
  | str t =>
    rw [renderAt]
    exact hP.clear _ (isClear_quote he)
  | arr vs =>
    cases vs with
    | nil =>
      rw [renderAt]
      exact hP.clear _ (by decide)
    | cons v vs =>
      simp only [isExact, areExact, isEncodable, areEncodable, Bool.and_eq_true] at hv he
      rw [renderAt]
      simp only [List.forall_mem_cons, List.forall_mem_append]
      exact ⟨hP.clear [pt '['] (by decide) _ (List.mem_singleton.mpr rfl),
        ⟨⟨⟨hP.newline _, forall_renderAt hP _ v hv.1 he.1⟩, forall_renderItems hP _ vs hv.2 he.2⟩, hP.newline _⟩,
        hP.clear _ (by decide)⟩
  | obj fs =>
    cases fs with
    | nil =>
      rw [renderAt]
      exact hP.clear _ (by decide)
    | cons f fs =>
      obtain ⟨name, v⟩ := f
      simp only [isExact, fieldsExact, isEncodable, fieldsEncodable, Bool.and_eq_true] at hv he
      rw [renderAt, renderField]
      simp only [List.forall_mem_cons, List.forall_mem_append]
      exact ⟨hP.clear [pt '\x7b'] (by decide) _ (List.mem_singleton.mpr rfl),
        ⟨⟨⟨hP.newline _, ⟨hP.clear _ (isClear_quote he.1.1), hP.colon⟩, forall_renderAt hP _ v hv.2.1 he.1.2⟩,
          forall_renderFields hP _ fs hv.2.2 he.2⟩, hP.newline _⟩, hP.clear _ (by decide)⟩

theorem forall_renderItems (hP : layout.Shares P) (level : Nat) (vs : List Json) (hv : areExact vs = true)
    (he : areEncodable vs = true) : ∀ c ∈ renderItems style layout level vs, P c := by
  cases vs with
  | nil => exact List.forall_mem_nil P
  | cons v vs =>
    simp only [areExact, areEncodable, Bool.and_eq_true] at hv he
    rw [renderItems]
    simp only [List.forall_mem_append]
    exact ⟨hP.comma, hP.newline _, forall_renderAt hP level v hv.1 he.1, forall_renderItems hP level vs hv.2 he.2⟩

theorem forall_renderFields (hP : layout.Shares P) (level : Nat) (fs : Fields) (hv : fieldsExact fs = true)
    (he : fieldsEncodable fs = true) : ∀ c ∈ renderFields style layout level fs, P c := by
  cases fs with
  | nil => exact List.forall_mem_nil P
  | cons f fs =>
    obtain ⟨name, v⟩ := f
    simp only [fieldsExact, fieldsEncodable, Bool.and_eq_true] at hv he
    rw [renderFields, renderField]
    simp only [List.forall_mem_append]
    exact ⟨hP.comma, hP.newline _, ⟨⟨hP.clear _ (isClear_quote he.1.1), hP.colon⟩, forall_renderAt hP level v hv.1 he.1.2⟩,
      forall_renderFields hP level fs hv.2 he.2⟩
end

/-- **A compact text has no control character**, and no half of a surrogate pair where its value has none. -/
theorem isClear_renderAt (level : Nat) (v : Json) (hv : v.isExact = true) (he : v.isEncodable = true) :
    (renderAt style .compact level v).IsClear :=
  forall_renderAt style Layout.shares_compact level v hv he

end Json

end DiagnosticsClient
