import Mathlib.Data.List.Forall2
import DiagnosticsClient.Proofs.Report.Totals
import DiagnosticsClient.Proofs.Text.Decimal
/-
Colours of a report, and the report without them.

A report in colours is the plain one with styles put around some of its pieces (`Painted`), row by row and diagnostic by
diagnostic: each function of the report is the same for both themes but for the styles, and fails alike for both (`Both`).
What takes the sequence of a style out up to its own end, and leaves alone what is not behind an escape character
(`Strips`), then gives the plain report back, whatever it does to other sequences (`uncoloured_is_plain`). A sequence
ends at its own final sign whatever text comes after it: digits and semicolons there are not taken for parameters.
-/
namespace DiagnosticsClient

namespace Style

/-! ## Texts with styles in them -/

/-- A text with styles around some of its pieces, and the text without them. -/
inductive Painted : Text → Text → Prop
  | nil : Painted [] []
  | bare {c : CodePoint} {s t : Text} (hc : c ≠ escape) : Painted s t → Painted (c :: s) (c :: t)
  | styled (code : Nat) {piece s t : Text} (hpiece : escape ∉ piece) : Painted s t → Painted (apply code piece ++ s) (piece ++ t)

variable {s s' t t' : Text} {code : Nat} {f : Text → Text} {after? : Text → Option Text}

theorem Painted.append (h : Painted s t) (h' : Painted s' t') : Painted (s ++ s') (t ++ t') := by
  induction h with
  | nil => exact h'
  | bare hc _ ih => exact .bare hc ih
  | styled code hpiece _ ih => simpa only [List.append_assoc] using Painted.styled code hpiece ih

theorem painted_same (h : escape ∉ t) : Painted t t := by
  induction t with
  | nil => exact .nil
  | cons c t ih =>
    obtain ⟨hc, ht⟩ := List.ne_and_not_mem_of_not_mem_cons h
    exact .bare (Ne.symm hc) (ih ht)

theorem painted_apply (h : escape ∉ t) : Painted (apply code t) t := by
  simpa using Painted.styled code h .nil

theorem Painted.join {sep : Text} (hsep : escape ∉ sep) {ss ts : List Text} (h : List.Forall₂ Painted ss ts) :
    Painted (Text.join sep ss) (Text.join sep ts) := by
  induction h with
  | nil => exact .nil
  | @cons s t ss ts hst hrest ih =>
    cases hrest with
    | nil => exact hst
    | cons h' hrest' => exact (hst.append (painted_same hsep)).append ih

theorem Painted.flatten {ss ts : List Text} (h : List.Forall₂ Painted ss ts) : Painted ss.flatten ts.flatten := by
  induction h with
  | nil => exact .nil
  | cons hst _ ih => exact hst.append ih

/-! ## Taking styles out -/

/-- What takes the sequence of a style out of a text, up to its own end, and keeps what no escape character comes before. -/
structure Strips (f : Text → Text) : Prop where
  nil : f [] = []
  keeps {c : CodePoint} (hc : c ≠ escape) (t : Text) : f (c :: t) = c :: f t
  ends (code : Nat) (t : Text) : f (sequence code ++ t) = f t

theorem Strips.append (hf : Strips f) (h : escape ∉ s) (t : Text) : f (s ++ t) = s ++ f t := by
  induction s with
  | nil => rfl
  | cons c s ih =>
    obtain ⟨hc, hs⟩ := List.ne_and_not_mem_of_not_mem_cons h
    rw [List.cons_append, hf.keeps (Ne.symm hc), ih hs, List.cons_append]

/-- The text of a piece in a style starts right after one sequence and ends right before another. -/
theorem Strips.apply_append (hf : Strips f) (h : escape ∉ s) (t : Text) : f (apply code s ++ t) = s ++ f t := by
  rw [apply, List.append_assoc, List.append_assoc, hf.ends, hf.append h, hf.ends]

/-- **The styles come out of a text, and nothing else does.** -/
theorem Painted.eq_of_strips (h : Painted s t) (hf : Strips f) : f s = t := by
  induction h with
  | nil => exact hf.nil
  | bare hc _ ih => rw [hf.keeps hc, ih]
  | styled code hpiece _ ih => rw [hf.apply_append hpiece, ih]

/-! ## Sequences behind an escape character -/

/-- A text without what `after?` finds behind an escape character; `fuel` bounds its length. -/
def without (after? : Text → Option Text) : (fuel : Nat) → Text → Text
  | 0, t => t
  | _, [] => []
  | fuel + 1, c :: rest =>
    if c = escape then
      match after? rest with
      | some rest => without after? fuel rest
      | none => c :: without after? fuel rest
    else c :: without after? fuel rest

/-- What finds the end of a style, whatever follows, and goes on from there. -/
structure Ends (after? : Text → Option Text) : Prop where
  past (code : Nat) (t : Text) : after? (pt '[' :: (Text.ofNat code ++ pt 'm' :: t)) = some t
  onward {t rest : Text} (h : after? t = some rest) : rest.length ≤ t.length

/-- As much fuel as there is text is enough, and more makes no difference. -/
theorem Ends.without_eq (h : Ends after?) {fuel : Nat} (hfuel : t.length ≤ fuel) :
    without after? fuel t = without after? t.length t := by
  -- the text gets shorter by the escape character at least, so both amounts of fuel are above the length of the rest
  induction hn : t.length using Nat.strongRecOn generalizing t fuel with
  | _ n ih =>
    subst hn
    cases t with
    | nil => cases fuel <;> rfl
    | cons c t =>
      cases fuel with
      | zero => simp at hfuel
      | succ fuel =>
        simp only [List.length_cons, Nat.add_le_add_iff_right] at hfuel ih ⊢
        have hrest (rest : Text) (hle : rest.length ≤ t.length) : without after? fuel rest = without after? t.length rest :=
          (ih rest.length (Nat.lt_succ_of_le hle) (hle.trans hfuel) rfl).trans
            (ih rest.length (Nat.lt_succ_of_le hle) hle rfl).symm
        simp only [without, hrest t le_rfl]
        split
        · split
          · next rest hafter => exact hrest rest (h.onward hafter)
          · rfl
        · rfl

theorem Ends.strips (h : Ends after?) : Strips fun t => without after? t.length t where
  nil := rfl
  keeps hc t := by simp only [List.length_cons, without, if_neg hc]
  ends code t := by
    have hpast := h.past code t
    have hlength : t.length ≤ (pt '[' :: (Text.ofNat code ++ pt 'm' :: t)).length := h.onward hpast
    simpa only [sequence, List.cons_append, List.append_assoc, List.nil_append, List.length_cons, without, if_true, hpast]
      using h.without_eq hlength

/-! ## The two ways to tell a sequence -/

theorem length_dropWhile_le {p : CodePoint → Bool} : (t.dropWhile p).length ≤ t.length :=
  (List.dropWhile_suffix p).length_le

/-- Parameters are left at the sign that ends a style, and the text behind it is not looked at. -/
theorem dropWhile_ofNat {p : CodePoint → Bool} (hdigit : ∀ c : CodePoint, c.isDigit = true → p c = true) (hm : p (pt 'm') = false) :
    (Text.ofNat code ++ pt 'm' :: t).dropWhile p = pt 'm' :: t := by
  rw [List.dropWhile_append_of_pos fun c hc => hdigit c (Text.isDigits_ofNat code c hc)]
  exact List.dropWhile_cons_of_neg (by simp [hm])

/-- A sequence of any kind, as `strip` takes it out. -/
theorem ends_afterSequence : Ends afterSequence? where
  past code t := by
    have hdigit (c : CodePoint) (hc : c.isDigit = true) : isParameter c = true := by
      have h := CodePoint.isDigit_iff.mp hc
      simp only [isParameter, Bool.and_eq_true, decide_eq_true_eq]
      omega
    rw [afterSequence?, if_pos rfl, dropWhile_ofNat hdigit (by decide), List.dropWhile_cons_of_neg (by decide)]
    rfl
  onward {t rest} h := by
    cases t with
    | nil => cases h
    | cons c t =>
      rw [afterSequence?] at h
      split at h
      · have hle : ((t.dropWhile isParameter).dropWhile isIntermediate).length ≤ t.length :=
          length_dropWhile_le.trans length_dropWhile_le
        split at h
        · next hrest =>
          rw [hrest] at hle
          split at h
          · cases h
            simp only [List.length_cons] at hle ⊢
            omega
          · cases h
        · cases h
      · cases h

theorem strip_eq (t : Text) : strip t = without afterSequence? t.length t := by
  have go (fuel : Nat) (t : Text) : stripWithin fuel t = without afterSequence? fuel t := by
    induction fuel generalizing t with
    | zero => cases t <;> rfl
    | succ fuel ih =>
      cases t with
      | nil => rfl
      | cons c t =>
        by_cases hc : c = escape
        · cases hafter : afterSequence? t <;> simp only [stripWithin, without, if_pos hc, hafter, ih]
        · simp only [stripWithin, without, if_neg hc, ih]
  exact go _ _

theorem strips_strip : Strips strip := by
  simpa only [← strip_eq] using ends_afterSequence.strips

/-- What follows a sequence whose parameters are digits, semicolons and question marks and whose last sign is a letter. -/
def afterLetter? : Text → Option Text
  | c :: rest =>
    if c = pt '[' then
      match rest.dropWhile fun c => c.isDigit || c = pt ';' || c = pt '?' with
      | last :: rest => if (0x41 ≤ last.val ∧ last.val ≤ 0x5A) ∨ (0x61 ≤ last.val ∧ last.val ≤ 0x7A) then some rest else none
      | [] => none
    else none
  | [] => none

/-- A text without its sequences that end with a letter. -/
def stripLetters (t : Text) : Text := without afterLetter? t.length t

theorem ends_afterLetter : Ends afterLetter? where
  past code t := by
    rw [afterLetter?, if_pos rfl, dropWhile_ofNat (fun c hc => by simp [hc]) (by decide)]
    rfl
  onward {t rest} h := by
    cases t with
    | nil => cases h
    | cons c t =>
      rw [afterLetter?] at h
      split at h
      · split at h
        · next hrest =>
          have hle := length_dropWhile_le.trans_eq' (congrArg List.length hrest)
          split at h
          · cases h
            simp only [List.length_cons] at hle ⊢
            omega
          · cases h
        · cases h
      · cases h

theorem strips_stripLetters : Strips stripLetters := ends_afterLetter.strips

end Style

/-! ## Reports for both themes -/

/-- No name, no category, no message and no line of a record has an escape character in it. -/
structure Record.IsEscapeFree (r : Record) : Prop where
  file : Style.escape ∉ r.file
  category : ∀ d ∈ r.diagnostics, Style.escape ∉ d.category
  text : ∀ d ∈ r.diagnostics, Style.escape ∉ d.text
  code : ∀ lines ∈ r.code, ∀ line ∈ lines, Style.escape ∉ line

namespace Console

open Style

/-- Both fail alike, or both give something, and `R` relates what they give. -/
inductive Both {ε α β : Type} (R : α → β → Prop) : Except ε α → Except ε β → Prop
  | fails (e : ε) : Both R (.error e) (.error e)
  | gives {a : α} {b : β} (h : R a b) : Both R (.ok a) (.ok b)

section Both

variable {ε α β γ δ : Type} {R : α → β → Prop} {S : γ → δ → Prop} {x : Except ε α} {y : Except ε β}

theorem both_same {R : α → α → Prop} (h : ∀ a, x = .ok a → R a a) : Both R x x := by
  cases x with
  | error e => exact .fails e
  | ok a => exact .gives (h a rfl)

theorem Both.map (h : Both R x y) {f : α → γ} {g : β → δ} (hfg : ∀ a b, R a b → S (f a) (g b)) : Both S (x.map f) (y.map g) := by
  cases h with
  | fails e => exact .fails e
  | gives h => exact .gives (hfg _ _ h)

theorem Both.bind (h : Both R x y) {f : α → Except ε γ} {g : β → Except ε δ} (hfg : ∀ a b, R a b → Both S (f a) (g b)) :
    Both S (x >>= f) (y >>= g) := by
  cases h with
  | fails e => exact .fails e
  | gives h => exact hfg _ _ h

theorem Both.mapM {α' β' : Type} {f : α' → Except ε α} {g : β' → Except ε β} {xs : List α'} {ys : List β'}
    (h : List.Forall₂ (fun a b => Both R (f a) (g b)) xs ys) : Both (List.Forall₂ R) (xs.mapM f) (ys.mapM g) := by
  induction h with
  | nil => exact .gives .nil
  | cons h _ ih =>
    rw [List.mapM_cons, List.mapM_cons]
    exact h.bind fun _ _ hab => ih.bind fun _ _ hrest => .gives (.cons hab hrest)

/-- What is related by `f` is the same but for `f`. -/
theorem Both.map_eq (h : Both R x y) {f : α → β} (hf : ∀ a b, R a b → f a = b) : x.map f = y := by
  cases h with
  | fails e => rfl
  | gives h => exact congrArg Except.ok (hf _ _ h)

end Both

variable {file line : Text} {d : Diagnostic} {code : List Text} {context : Context} {width : Nat} {records : List Record}

/-! ## Texts of numbers and blanks -/

theorem escape_not_mem_of_isDigits {t : Text} (h : Text.IsDigits t) : escape ∉ t :=
  fun hmem => absurd (h escape hmem) (by decide)

theorem escape_not_mem_ofNat (n : Nat) : escape ∉ Text.ofNat n :=
  escape_not_mem_of_isDigits (Text.isDigits_ofNat n)

theorem escape_not_mem_ofInt (n : Int) : escape ∉ Text.ofInt n := by
  cases n with
  | ofNat n => exact escape_not_mem_ofNat n
  | negSucc n =>
    rw [Text.ofInt, List.mem_cons, not_or]
    exact ⟨by decide, escape_not_mem_ofNat (n + 1)⟩

theorem escape_not_mem_codeText (code : Option Int) : escape ∉ codeText code := by
  cases code with
  | none => decide
  | some n => exact escape_not_mem_ofInt n

theorem escape_not_mem_replicate {n : Nat} {c : CodePoint} (hc : escape ≠ c) : escape ∉ List.replicate n c :=
  fun hmem => hc (List.mem_replicate.mp hmem).2

theorem escape_not_mem_decimal {n : Int} {t : Text} (h : Text.decimal? n = .ok t) : escape ∉ t := by
  unfold Text.decimal? at h
  split at h
  · cases h
    exact escape_not_mem_ofInt n
  · cases h

theorem escape_not_mem_copies {c : CodePoint} {n : Int} {t : Text} (hc : escape ≠ c) (h : Text.copies? c n = .ok t) : escape ∉ t := by
  unfold Text.copies? at h
  split at h
  · cases h
  · split at h
    · cases h
    · cases h
      exact escape_not_mem_replicate hc

/-! ## Each part of a report -/

theorem header_painted (hfile : escape ∉ file) (hcategory : escape ∉ d.category) (htext : escape ∉ d.text) :
    Painted (header .coloured file d) (header .plain file d) := by
  have hplace : escape ∉ pt ':' :: (Text.ofInt d.start.line ++ pt ':' :: Text.ofInt d.start.offset) := by
    simp only [List.mem_cons, List.mem_append, not_or]
    exact ⟨by decide, escape_not_mem_ofInt _, by decide, escape_not_mem_ofInt _⟩
  have hcode : escape ∉ lit " TS" ++ codeText d.code ++ lit ": " := by
    simp only [List.mem_append, not_or]
    exact ⟨⟨by decide, escape_not_mem_codeText _⟩, by decide⟩
  exact (((((painted_apply hfile).append (painted_apply hplace)).append (painted_same (by decide))).append
    (painted_apply hcategory)).append (painted_apply hcode)).append (painted_same htext)

theorem lineRow_painted {number : Int} (hline : escape ∉ line) :
    Both Painted (lineRow .coloured width number line) (lineRow .plain width number line) := by
  unfold lineRow
  refine Both.map (R := fun s t => s = t ∧ escape ∉ t) (both_same fun t ht => ⟨rfl, escape_not_mem_decimal ht⟩) ?_
  rintro number _ ⟨rfl, hnumber⟩
  have hpadded : escape ∉ padLeft width number := by
    rw [padLeft, List.mem_append, not_or]
    exact ⟨escape_not_mem_replicate (by decide), hnumber⟩
  exact (painted_apply hpadded).append (.bare (by decide) (painted_same hline))

theorem markRow_painted {category : Text} {first last : Int} :
    Both Painted (markRow .coloured category width first last) (markRow .plain category width first last) := by
  have hcopies (c : CodePoint) (hc : escape ≠ c) (n : Int) :
      Both (fun s t => s = t ∧ escape ∉ t) (Text.copies? c n) (Text.copies? c n) :=
    both_same fun t ht => ⟨rfl, escape_not_mem_copies hc ht⟩
  refine (hcopies (pt ' ') (by decide) first).bind ?_
  rintro blanks _ ⟨rfl, hblanks⟩
  refine (hcopies (pt '~') (by decide) (max (last - first) 0)).bind ?_
  rintro tildes _ ⟨rfl, htildes⟩
  have hmarks : escape ∉ blanks ++ tildes := by simp [hblanks, htildes]
  exact .gives ((painted_apply (escape_not_mem_replicate (by decide))).append (.bare (by decide) (painted_apply hmarks)))

theorem lineRows_painted {before : Int} {index : Nat} (hline : escape ∉ line) :
    Both (List.Forall₂ Painted) (lineRows .coloured d width before line index) (lineRows .plain d width before line index) :=
  (lineRow_painted hline).bind fun _ _ hrow =>
    (Both.mapM (List.forall₂_same.mpr fun _ _ => markRow_painted)).bind fun _ _ hmarks => .gives (.cons hrow hmarks)

theorem rows_painted (hcode : ∀ line ∈ code, escape ∉ line) :
    Both (List.Forall₂ Painted) (rows .coloured d code context) (rows .plain d code context) := by
  refine (both_same (R := Eq) fun _ _ => rfl).bind ?_
  rintro width _ rfl
  have hlines : List.Forall₂ (fun p q : Text × Nat =>
      Both (List.Forall₂ Painted) (lineRows .coloured d width (min (d.start.line - 1) context.before) p.1 p.2)
        (lineRows .plain d width (min (d.start.line - 1) context.before) q.1 q.2)) code.zipIdx code.zipIdx :=
    List.forall₂_same.mpr fun p hp => lineRows_painted (hcode p.1 (List.fst_mem_of_mem_zipIdx hp))
  exact (Both.mapM hlines).bind fun _ _ hrows => .gives (List.rel_flatten hrows)

theorem message_painted (hfile : escape ∉ file) (hcategory : escape ∉ d.category) (htext : escape ∉ d.text)
    (hcode : ∀ line ∈ code, escape ∉ line) :
    Both Painted (message .coloured file d code context) (message .plain file d code context) :=
  ((rows_painted hcode).map fun _ _ hrows => Painted.join (by decide) hrows).map fun _ _ hfragment =>
    Painted.join (by decide) (.cons (header_painted hfile hcategory htext) (.cons .nil (.cons hfragment (.cons .nil .nil))))

theorem recordMessages_painted {r : Record} (h : r.IsEscapeFree) :
    List.Forall₂ (Both Painted) (recordMessages .coloured r) (recordMessages .plain r) := by
  refine List.forall₂_map_left_iff.mpr (List.forall₂_map_right_iff.mpr (List.forall₂_same.mpr ?_))
  rintro ⟨d, index⟩ hmem
  have hd : d ∈ r.diagnostics := List.fst_mem_of_mem_zipIdx hmem
  refine message_painted h.file (h.category d hd) (h.text d hd) ?_
  cases hcode : r.code[index]? with
  | none => simp
  | some lines => exact h.code lines (List.mem_of_getElem? hcode)

/-! ## Whole reports -/

theorem totals_escapeFree (h : ∀ r ∈ records, r.IsEscapeFree) : ∀ total ∈ totals records, escape ∉ total := by
  intro total htotal
  obtain ⟨⟨category, n⟩, hmem, rfl⟩ := List.mem_map.mp htotal
  obtain ⟨r, hr, d, hd, rfl⟩ := mem_keys_iff.mp (List.mem_map_of_mem hmem)
  simp only [List.mem_append, not_or]
  exact ⟨⟨⟨by decide, (h r hr).category d hd⟩, by decide⟩, escape_not_mem_ofNat n⟩

theorem pieces_painted (h : ∀ r ∈ records, r.IsEscapeFree) :
    List.Forall₂ (Both Painted) (pieces .coloured records) (pieces .plain records) := by
  refine List.rel_append ?_ ?_
  · exact List.rel_flatMap (R := fun r r' => r = r' ∧ r.IsEscapeFree)
      (List.forall₂_same.mpr fun r hr => ⟨rfl, h r hr⟩) fun _ _ ⟨heq, hr⟩ => heq ▸ recordMessages_painted hr
  · exact List.forall₂_map_left_iff.mpr (List.forall₂_map_right_iff.mpr
      (List.forall₂_same.mpr fun total htotal => .gives (painted_same (totals_escapeFree h total htotal))))

/-- Each piece without its styles is the plain one. -/
theorem map_pieces (h : ∀ r ∈ records, r.IsEscapeFree) {f : Text → Text} (hf : Strips f) :
    (pieces .coloured records).map (·.map f) = pieces .plain records := by
  rw [← List.forall₂_eq_eq_eq, List.forall₂_map_left_iff]
  exact (pieces_painted h).imp fun _ _ hboth => hboth.map_eq fun _ _ hpainted => hpainted.eq_of_strips hf

theorem printed_false_eq (h : ∀ r ∈ records, r.IsEscapeFree) :
    printed false records = (pieces .plain records).map (·.map (· ++ [pt '\n'])) := by
  rw [← map_pieces h strips_strip, List.map_map]
  refine List.map_congr_left fun piece _ => ?_
  cases piece <;> rfl

theorem printed_painted (h : ∀ r ∈ records, r.IsEscapeFree) :
    List.Forall₂ (Both Painted) (printed true records) (printed false records) := by
  rw [printed_false_eq h]
  exact List.forall₂_map_left_iff.mpr (List.forall₂_map_right_iff.mpr ((pieces_painted h).imp fun _ _ hboth =>
    hboth.map fun _ _ hpainted => hpainted.append (painted_same (by decide))))

theorem report_painted (h : ∀ r ∈ records, r.IsEscapeFree) : Both Painted (report true records) (report false records) :=
  (Both.mapM (printed_painted h)).map fun _ _ hprinted => Painted.flatten hprinted

/-- **The report without colours is the plain one.** It has the diagnostics of each record in turn, each as if there were
no styles, and then the totals, each with a line end. It is the report in colours but for the styles put around pieces of
it, and whatever takes the sequences of styles out of that one gives it, piece by piece and as a whole. -/
theorem uncoloured_is_plain (h : ∀ r ∈ records, r.IsEscapeFree) :
    printed false records =
      (records.flatMap (recordMessages .plain)).map (·.map (· ++ [pt '\n'])) ++
        (totals records).map (fun total => .ok (total ++ [pt '\n'])) ∧
    List.Forall₂ (Both Painted) (printed true records) (printed false records) ∧
    Both Painted (report true records) (report false records) ∧
    ∀ f, Strips f → (printed true records).map (·.map f) = printed false records ∧
      (report true records).map f = report false records := by
  refine ⟨?_, printed_painted h, report_painted h, fun f hf => ⟨?_, ?_⟩⟩
  · rw [printed_false_eq h, pieces, List.map_append, List.map_map (l := totals records)]
    rfl
  · rw [← List.forall₂_eq_eq_eq, List.forall₂_map_left_iff]
    exact (printed_painted h).imp fun _ _ hboth => hboth.map_eq fun _ _ hpainted => hpainted.eq_of_strips hf
  · exact (report_painted h).map_eq fun _ _ hpainted => hpainted.eq_of_strips hf

/-- A record whose texts all start like the rest of a sequence. -/
def numeralRecord : Record :=
  { file := lit "7m"
    diagnostics := [{ spelling := .plain, code := some 6, category := lit "0;error", text := lit "[3;4m", extra := []
                      start := { line := 1, offset := 2, extra := [] }, stop := { line := 1, offset := 3, extra := [] } }]
    code := [[lit "5;m"]] }

/-- Nothing of the texts is taken for a sequence, and the mark stays under its column. -/
theorem uncoloured_is_plain_of_numerals :
    (∀ r ∈ [numeralRecord], r.IsEscapeFree) ∧
    (report true [numeralRecord]).map stripLetters = report false [numeralRecord] ∧
    report false [numeralRecord] = .ok (lit "7m:1:2 - 0;error TS6: [3;4m\n\n1 5;m\n   ~\n\nTotal 0;errors: 1\n") := by
  have h : ∀ r ∈ [numeralRecord], r.IsEscapeFree :=
    List.forall_mem_singleton.mpr ⟨by decide, by decide, by decide, by decide⟩
  obtain ⟨-, -, -, hstrips⟩ := uncoloured_is_plain h
  exact ⟨h, (hstrips stripLetters strips_stripLetters).2, by decide +kernel⟩

end Console

end DiagnosticsClient
