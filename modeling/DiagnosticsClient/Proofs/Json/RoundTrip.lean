import DiagnosticsClient.Proofs.Json.Numerals
import DiagnosticsClient.Proofs.Json.Strings
/-
A printed value reads back as that value.

`isExact` says which values a text can stand for: their numbers are finite and
not longer than the limit, and no object has a field twice. Such a value is
printed to a text that the reader takes back to it, whatever the style of its
numbers and wherever the layout puts space, if the reader may go as deep as the
value is nested (`parseWithin_render`).

The induction is on the depth the reader may go to: an array or an object is
read by its items, and the reader may go one less deep into those.
-/
namespace DiagnosticsClient

namespace Json

/-! ## Values that a text can stand for -/

/-- Whether a number is neither infinite nor not-a-number. -/
def isFinite : Binary64 → Bool
  | .finite .. => true
  | _ => false

mutual
/-- Whether a text can stand for a value. -/
def isExact : Json → Bool
  | .null | .bool _ | .str _ => true
  | .int n => n.natAbs < 10 ^ Text.digitLimit
  | .float x => isFinite x
  | .arr vs => areExact vs
  | .obj fs => decide (fs.map (·.1)).Nodup && fieldsExact fs

def areExact : List Json → Bool
  | [] => true
  | v :: vs => v.isExact && areExact vs

def fieldsExact : List (Text × Json) → Bool
  | [] => true
  | (_, v) :: fs => v.isExact && fieldsExact fs
end

mutual
/-- How many arrays and objects stand inside each other in a value. -/
def nesting : Json → Nat
  | .null | .bool _ | .int _ | .float _ | .str _ => 0
  | .arr vs => nestingItems vs + 1
  | .obj fs => nestingFields fs + 1

def nestingItems : List Json → Nat
  | [] => 0
  | v :: vs => max v.nesting (nestingItems vs)

def nestingFields : List (Text × Json) → Nat
  | [] => 0
  | (_, v) :: fs => max v.nesting (nestingFields fs)
end

theorem areExact_iff {vs : List Json} : areExact vs = true ↔ ∀ v ∈ vs, v.isExact = true := by
  induction vs with
  | nil => simp [areExact]
  | cons v vs ih => simp [areExact, ih]

theorem fieldsExact_iff {fs : Fields} : fieldsExact fs = true ↔ ∀ f ∈ fs, f.2.isExact = true := by
  induction fs with
  | nil => simp [fieldsExact]
  | cons f fs ih => simp [fieldsExact, ih]

theorem nestingItems_le_iff {vs : List Json} {k : Nat} : nestingItems vs ≤ k ↔ ∀ v ∈ vs, v.nesting ≤ k := by
  induction vs with
  | nil => simp [nestingItems]
  | cons v vs ih => simp [nestingItems, ih]

theorem nestingFields_le_iff {fs : Fields} {k : Nat} : nestingFields fs ≤ k ↔ ∀ f ∈ fs, f.2.nesting ≤ k := by
  induction fs with
  | nil => simp [nestingFields]
  | cons f fs ih => simp [nestingFields, ih]

/-! ## Space -/

theorem skipSpace_append {space : Text} (h : ∀ c ∈ space, isSpace c = true) (t : Text) :
    skipSpace (space ++ t) = skipSpace t := List.dropWhile_append_of_pos h

theorem skipSpace_of_space {space : Text} (h : ∀ c ∈ space, isSpace c = true) : skipSpace space = [] := by
  simpa [skipSpace] using h

theorem breaks_of_space {space : Text} (h : ∀ c ∈ space, isSpace c = true) : Breaks space := by
  intro c hc
  have hspace := h c (List.mem_of_mem_head? hc)
  obtain ⟨n, hn⟩ := c
  simp only [isSpace, Bool.or_eq_true, decide_eq_true_eq] at hspace
  rcases hspace with ((rfl | rfl) | rfl) | rfl <;> rfl

theorem skipSpace_of_head {t : Text} (h : ∀ c ∈ t.head?, isSpace c = false) : skipSpace t = t := by
  cases t with
  | nil => rfl
  | cons c t => simp [skipSpace, h c (by simp)]

namespace Layout

/-- A layout with nothing but its mark and space between the parts of a value. -/
structure Spaced (layout : Layout) : Prop where
  comma : ∃ space, layout.comma = pt ',' :: space ∧ ∀ c ∈ space, isSpace c = true
  colon : ∃ space, layout.colon = pt ':' :: space ∧ ∀ c ∈ space, isSpace c = true

theorem spaced_compact : compact.Spaced := ⟨⟨[], rfl, by simp⟩, ⟨[], rfl, by simp⟩⟩

theorem spaced_indented : indented.Spaced := ⟨⟨[], rfl, by simp⟩, ⟨[pt ' '], rfl, by decide⟩⟩

variable (layout : Layout)

theorem isSpace_newline (level : Nat) : ∀ c ∈ layout.newline level, isSpace c = true := by
  unfold newline
  split
  · simp
  · intro c hc
    rcases List.mem_cons.mp hc with rfl | hc
    · decide
    · rw [(List.mem_replicate.mp hc).2]
      decide

theorem breaks_newline (level : Nat) {c : CodePoint} {rest : Text} (h : Breaks (c :: rest)) :
    Breaks (layout.newline level ++ c :: rest) := by
  unfold newline
  split
  · exact h
  · exact .of_mem (by decide)

end Layout

/-! ## The front of a text -/

variable (style : DecimalStyle) (layout : Layout)

/-- What the text of a value begins with: no space, no closing bracket and nothing past ASCII. -/
def Fronts (c : CodePoint) : Prop := isSpace c = false ∧ c ≠ pt ']' ∧ c.val < 0x80

instance (c : CodePoint) : Decidable (Fronts c) := inferInstanceAs (Decidable (_ ∧ _ ∧ _))

theorem head_renderAt (level : Nat) {v : Json} (hv : v.isExact = true) (rest : Text) :
    ∃ c more, renderAt style layout level v ++ rest = c :: more ∧ Fronts c := by
  have hnumber {t : Text} (h : BeginsNumber t) : ∃ c more, t = c :: more ∧ Fronts c := by
    obtain ⟨negative, c, more, hc, rfl⟩ := h
    cases negative with
    | true => exact ⟨pt '-', c :: more, rfl, by decide⟩
    | false =>
      have := CodePoint.isDigit_iff.mp hc
      refine ⟨c, more, rfl, ?_, isDigit_ne hc (by decide), by omega⟩
      simp [isSpace]
      omega
  cases v with
  | null => exact ⟨_, _, rfl, by decide⟩
  | bool b => cases b <;> exact ⟨_, _, rfl, by decide⟩
  | int n =>
    rw [renderAt]
    exact hnumber (beginsNumber_ofInt n rest)
  | float x =>
    cases x with
    | finite negative m e h =>
      rw [renderAt]
      exact hnumber (beginsNumber_render style h rest)
    | nan | infinite => cases hv
  | str t =>
    rw [renderAt]
    exact ⟨_, _, rfl, by decide⟩
  | arr vs => cases vs <;> rw [renderAt] <;> exact ⟨_, _, rfl, by decide⟩
  | obj fs => cases fs <;> rw [renderAt] <;> exact ⟨_, _, rfl, by decide⟩

/-! ## Reading scalars -/

variable {room depth : Nat} {rest : Text}

theorem value_string (t : Text) : value room depth (quote t ++ rest) = .ok (.str t, rest) := by
  have h (opening : Text) : stringTail opening [] (t.flatMap escape ++ pt '"' :: rest) = .ok (t, rest) := by
    simpa using stringTail_flatMap_escape opening [] t rest
  have hquote : quote t ++ rest = pt '"' :: (t.flatMap escape ++ pt '"' :: rest) := by
    simp [quote, lit]
  rw [hquote]
  cases depth <;> simp only [value, if_true, h] <;> rfl

/-- A text that begins as no string, array or object is read as a word or a number. -/
theorem value_eq_scalar {c : CodePoint} {more : Text} (h : c ∉ [pt '"', pt '[', pt '\x7b']) :
    value room depth (c :: more) = scalar (c :: more) := by
  simp only [List.mem_cons, List.not_mem_nil, or_false, not_or] at h
  cases depth <;> simp only [value, if_neg h.1, if_neg h.2.1, if_neg h.2.2]

theorem value_of_beginsNumber {t : Text} (h : BeginsNumber t) : value room depth t = number t := by
  rw [← scalar_of_beginsNumber h]
  obtain ⟨negative, c, more, hc, rfl⟩ := h
  cases negative with
  | true => exact value_eq_scalar (by decide)
  | false =>
    refine value_eq_scalar ?_
    simp only [List.mem_cons, List.not_mem_nil, or_false, not_or]
    exact ⟨isDigit_ne hc (by decide), isDigit_ne hc (by decide), isDigit_ne hc (by decide)⟩

/-- A value that holds no others is read to the end of its text, at every depth. -/
theorem value_renderAt_leaf (level : Nat) {v : Json} (hv : v.isExact = true) (hleaf : v.nesting = 0) (hr : Breaks rest) :
    value room depth (renderAt style layout level v ++ rest) = .ok (v, rest) := by
  cases v with
  | null =>
    rw [renderAt, lit]
    exact value_eq_scalar (by decide)
  | bool b =>
    cases b
    · exact value_eq_scalar (by decide)
    · exact value_eq_scalar (by decide)
  | int n =>
    rw [renderAt, value_of_beginsNumber (beginsNumber_ofInt n rest), number_ofInt _ hr]
    simpa [isExact] using hv
  | float x =>
    cases x with
    | finite negative m e h => rw [renderAt, value_of_beginsNumber (beginsNumber_render style h rest), number_render style h hr]
    | nan | infinite => cases hv
  | str t =>
    rw [renderAt]
    exact value_string t
  | arr vs => cases hleaf
  | obj fs => cases hleaf

/-! ## Reading items and fields -/

theorem breaks_closeBracket (rest : Text) : Breaks (pt ']' :: rest) := .of_mem (by decide)

theorem breaks_closeBrace (rest : Text) : Breaks (pt '\x7d' :: rest) := .of_mem (by decide)

/-- What follows the text of an item: a break of the line and the closing mark, or a comma. -/
theorem breaks_after_item {layout : Layout} (hl : layout.Spaced) (level level' : Nat) (vs : List Json) {close : CodePoint}
    (hclose : Breaks (close :: rest)) :
    Breaks (renderItems style layout level' vs ++ (layout.newline level ++ close :: rest)) := by
  cases vs with
  | nil => exact layout.breaks_newline level hclose
  | cons v vs =>
    obtain ⟨space, hcomma, -⟩ := hl.comma
    rw [renderItems, hcomma]
    exact .of_mem (by decide)

theorem breaks_after_field {layout : Layout} (hl : layout.Spaced) (level level' : Nat) (fs : Fields) {close : CodePoint}
    (hclose : Breaks (close :: rest)) :
    Breaks (renderFields style layout level' fs ++ (layout.newline level ++ close :: rest)) := by
  cases fs with
  | nil => exact layout.breaks_newline level hclose
  | cons f fs =>
    obtain ⟨space, hcomma, -⟩ := hl.comma
    rw [renderFields, hcomma]
    exact .of_mem (by decide)

/-- A reader that takes the text of a value back to it, whatever may follow that text. -/
def ReadsBack (item : Text → Read Json) (level : Nat) (v : Json) : Prop :=
  ∀ rest, Breaks rest → item (renderAt style layout level v ++ rest) = .ok (v, rest)

variable {style layout} {item : Text → Read Json} {level' : Nat}

/-- The items of an array are read back up to its closing bracket. -/
theorem items_renderItems (hl : layout.Spaced) (level : Nat) (rest : Text) {vs : List Json} (v : Json) (hexact : ∀ w ∈ v :: vs, w.isExact = true)
    (hitem : ∀ w ∈ v :: vs, ReadsBack style layout item level' w) (acc : List Json) {fuel : Nat} (hfuel : vs.length < fuel) :
    items item fuel acc (renderAt style layout level' v ++
      (renderItems style layout level' vs ++ (layout.newline level ++ pt ']' :: rest))) =
        .ok (acc.reverse ++ v :: vs, rest) := by
  induction vs generalizing v acc fuel with
  | nil =>
    obtain ⟨fuel, rfl⟩ : ∃ k, fuel = k + 1 := ⟨fuel - 1, by omega⟩
    have hbreaks := breaks_after_item style hl level level' [] (breaks_closeBracket rest)
    rw [items, hitem v (by simp) _ hbreaks]
    simp only [renderItems, List.nil_append]
    rw [skipSpace_append (layout.isSpace_newline level), skipSpace_of_head (by simp; decide)]
    simp
  | cons w vs ih =>
    obtain ⟨fuel, rfl⟩ : ∃ k, fuel = k + 1 := ⟨fuel - 1, by omega⟩
    have hbreaks := breaks_after_item style hl level level' (w :: vs) (breaks_closeBracket rest)
    obtain ⟨space, hcomma, hspace⟩ := hl.comma
    obtain ⟨c, more, hc, hnospace, -, -⟩ := head_renderAt style layout level' (hexact w (by simp))
      (renderItems style layout level' vs ++ (layout.newline level ++ pt ']' :: rest))
    have hskip : skipSpace (space ++ (layout.newline level' ++ (renderAt style layout level' w ++
        (renderItems style layout level' vs ++ (layout.newline level ++ pt ']' :: rest))))) = renderAt style layout level' w ++
        (renderItems style layout level' vs ++ (layout.newline level ++ pt ']' :: rest)) := by
      rw [skipSpace_append hspace, skipSpace_append (layout.isSpace_newline level'), hc, skipSpace_of_head (by simpa using hnospace)]
    have hfuel' : vs.length < fuel := by simpa using hfuel
    have ih := ih w (fun u hu => hexact u (List.mem_cons_of_mem _ hu)) (fun u hu => hitem u (List.mem_cons_of_mem _ hu)) (v :: acc)
      hfuel'
    rw [items, hitem v (by simp) _ hbreaks]
    simp only [renderItems, hcomma, List.cons_append, List.append_assoc]
    rw [skipSpace_of_head (by simp; decide)]
    have hne : pt ',' ≠ pt ']' := by decide
    simp only [if_neg hne, if_true, hskip, ih]
    simp

/-- A field is read by its value. -/
theorem member_renderField (hl : layout.Spaced) {f : Text × Json} (hexact : f.2.isExact = true) (rest : Text) :
    member item (renderField style layout level' f ++ rest) =
      (item (renderAt style layout level' f.2 ++ rest)).map fun (v, rest) => ((f.1, v), rest) := by
  obtain ⟨name, v⟩ := f
  obtain ⟨space, hcolon, hspace⟩ := hl.colon
  obtain ⟨c, more, hc, hnospace, -, -⟩ := head_renderAt style layout level' hexact rest
  have htext : renderField style layout level' (name, v) ++ rest =
      pt '"' :: (name.flatMap escape ++ pt '"' :: (pt ':' :: (space ++ (renderAt style layout level' v ++ rest)))) := by
    simp [renderField, quote, lit, hcolon]
  have hskip : skipSpace (space ++ (renderAt style layout level' v ++ rest)) = renderAt style layout level' v ++ rest := by
    rw [skipSpace_append hspace, hc, skipSpace_of_head (by simpa using hnospace)]
  rw [htext, member]
  simp only [if_true, stringTail_flatMap_escape]
  rw [skipSpace_of_head (by simp; decide)]
  simp only [if_true, hskip]
  cases item (renderAt style layout level' v ++ rest) <;> rfl

theorem Fields.set_of_not_mem {fs : Fields} {name : Text} (h : name ∉ fs.map (·.1)) (v : Json) :
    Fields.set fs name v = fs ++ [(name, v)] := by
  have hno : Fields.has fs name = false := by
    rw [Fields.has, List.any_eq_false]
    intro f hf hname
    exact h (List.mem_map.mpr ⟨f, hf, by simpa using hname⟩)
  rw [Fields.set, hno]
  rfl

/-- The fields of an object are read back up to its closing brace, each at the end of those before it. -/
theorem members_renderFields (hl : layout.Spaced) (level : Nat) (rest : Text) {fs : Fields} (f : Text × Json) (hexact : ∀ g ∈ f :: fs, g.2.isExact = true)
    (hitem : ∀ g ∈ f :: fs, ReadsBack style layout item level' g.2) (acc : Fields)
    (hnames : ((acc ++ f :: fs).map (·.1)).Nodup) {fuel : Nat} (hfuel : fs.length < fuel) :
    members item fuel acc (renderField style layout level' f ++
      (renderFields style layout level' fs ++ (layout.newline level ++ pt '\x7d' :: rest))) =
        .ok (acc ++ f :: fs, rest) := by
  induction fs generalizing f acc fuel with
  | nil =>
    obtain ⟨fuel, rfl⟩ : ∃ k, fuel = k + 1 := ⟨fuel - 1, by omega⟩
    have hbreaks := breaks_after_field style hl level level' [] (breaks_closeBrace rest)
    have hnew : f.1 ∉ acc.map (·.1) := by
      rw [List.map_append, List.nodup_append] at hnames
      exact fun hf => hnames.2.2 _ hf _ (by simp) rfl
    rw [members, member_renderField hl (hexact f (by simp)), hitem f (by simp) _ hbreaks]
    simp only [renderFields, List.nil_append, Except.map]
    rw [skipSpace_append (layout.isSpace_newline level), skipSpace_of_head (by simp; decide)]
    simp [Fields.set_of_not_mem hnew]
  | cons g fs ih =>
    obtain ⟨fuel, rfl⟩ : ∃ k, fuel = k + 1 := ⟨fuel - 1, by omega⟩
    have hbreaks := breaks_after_field style hl level level' (g :: fs) (breaks_closeBrace rest)
    have hnew : f.1 ∉ acc.map (·.1) := by
      rw [List.map_append, List.nodup_append] at hnames
      exact fun hf => hnames.2.2 _ hf _ (by simp) rfl
    obtain ⟨space, hcomma, hspace⟩ := hl.comma
    have hskip : skipSpace (space ++ (layout.newline level' ++ (renderField style layout level' g ++
        (renderFields style layout level' fs ++ (layout.newline level ++ pt '\x7d' :: rest))))) =
        renderField style layout level' g ++
          (renderFields style layout level' fs ++ (layout.newline level ++ pt '\x7d' :: rest)) := by
      rw [skipSpace_append hspace, skipSpace_append (layout.isSpace_newline level'), skipSpace_of_head]
      obtain ⟨name, w⟩ := g
      simp [renderField, quote]
      decide
    have hfuel' : fs.length < fuel := by simpa using hfuel
    have ih := ih g (fun u hu => hexact u (List.mem_cons_of_mem _ hu)) (fun u hu => hitem u (List.mem_cons_of_mem _ hu))
      (acc ++ [f]) (by simpa using hnames) hfuel'
    rw [members, member_renderField hl (hexact f (by simp)), hitem f (by simp) _ hbreaks]
    simp only [renderFields, hcomma, List.cons_append, List.append_assoc, Except.map]
    rw [skipSpace_of_head (by simp; decide)]
    have hne : pt ',' ≠ pt '\x7d' := by decide
    simp only [if_neg hne, if_true, hskip, Fields.set_of_not_mem hnew, ih]
    simp

/-! ## How much room a text gives -/

variable (style layout)

theorem length_renderItems (hl : layout.Spaced) (level : Nat) (vs : List Json) :
    vs.length ≤ (renderItems style layout level vs).length := by
  obtain ⟨space, hcomma, -⟩ := hl.comma
  induction vs with
  | nil => simp
  | cons v vs ih =>
    rw [renderItems, hcomma]
    simp only [List.length_cons, List.length_append]
    omega

theorem length_renderFields (hl : layout.Spaced) (level : Nat) (fs : Fields) :
    fs.length ≤ (renderFields style layout level fs).length := by
  obtain ⟨space, hcomma, -⟩ := hl.comma
  induction fs with
  | nil => simp
  | cons f fs ih =>
    rw [renderFields, hcomma]
    simp only [List.length_cons, List.length_append]
    omega

/-- An item's text is part of the text of its array. -/
theorem length_renderAt_le_of_mem (level : Nat) {vs : List Json} {v : Json} (h : v ∈ vs) :
    (renderAt style layout level v).length ≤ (renderItems style layout level vs).length := by
  induction vs with
  | nil => cases h
  | cons w vs ih =>
    rw [renderItems]
    simp only [List.length_append]
    rcases List.mem_cons.mp h with rfl | h
    · omega
    · have := ih h
      omega

theorem length_renderAt_le_of_mem_field (level : Nat) {fs : Fields} {f : Text × Json} (h : f ∈ fs) :
    (renderAt style layout level f.2).length ≤ (renderFields style layout level fs).length := by
  induction fs with
  | nil => cases h
  | cons g fs ih =>
    rw [renderFields]
    simp only [List.length_append]
    rcases List.mem_cons.mp h with rfl | h
    · obtain ⟨name, v⟩ := f
      simp only [renderField, List.length_append]
      omega
    · have := ih h
      omega

/-! ## Values -/

/-- An array with items is read by its items. -/
theorem value_array {space body : Text} (hspace : ∀ c ∈ space, isSpace c = true)
    (hbody : ∃ c more, body = c :: more ∧ Fronts c) :
    value room (depth + 1) (pt '[' :: (space ++ body)) =
      (items (value room depth) room [] body).map fun (vs, rest) => (.arr vs, rest) := by
  obtain ⟨c, more, rfl, hc, hclose, -⟩ := hbody
  have hskip : skipSpace (space ++ c :: more) = c :: more := by
    rw [skipSpace_append hspace, skipSpace_of_head (by simpa using hc)]
  have hquote : pt '[' ≠ pt '"' := by decide
  simp only [value, if_neg hquote, if_true, hskip, if_neg hclose]

/-- An object with fields is read by its fields. -/
theorem value_object {space body : Text} (hspace : ∀ c ∈ space, isSpace c = true)
    (hbody : ∃ more, body = pt '"' :: more) :
    value room (depth + 1) (pt '\x7b' :: (space ++ body)) =
      (members (value room depth) room [] body).map fun (fs, rest) => (.obj fs, rest) := by
  obtain ⟨more, rfl⟩ := hbody
  have hskip : skipSpace (space ++ pt '"' :: more) = pt '"' :: more := by
    rw [skipSpace_append hspace, skipSpace_of_head (by simp; decide)]
  have hquote : pt '\x7b' ≠ pt '"' := by decide
  have hbracket : pt '\x7b' ≠ pt '[' := by decide
  have hclose : pt '"' ≠ pt '\x7d' := by decide
  simp only [value, if_neg hquote, if_neg hbracket, if_true, hskip, if_neg hclose]

theorem value_empty_array (rest : Text) : value room (depth + 1) (lit "[]" ++ rest) = .ok (.arr [], rest) := by
  have hskip : skipSpace (pt ']' :: rest) = pt ']' :: rest := skipSpace_of_head (by simp; decide)
  have hquote : pt '[' ≠ pt '"' := by decide
  have htext : lit "[]" ++ rest = pt '[' :: pt ']' :: rest := rfl
  simp only [htext, value, if_neg hquote, if_true, hskip]

theorem value_empty_object (rest : Text) : value room (depth + 1) (lit "\x7b\x7d" ++ rest) = .ok (.obj [], rest) := by
  have hskip : skipSpace (pt '\x7d' :: rest) = pt '\x7d' :: rest := skipSpace_of_head (by simp; decide)
  have hquote : pt '\x7b' ≠ pt '"' := by decide
  have hbracket : pt '\x7b' ≠ pt '[' := by decide
  have htext : lit "\x7b\x7d" ++ rest = pt '\x7b' :: pt '\x7d' :: rest := rfl
  simp only [htext, value, if_neg hquote, if_neg hbracket, if_true, hskip]

/-- **The text of a value is read to its end, as that value**, by a reader that may go as deep as it is nested. -/
theorem value_renderAt {layout : Layout} (hl : layout.Spaced) {room depth level : Nat} {v : Json} (hv : v.isExact = true)
    (hdepth : v.nesting ≤ depth) (hroom : (renderAt style layout level v).length ≤ room) :
    ReadsBack style layout (value room depth) level v := by
  induction depth generalizing v level with
  | zero => exact fun rest hr => value_renderAt_leaf style layout level hv (Nat.le_zero.mp hdepth) hr
  | succ depth ih =>
    intro rest hr
    cases v with
    | null | bool | int | float | str => exact value_renderAt_leaf style layout level hv rfl hr
    | arr vs =>
      cases vs with
      | nil =>
        rw [renderAt]
        exact value_empty_array rest
      | cons v vs =>
        rw [isExact, areExact_iff] at hv
        rw [nesting, Nat.add_le_add_iff_right, nestingItems_le_iff] at hdepth
        simp only [renderAt, List.length_cons, List.length_append] at hroom
        have hitem : ∀ w ∈ v :: vs, ReadsBack style layout (value room depth) (level + 1) w := by
          intro w hw
          refine ih (hv w hw) (hdepth w hw) ?_
          rcases List.mem_cons.mp hw with rfl | hw
          · omega
          · have := length_renderAt_le_of_mem style layout (level + 1) hw
            omega
        have hlen := length_renderItems style layout hl (level + 1) vs
        have hfuel : vs.length < room := by omega
        have hitems := items_renderItems hl level rest v hv hitem [] hfuel
        have htext : renderAt style layout level (.arr (v :: vs)) ++ rest =
            pt '[' :: (layout.newline (level + 1) ++ (renderAt style layout (level + 1) v ++
              (renderItems style layout (level + 1) vs ++ (layout.newline level ++ pt ']' :: rest)))) := by
          simp [renderAt, lit]
        rw [htext, value_array (layout.isSpace_newline (level + 1)) (head_renderAt style layout (level + 1) (hv v (by simp)) _),
          hitems]
        rfl
    | obj fs =>
      cases fs with
      | nil =>
        rw [renderAt]
        exact value_empty_object rest
      | cons f fs =>
        rw [isExact, Bool.and_eq_true, decide_eq_true_eq, fieldsExact_iff] at hv
        rw [nesting, Nat.add_le_add_iff_right, nestingFields_le_iff] at hdepth
        simp only [renderAt, List.length_cons, List.length_append] at hroom
        have hitem : ∀ g ∈ f :: fs, ReadsBack style layout (value room depth) (level + 1) g.2 := by
          intro g hg
          refine ih (hv.2 g hg) (hdepth g hg) ?_
          rcases List.mem_cons.mp hg with rfl | hg
          · obtain ⟨name, w⟩ := g
            simp only [renderField, List.length_append] at hroom ⊢
            omega
          · have := length_renderAt_le_of_mem_field style layout (level + 1) hg
            omega
        have hlen := length_renderFields style layout hl (level + 1) fs
        have hfuel : fs.length < room := by omega
        have hmembers := members_renderFields hl level rest f hv.2 hitem [] hv.1 hfuel
        have htext : renderAt style layout level (.obj (f :: fs)) ++ rest =
            pt '\x7b' :: (layout.newline (level + 1) ++ (renderField style layout (level + 1) f ++
              (renderFields style layout (level + 1) fs ++ (layout.newline level ++ pt '\x7d' :: rest)))) := by
          simp [renderAt, lit]
        have hbody (after : Text) : ∃ more, renderField style layout (level + 1) f ++ after = pt '"' :: more := by
          obtain ⟨name, w⟩ := f
          exact ⟨_, rfl⟩
        rw [htext, value_object (layout.isSpace_newline (level + 1)) (hbody _), hmembers]
        rfl

/-- **A printed value reads back as that value**, whatever space follows its text. -/
theorem parseWithin_render {layout : Layout} (hl : layout.Spaced) {depth : Nat} {v : Json} (hv : v.isExact = true)
    (hdepth : v.nesting ≤ depth) {space : Text} (hspace : ∀ c ∈ space, isSpace c = true) :
    parseWithin depth (v.render style layout ++ space) = .ok v := by
  obtain ⟨c, more, hc, hnospace, -, hascii⟩ := head_renderAt style layout 0 hv space
  have hmark : c ≠ .ofNat 0xFEFF := by
    rintro rfl
    revert hascii
    decide
  have hroom : (renderAt style layout 0 v).length ≤ (v.render style layout ++ space).length := by simp [render]
  have hread := value_renderAt style hl hv hdepth hroom space (breaks_of_space hspace)
  rw [render] at hread ⊢
  rw [hc] at hread ⊢
  have hskip : skipSpace (c :: more) = c :: more := skipSpace_of_head (by simpa using hnospace)
  have hhead : (c :: more).head? ≠ some (.ofNat 0xFEFF) := by simpa using hmark
  simp only [parseWithin, if_neg hhead, hskip, hread, skipSpace_of_space hspace, if_true]

end Json

end DiagnosticsClient
