import DiagnosticsClient.Message.Diagnostic
/-
When a record is read from the fields of an object.

A record is read if each of its parts is (`both_eq_ok_iff`), a part if its
field is there and passes its check, or is missing and has a value of its own.
So what is read of each record is said once here: the values its fields
pass for, and the fields it keeps (`Request.ofFields_eq_ok_iff` and its like).
-/
namespace DiagnosticsClient

variable {α β : Type}

theorem Except.map_eq_ok_iff {ε : Type} {f : α → β} {x : Except ε α} {b : β} :
    x.map f = .ok b ↔ ∃ a, x = .ok a ∧ f a = b := by
  cases x <;> simp [Except.map]

namespace Checked

variable {f : Checked (α → β)} {x : Checked α} {a : α} {b : β}

theorem both_eq_ok_iff : both f x = .ok b ↔ ∃ g a, f = .ok g ∧ x = .ok a ∧ g a = b := by
  cases f <;> cases x <;> simp [both]

@[simp] theorem within_eq_ok_iff {name : Text} : within name x = .ok a ↔ x = .ok a := by
  cases x <;> simp [within]

@[simp] theorem titled_eq_ok_iff {title : Text} : x.titled title = .ok a ↔ x = .ok a := by
  cases x <;> simp [titled]

@[simp] theorem flaw_ne_ok {flaw : Flaw} : Checked.flaw flaw ≠ .ok a := nofun

end Checked

/-! ## The fields of an object -/

/-- No name of a field has half a surrogate pair. -/
def Json.Fields.IsNamed (fields : Json.Fields) : Prop := ∀ f ∈ fields, f.1.any CodePoint.isSurrogate = false

namespace Json.Fields

variable {fields kept : Json.Fields} {names : List Text} {name : Text} {v : Json}

theorem get?_cons (f : Text × Json) (fields : Json.Fields) (name : Text) :
    get? (f :: fields) name = if f.1 = name then some f.2 else get? fields name := by
  unfold get?
  rw [List.find?_cons]
  by_cases h : f.1 = name
  · simp [h]
  · rw [if_neg h, beq_false_of_ne h]

theorem get?_eq_none_iff : get? fields name = none ↔ name ∉ fields.map (·.1) := by
  induction fields with
  | nil => simp [get?]
  | cons f fields ih =>
    rw [get?_cons, List.map_cons, List.mem_cons, not_or]
    split
    · next h => simp [h]
    · next h => simp [ih, Ne.symm h]

/-- A field that is first among those of its name can be found. -/
theorem mem_of_get? (h : get? fields name = some v) : (name, v) ∈ fields := by
  obtain ⟨f, hf, rfl⟩ := Option.map_eq_some_iff.mp h
  have hname : f.1 = name := by simpa using List.find?_some hf
  exact hname ▸ List.mem_of_find?_eq_some hf

theorem has_eq_isSome (fields : Json.Fields) (name : Text) : has fields name = (get? fields name).isSome := by
  rw [has, get?, Option.isSome_map, List.isSome_find?]

theorem has_of_mem {f : Text × Json} (h : f ∈ fields) : has fields f.1 = true :=
  List.any_eq_true.mpr ⟨f, h, beq_self_eq_true _⟩

theorem get?_append (fields kept : Json.Fields) (name : Text) :
    get? (fields ++ kept) name = (get? fields name).or (get? kept name) := by
  simp only [get?, List.find?_append]
  cases fields.find? (·.1 == name) <;> rfl

/-- Fields that are left out by their names do not matter to the others. -/
theorem get?_without (h : name ∉ names) : get? (fields.without names) name = get? fields name := by
  induction fields with
  | nil => rfl
  | cons f fields ih =>
    unfold without at ih ⊢
    rw [List.filter_cons]
    split
    · rw [get?_cons, get?_cons, ih]
    · next hf =>
      have hmem : f.1 ∈ names := by simpa using hf
      rw [ih, get?_cons, if_neg]
      rintro rfl
      exact h hmem

/-- Fields of other names are all kept. -/
theorem without_eq_self (h : ∀ f ∈ fields, f.1 ∉ names) : fields.without names = fields :=
  List.filter_eq_self.mpr fun f hf => by simpa using h f hf

theorem without_eq_nil (h : ∀ f ∈ fields, f.1 ∈ names) : fields.without names = [] :=
  List.filter_eq_nil_iff.mpr fun f hf => by simpa using h f hf

theorem without_append (fields kept : Json.Fields) (names : List Text) :
    Json.Fields.without (fields ++ kept) names = fields.without names ++ kept.without names := List.filter_append ..

theorem not_mem_of_mem_without {f : Text × Json} (h : f ∈ fields.without names) : f.1 ∉ names := by
  simpa using (List.mem_filter.mp h).2

theorem IsNamed.sublist (h : fields.IsNamed) (hsub : ∀ f ∈ kept, f ∈ fields) : kept.IsNamed := fun f hf => h f (hsub f hf)

theorem IsNamed.without (h : fields.IsNamed) (names : List Text) : (fields.without names).IsNamed :=
  h.sublist fun _ hf => (List.mem_filter.mp hf).1

theorem isNamed_append : IsNamed (fields ++ kept) ↔ fields.IsNamed ∧ kept.IsNamed := List.forall_mem_append

instance : Decidable fields.IsNamed := inferInstanceAs (Decidable (∀ f ∈ fields, _))

end Json.Fields

theorem checkNamed_eq_ok_iff {fields : Json.Fields} {record : Checked α} {a : α} :
    checkNamed fields record = .ok a ↔ fields.IsNamed ∧ record = .ok a := by
  unfold checkNamed
  split
  · next h =>
    obtain ⟨f, hf, hsurrogate⟩ := List.any_eq_true.mp h
    refine ⟨fun h => (Checked.flaw_ne_ok h).elim, fun ⟨hnamed, _⟩ => ?_⟩
    exact absurd (hnamed f hf) (by simp [hsurrogate])
  · next h =>
    have hnamed : fields.IsNamed := fun f hf => Bool.eq_false_iff.mpr fun hs => h (List.any_eq_true.mpr ⟨f, hf, hs⟩)
    exact (and_iff_right hnamed).symm

theorem required_eq_ok_iff {fields : Json.Fields} {name : Text} {check : Json → Checked α} {a : α} :
    required fields name check = .ok a ↔ ∃ v, fields.get? name = some v ∧ check v = .ok a := by
  unfold required
  cases fields.get? name <;> simp

theorem optional_eq_ok_iff {fields : Json.Fields} {name : Text} {default : α} {check : Json → Checked α} {a : α} :
    optional fields name default check = .ok a ↔
      (∃ v, fields.get? name = some v ∧ check v = .ok a) ∨ fields.get? name = none ∧ a = default := by
  unfold optional
  cases fields.get? name with
  | none => simp [eq_comm]
  | some v => simp

/-! ## What the records are read from -/

/-- **A request is read from the fields it names**, and keeps the others. -/
theorem Request.ofFields_eq_ok_iff {fields : Json.Fields} {r : Request} :
    Request.ofFields fields = .ok r ↔ fields.IsNamed ∧
      required fields (lit "seq") WholeNumber.check = .ok r.seq ∧
      optional fields (lit "type") () (checkLiteral typeName) = .ok () ∧
      required fields (lit "command") checkText = .ok r.command ∧
      optional fields (lit "arguments") none (checkOption checkObject) = .ok r.arguments ∧
      r.extra = fields.without fieldNames := by
  obtain ⟨seq, command, arguments, extra⟩ := r
  simp only [ofFields, checkNamed_eq_ok_iff, Checked.both_eq_ok_iff, Except.map_eq_ok_iff]
  constructor
  · rintro ⟨hnamed, _, _, ⟨_, _, ⟨_, _, ⟨_, hseq, rfl⟩, htype, rfl⟩, hcommand, rfl⟩, harguments, heq⟩
    cases heq
    exact ⟨hnamed, hseq, htype, hcommand, harguments, rfl⟩
  · rintro ⟨hnamed, hseq, htype, hcommand, harguments, hextra⟩
    subst hextra
    exact ⟨hnamed, _, _, ⟨_, _, ⟨_, _, ⟨_, hseq, rfl⟩, htype, rfl⟩, hcommand, rfl⟩, harguments, rfl⟩

/-- **A response is read from the fields it names**, and keeps the others. -/
theorem Response.ofFields_eq_ok_iff {fields : Json.Fields} {r : Response} :
    Response.ofFields fields = .ok r ↔ fields.IsNamed ∧
      optional fields (lit "seq") 0 WholeNumber.check = .ok r.seq ∧
      optional fields (lit "type") () (checkLiteral typeName) = .ok () ∧
      required fields (lit "request_seq") WholeNumber.check = .ok r.requestSeq ∧
      required fields (lit "command") checkText = .ok r.command ∧
      optional fields (lit "success") true TruthValue.check = .ok r.success ∧
      optional fields (lit "message") none (checkOption checkText) = .ok r.message ∧
      optional fields (lit "body") .null .ok = .ok r.body ∧
      r.extra = fields.without fieldNames := by
  obtain ⟨seq, requestSeq, command, success, message, body, extra⟩ := r
  simp only [ofFields, checkNamed_eq_ok_iff, Checked.both_eq_ok_iff, Except.map_eq_ok_iff]
  constructor
  · rintro ⟨hnamed, _, _, ⟨_, _, ⟨_, _, ⟨_, _, ⟨_, _, ⟨_, _, ⟨_, hseq, rfl⟩, htype, rfl⟩, hrequest, rfl⟩, hcommand, rfl⟩,
      hsuccess, rfl⟩, hmessage, rfl⟩, hbody, heq⟩
    cases heq
    exact ⟨hnamed, hseq, htype, hrequest, hcommand, hsuccess, hmessage, hbody, rfl⟩
  · rintro ⟨hnamed, hseq, htype, hrequest, hcommand, hsuccess, hmessage, hbody, hextra⟩
    subst hextra
    exact ⟨hnamed, _, _, ⟨_, _, ⟨_, _, ⟨_, _, ⟨_, _, ⟨_, _, ⟨_, hseq, rfl⟩, htype, rfl⟩, hrequest, rfl⟩, hcommand, rfl⟩,
      hsuccess, rfl⟩, hmessage, rfl⟩, hbody, rfl⟩

/-- **An event is read from the fields it names**, and keeps the others. -/
theorem Event.ofFields_eq_ok_iff {fields : Json.Fields} {e : Event} :
    Event.ofFields fields = .ok e ↔ fields.IsNamed ∧
      optional fields (lit "seq") 0 WholeNumber.check = .ok e.seq ∧
      optional fields (lit "type") () (checkLiteral typeName) = .ok () ∧
      required fields (lit "event") checkText = .ok e.event ∧
      optional fields (lit "body") .null .ok = .ok e.body ∧
      e.extra = fields.without fieldNames := by
  obtain ⟨seq, event, body, extra⟩ := e
  simp only [ofFields, checkNamed_eq_ok_iff, Checked.both_eq_ok_iff, Except.map_eq_ok_iff]
  constructor
  · rintro ⟨hnamed, _, _, ⟨_, _, ⟨_, _, ⟨_, hseq, rfl⟩, htype, rfl⟩, hevent, rfl⟩, hbody, heq⟩
    cases heq
    exact ⟨hnamed, hseq, htype, hevent, hbody, rfl⟩
  · rintro ⟨hnamed, hseq, htype, hevent, hbody, hextra⟩
    subst hextra
    exact ⟨hnamed, _, _, ⟨_, _, ⟨_, _, ⟨_, hseq, rfl⟩, htype, rfl⟩, hevent, rfl⟩, hbody, rfl⟩

/-- **A place is read from the two fields it names**, and keeps the others. -/
theorem Location.check_obj_eq_ok_iff {fields : Json.Fields} {l : Location} :
    Location.check (.obj fields) = .ok l ↔ fields.IsNamed ∧
      required fields (lit "line") WholeNumber.check = .ok l.line ∧
      required fields (lit "offset") WholeNumber.check = .ok l.offset ∧
      l.extra = fields.without fieldNames := by
  obtain ⟨line, offset, extra⟩ := l
  simp only [check, checkNamed_eq_ok_iff, Checked.both_eq_ok_iff, Except.map_eq_ok_iff]
  constructor
  · rintro ⟨hnamed, _, _, ⟨_, hline, rfl⟩, hoffset, heq⟩
    cases heq
    exact ⟨hnamed, hline, hoffset, rfl⟩
  · rintro ⟨hnamed, hline, hoffset, hextra⟩
    subst hextra
    exact ⟨hnamed, _, _, ⟨_, hline, rfl⟩, hoffset, rfl⟩

/-- The names under which a diagnostic in a spelling finds its fields. -/
def Spelling.namesIn (spelling : Spelling) (fields : Json.Fields) : List Text :=
  let (start, stop, text) := spelling.fieldNames
  [lit "code", lit "category", spelling.nameIn fields start, spelling.nameIn fields stop, text]

/-- **A diagnostic is read from the fields it names in its spelling**, and keeps the others. -/
theorem Diagnostic.check_obj_eq_ok_iff {spelling : Spelling} {fields : Json.Fields} {d : Diagnostic} :
    Diagnostic.check spelling (.obj fields) = .ok d ↔ fields.IsNamed ∧ d.spelling = spelling ∧
      optional fields (lit "code") none (checkOption WholeNumber.check) = .ok d.code ∧
      optional fields (lit "category") (lit "error") checkText = .ok d.category ∧
      required fields (spelling.nameIn fields spelling.fieldNames.1) Location.check = .ok d.start ∧
      required fields (spelling.nameIn fields spelling.fieldNames.2.1) Location.check = .ok d.stop ∧
      required fields spelling.fieldNames.2.2 checkText = .ok d.text ∧
      d.extra = fields.without (spelling.namesIn fields) := by
  obtain ⟨spelling', code, category, start, stop, text, extra⟩ := d
  simp only [check, checkNamed_eq_ok_iff, Checked.both_eq_ok_iff, Except.map_eq_ok_iff]
  constructor
  · rintro ⟨hnamed, _, _, ⟨_, _, ⟨_, _, ⟨_, _, ⟨_, hcode, rfl⟩, hcategory, rfl⟩, hstart, rfl⟩, hstop, rfl⟩, htext, heq⟩
    cases heq
    exact ⟨hnamed, rfl, hcode, hcategory, hstart, hstop, htext, rfl⟩
  · rintro ⟨hnamed, hspelling, hcode, hcategory, hstart, hstop, htext, hextra⟩
    subst hspelling hextra
    exact ⟨hnamed, _, _, ⟨_, _, ⟨_, _, ⟨_, _, ⟨_, hcode, rfl⟩, hcategory, rfl⟩, hstart, rfl⟩, hstop, rfl⟩, htext, rfl⟩

end DiagnosticsClient
