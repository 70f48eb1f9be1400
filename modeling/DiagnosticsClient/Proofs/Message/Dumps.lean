import DiagnosticsClient.Proofs.Message.Checks
import Mathlib.Tactic.SplitIfs
/-
What a message is dumped to is read back as that message.

A dump shows every declared field under its name, and the kept ones after them. A field that is null may be missing:
each of them that may be null stands for the same as one that is not there (`Holds`). So an envelope is read again from
its dump, with whatever fields it is given to keep (`Message.check_keeping`), and a diagnostic is read again in its
spelling, since the names of no other spelling are added to it (`Diagnostic.parse_dump`). Both together, with what a dump
keeps of the value it was read from, are `dumps_read_back`.
-/
namespace DiagnosticsClient

variable {α : Type}

/-! ## Fields that hold what is declared -/

namespace Json.Fields

variable {declared extra fields : Json.Fields} {name : Text} {v : Json}

/-- Each declared field is found with its value, or is null and missing. -/
def Holds (declared fields : Json.Fields) : Prop :=
  ∀ f ∈ declared, get? fields f.1 = some f.2 ∨ f.2 = .null ∧ get? fields f.1 = none

/-- A field that is there is found, if no other has its name. -/
theorem get?_of_mem (hnodup : (fields.map (·.1)).Nodup) (h : (name, v) ∈ fields) : get? fields name = some v := by
  induction fields with
  | nil => cases h
  | cons f fields ih =>
    rw [List.map_cons, List.nodup_cons] at hnodup
    rw [get?_cons]
    rcases List.mem_cons.mp h with rfl | h
    · rw [if_pos rfl]
    · have hne : f.1 ≠ name := fun heq => hnodup.1 (heq ▸ List.mem_map_of_mem (f := (·.1)) h)
      rw [if_neg hne, ih hnodup.2 h]

/-- Fields hold what is declared if some that are null are left out, and others of other names follow. -/
theorem holds_filter_append (keep : Text × Json → Bool) (hnodup : (declared.map (·.1)).Nodup)
    (hkeep : ∀ f ∈ declared, f.2 ≠ .null → keep f = true) (hextra : ∀ f ∈ extra, f.1 ∉ declared.map (·.1)) :
    Holds declared (declared.filter keep ++ extra) := by
  intro f hf
  have hkept : ((declared.filter keep).map (·.1)).Nodup := hnodup.sublist (List.filter_sublist.map _)
  have hother : get? extra f.1 = none := get?_eq_none_iff.mpr fun hmem => by
    obtain ⟨g, hg, heq⟩ := List.mem_map.mp hmem
    exact hextra g hg (heq ▸ List.mem_map_of_mem hf)
  rw [get?_append, hother, Option.or_none]
  by_cases hk : keep f = true
  · exact .inl (get?_of_mem hkept (List.mem_filter.mpr ⟨hf, hk⟩))
  · refine .inr ⟨Classical.byContradiction fun hv => hk (hkeep f hf hv), get?_eq_none_iff.mpr fun hmem => ?_⟩
    obtain ⟨g, hg, heq⟩ := List.mem_map.mp hmem
    obtain ⟨hg, hgk⟩ := List.mem_filter.mp hg
    have hfind := get?_of_mem hnodup (show (f.1, g.2) ∈ declared from heq ▸ hg)
    have hsame : g = f := Prod.ext heq (Option.some.inj (hfind.symm.trans (get?_of_mem hnodup hf)))
    exact hk (hsame ▸ hgk)

theorem holds_append (hnodup : (declared.map (·.1)).Nodup) (hextra : ∀ f ∈ extra, f.1 ∉ declared.map (·.1)) :
    Holds declared (declared ++ extra) := by
  have h := holds_filter_append (fun _ => true) hnodup (fun _ _ _ => rfl) hextra
  rwa [List.filter_eq_self.mpr fun _ _ => rfl] at h

theorem Holds.get? (h : Holds declared fields) (hmem : (name, v) ∈ declared) (hv : v.isNull = false) :
    get? fields name = some v := by
  rcases h _ hmem with hfound | ⟨rfl, -⟩
  · exact hfound
  · cases hv

/-- A declared field that is not null is read from its value. -/
theorem Holds.required {check : Json → Checked α} {a : α} (h : Holds declared fields) (hmem : (name, v) ∈ declared)
    (hv : v.isNull = false) (hcheck : check v = .ok a) : required fields name check = .ok a :=
  required_eq_ok_iff.mpr ⟨v, h.get? hmem hv, hcheck⟩

/-- A declared field that is not null is read from its value, though it may be missing. -/
theorem Holds.given {check : Json → Checked α} {a default : α} (h : Holds declared fields) (hmem : (name, v) ∈ declared)
    (hv : v.isNull = false) (hcheck : check v = .ok a) : optional fields name default check = .ok a :=
  optional_eq_ok_iff.mpr (.inl ⟨v, h.get? hmem hv, hcheck⟩)

/-- A declared field that may be null is read from its value, or as missing. -/
theorem Holds.optional {check : Json → Checked α} {a default : α} (h : Holds declared fields) (hmem : (name, v) ∈ declared)
    (hcheck : check v = .ok a) (hnull : v = .null → a = default) : optional fields name default check = .ok a := by
  rw [optional_eq_ok_iff]
  rcases h _ hmem with hfound | ⟨hv, hmissing⟩
  · exact .inl ⟨v, hfound, hcheck⟩
  · exact .inr ⟨hmissing, hnull hv⟩

end Json.Fields

open Json.Fields (Holds IsNamed)

/-! ## Envelopes -/

namespace Message

variable {m : Message} {v w : Json} {fields kept : Json.Fields} {name : Text}

/-- The names an envelope declares. -/
def fieldNames : Message → List Text
  | .request _ => Request.fieldNames
  | .response _ => Response.fieldNames
  | .event _ => Event.fieldNames

/-- The fields an envelope keeps beside those it declares. -/
def extra : Message → Json.Fields
  | .request r => r.extra
  | .response r => r.extra
  | .event e => e.extra

/-- An envelope with other fields to keep. -/
def keeping (kept : Json.Fields) : Message → Message
  | .request r => .request { r with extra := kept }
  | .response r => .response { r with extra := kept }
  | .event e => .event { e with extra := kept }

/-- The declared fields of an envelope. -/
def declared (m : Message) : Json.Fields := (m.keeping []).dump

@[simp] theorem keeping_extra (m : Message) : m.keeping m.extra = m := by cases m <;> rfl

@[simp] theorem extra_keeping (m : Message) : (m.keeping kept).extra = kept := by cases m <;> rfl

@[simp] theorem declared_keeping (m : Message) : (m.keeping kept).declared = m.declared := by cases m <;> rfl

theorem dump_eq_append (m : Message) : m.dump = m.declared ++ m.extra := by cases m <;> rfl

@[simp] theorem names_declared (m : Message) : m.declared.map (·.1) = m.fieldNames := by cases m <;> rfl

theorem nodup_fieldNames (m : Message) : m.fieldNames.Nodup := by
  cases m with
  | request r => exact (by decide : Request.fieldNames.Nodup)
  | response r => exact (by decide : Response.fieldNames.Nodup)
  | event e => exact (by decide : Event.fieldNames.Nodup)

theorem isNamed_declared (m : Message) : IsNamed m.declared := by
  have h : ∀ name ∈ m.fieldNames, name.any CodePoint.isSurrogate = false := by
    have hall : ∀ name ∈ Request.fieldNames ++ Response.fieldNames ++ Event.fieldNames,
      name.any CodePoint.isSurrogate = false := by decide
    intro name hname
    cases m <;> exact hall name (by simp only [fieldNames] at hname; simp [hname])
  exact fun f hf => h f.1 (m.names_declared ▸ List.mem_map_of_mem hf)

/-- An envelope is read from fields by the kind that is named in them. -/
def ReadFrom (fields : Json.Fields) : Message → Prop
  | .request r => fields.get? (lit "type") = some (.str Request.typeName) ∧ Request.ofFields fields = .ok r
  | .response r => fields.get? (lit "type") = some (.str Response.typeName) ∧ Response.ofFields fields = .ok r
  | .event e => fields.get? (lit "type") = some (.str Event.typeName) ∧ Event.ofFields fields = .ok e

theorem check_obj_eq_ok_iff : check (.obj fields) = .ok m ↔ m.ReadFrom fields := by
  have hresponse : Response.typeName ≠ Request.typeName := by decide
  have hevent : Event.typeName ≠ Request.typeName ∧ Event.typeName ≠ Response.typeName := by decide
  constructor
  · intro h
    unfold check at h
    dsimp only at h
    split at h
    · cases h
    · next tag htag =>
      split_ifs at h with hrequest hresponse hevent
      · subst hrequest
        obtain ⟨r, hr, rfl⟩ := Except.map_eq_ok_iff.mp (Checked.within_eq_ok_iff.mp h)
        exact ⟨htag, hr⟩
      · subst hresponse
        obtain ⟨r, hr, rfl⟩ := Except.map_eq_ok_iff.mp (Checked.within_eq_ok_iff.mp h)
        exact ⟨htag, hr⟩
      · subst hevent
        obtain ⟨e, he, rfl⟩ := Except.map_eq_ok_iff.mp (Checked.within_eq_ok_iff.mp h)
        exact ⟨htag, he⟩
      · cases h
    · cases h
  · intro h
    cases m with
    | request r => simp only [check, h.1, h.2, if_true]; rfl
    | response r => simp only [check, h.1, h.2, if_neg hresponse, if_true]; rfl
    | event e => simp only [check, h.1, h.2, if_neg hevent.1, if_neg hevent.2, if_true]; rfl

theorem parse_eq_ok_iff : parse v = .ok m ↔ ∃ fields, v = .obj fields ∧ m.ReadFrom fields := by
  rw [parse, Checked.titled_eq_ok_iff]
  cases v with
  | obj fields => simp [check_obj_eq_ok_iff]
  | null | bool | int | float | str | arr => simp [check]

/-- What an envelope keeps are the fields it was read from without those it declares. -/
theorem ReadFrom.extra_eq (h : m.ReadFrom fields) : m.extra = fields.without m.fieldNames := by
  cases m with
  | request r =>
    obtain ⟨-, -, -, -, -, hextra⟩ := Request.ofFields_eq_ok_iff.mp h.2
    exact hextra
  | response r =>
    obtain ⟨-, -, -, -, -, -, -, -, hextra⟩ := Response.ofFields_eq_ok_iff.mp h.2
    exact hextra
  | event e =>
    obtain ⟨-, -, -, -, -, hextra⟩ := Event.ofFields_eq_ok_iff.mp h.2
    exact hextra

theorem ReadFrom.isNamed (h : m.ReadFrom fields) : fields.IsNamed := by
  cases m with
  | request r => exact (Request.ofFields_eq_ok_iff.mp h.2).1
  | response r => exact (Response.ofFields_eq_ok_iff.mp h.2).1
  | event e => exact (Event.ofFields_eq_ok_iff.mp h.2).1

/-- Arguments and bodies are kept as they are. -/
theorem checkOption_checkObject {a : Option Json.Fields} (h : checkOption checkObject v = .ok a) :
    (a.map Json.obj).getD .null = v := by
  cases v with
  | null => cases h; rfl
  | obj fs => cases h; rfl
  | bool | int | float | str | arr => cases h

/-- **An envelope is read from its declared fields and any kept ones**, whether those that are null are there or not. -/
theorem readFrom_of_holds (m : Message) (hholds : Holds m.declared fields) (hnamed : fields.IsNamed)
    (hkept : fields.without m.fieldNames = kept) : (m.keeping kept).ReadFrom fields := by
  cases m with
  | request r =>
    have htype : (lit "type", .str Request.typeName) ∈ (Message.request r).declared := by simp [declared, keeping, dump]
    refine ⟨hholds.get? htype rfl, Request.ofFields_eq_ok_iff.mpr ⟨hnamed, ?_, ?_, ?_, ?_, hkept.symm⟩⟩
    · exact hholds.required (v := .int r.seq) (by simp [declared, keeping, dump]) rfl rfl
    · exact hholds.optional htype rfl fun _ => rfl
    · exact hholds.required (v := .str r.command) (by simp [declared, keeping, dump]) rfl rfl
    · refine hholds.optional (v := (r.arguments.map Json.obj).getD .null) (by simp [declared, keeping, dump]) ?_ ?_
      · cases r.arguments <;> rfl
      · intro h
        cases harguments : r.arguments with
        | none => rfl
        | some a => rw [harguments] at h; cases h
  | response r =>
    have htype : (lit "type", .str Response.typeName) ∈ (Message.response r).declared := by simp [declared, keeping, dump]
    refine ⟨hholds.get? htype rfl, Response.ofFields_eq_ok_iff.mpr ⟨hnamed, ?_, ?_, ?_, ?_, ?_, ?_, ?_, hkept.symm⟩⟩
    · exact hholds.given (v := .int r.seq) (by simp [declared, keeping, dump]) rfl rfl
    · exact hholds.optional htype rfl fun _ => rfl
    · exact hholds.required (v := .int r.requestSeq) (by simp [declared, keeping, dump]) rfl rfl
    · exact hholds.required (v := .str r.command) (by simp [declared, keeping, dump]) rfl rfl
    · exact hholds.given (v := .bool r.success) (by simp [declared, keeping, dump]) rfl rfl
    · refine hholds.optional (v := optionText r.message) (by simp [declared, keeping, dump]) ?_ ?_
      · cases r.message <;> rfl
      · intro h
        cases hmessage : r.message with
        | none => rfl
        | some t => rw [hmessage] at h; cases h
    · exact hholds.optional (v := r.body) (by simp [declared, keeping, dump]) rfl id
  | event e =>
    have htype : (lit "type", .str Event.typeName) ∈ (Message.event e).declared := by simp [declared, keeping, dump]
    refine ⟨hholds.get? htype rfl, Event.ofFields_eq_ok_iff.mpr ⟨hnamed, ?_, ?_, ?_, ?_, hkept.symm⟩⟩
    · exact hholds.given (v := .int e.seq) (by simp [declared, keeping, dump]) rfl rfl
    · exact hholds.optional htype rfl fun _ => rfl
    · exact hholds.required (v := .str e.event) (by simp [declared, keeping, dump]) rfl rfl
    · exact hholds.optional (v := e.body) (by simp [declared, keeping, dump]) rfl id

/-- An envelope is read with whatever fields follow the declared ones, if they have other names. -/
theorem readFrom_filter_append (m : Message) (keep : Text × Json → Bool) (hkeep : ∀ f ∈ m.declared, f.2 ≠ .null → keep f = true)
    (hkept : ∀ f ∈ kept, f.1 ∉ m.fieldNames) (hnamed : kept.IsNamed) :
    (m.keeping kept).ReadFrom (m.declared.filter keep ++ kept) := by
  have hnodup : (m.declared.map (·.1)).Nodup := m.names_declared ▸ m.nodup_fieldNames
  refine m.readFrom_of_holds (Json.Fields.holds_filter_append keep hnodup hkeep (by simpa using hkept)) ?_ ?_
  · exact Json.Fields.isNamed_append.mpr ⟨m.isNamed_declared.sublist fun _ hf => (List.mem_filter.mp hf).1, hnamed⟩
  · rw [Json.Fields.without_append, Json.Fields.without_eq_self hkept, Json.Fields.without_eq_nil, List.nil_append]
    intro f hf
    exact m.names_declared ▸ List.mem_map_of_mem (List.mem_filter.mp hf).1

theorem ReadFrom.not_mem_fieldNames (h : m.ReadFrom fields) : ∀ f ∈ m.extra, f.1 ∉ m.fieldNames := fun _ hf =>
  Json.Fields.not_mem_of_mem_without (h.extra_eq ▸ hf)

theorem ReadFrom.isNamed_extra (h : m.ReadFrom fields) : IsNamed m.extra := h.extra_eq ▸ h.isNamed.without _

/-- **An envelope is read again from its dump.** -/
theorem ReadFrom.dump (h : m.ReadFrom fields) : m.ReadFrom m.dump := by
  have hread := m.readFrom_filter_append (fun _ => true) (fun _ _ _ => rfl) h.not_mem_fieldNames h.isNamed_extra
  rwa [List.filter_eq_self.mpr fun _ _ => rfl, keeping_extra, ← dump_eq_append] at hread

/-- **A dump keeps the fields that are not declared**, and has no others of their names. -/
theorem ReadFrom.get?_dump (h : m.ReadFrom fields) (hname : name ∉ m.fieldNames) : m.dump.get? name = fields.get? name := by
  have hdeclared : m.declared.get? name = none := Json.Fields.get?_eq_none_iff.mpr (by simpa using hname)
  rw [dump_eq_append, Json.Fields.get?_append, hdeclared, Option.none_or, h.extra_eq, Json.Fields.get?_without hname]

theorem get?_dump_of_mem (hmem : (name, v) ∈ m.declared) : m.dump.get? name = some v := by
  have hnodup : (m.declared.map (·.1)).Nodup := m.names_declared ▸ m.nodup_fieldNames
  rw [dump_eq_append, Json.Fields.get?_append, Json.Fields.get?_of_mem hnodup hmem]
  rfl

/-- **A dump keeps arguments and a body as they were**, declared or not. -/
theorem ReadFrom.get?_dump_free (h : m.ReadFrom fields) (hname : name ∈ [lit "arguments", lit "body"])
    (hw : fields.get? name = some w) : m.dump.get? name = some w := by
  by_cases hdeclared : name ∈ m.fieldNames
  · have hnames : name = lit "arguments" ∨ name = lit "body" := by simpa using hname
    have hpresent {β : Type} {default b : β} {check : Json → Checked β} (ho : optional fields name default check = .ok b) :
        check w = .ok b := by
      rcases optional_eq_ok_iff.mp ho with ⟨v, hv, hcheck⟩ | ⟨hnone, -⟩
      · cases hw.symm.trans hv
        exact hcheck
      · cases hw.symm.trans hnone
    cases m with
    | request r =>
      rcases hnames with rfl | rfl
      · obtain ⟨-, -, -, -, harguments, -⟩ := Request.ofFields_eq_ok_iff.mp h.2
        rw [← checkOption_checkObject (hpresent harguments)]
        exact get?_dump_of_mem (by simp [declared, keeping, Message.dump])
      · exact absurd hdeclared (by decide : lit "body" ∉ Request.fieldNames)
    | response r =>
      rcases hnames with rfl | rfl
      · exact absurd hdeclared (by decide : lit "arguments" ∉ Response.fieldNames)
      · obtain ⟨-, -, -, -, -, -, -, hbody, -⟩ := Response.ofFields_eq_ok_iff.mp h.2
        cases hpresent hbody
        exact get?_dump_of_mem (by simp [declared, keeping, Message.dump])
    | event e =>
      rcases hnames with rfl | rfl
      · exact absurd hdeclared (by decide : lit "arguments" ∉ Event.fieldNames)
      · obtain ⟨-, -, -, -, hbody, -⟩ := Event.ofFields_eq_ok_iff.mp h.2
        cases hpresent hbody
        exact get?_dump_of_mem (by simp [declared, keeping, Message.dump])
  · rw [h.get?_dump hdeclared, hw]

end Message

/-! ## Diagnostics -/

namespace Location

variable {l : Location} {v : Json}

/-- The declared fields of a place. -/
def declared (l : Location) : Json.Fields := [(lit "line", .int l.line), (lit "offset", .int l.offset)]

/-- A place is read again from its dump. -/
theorem check_dump (h : check v = .ok l) : check (.obj l.dump) = .ok l := by
  cases v with
  | obj fields =>
    obtain ⟨hnamed, -, -, hextra⟩ := check_obj_eq_ok_iff.mp h
    have hother : ∀ f ∈ l.extra, f.1 ∉ fieldNames := fun f hf => Json.Fields.not_mem_of_mem_without (hextra ▸ hf)
    have hholds : Holds l.declared l.dump := Json.Fields.holds_append (by decide : fieldNames.Nodup) hother
    refine check_obj_eq_ok_iff.mpr ⟨?_, ?_, ?_, ?_⟩
    · have hdeclared : IsNamed l.declared := by
        have hall : ∀ name ∈ fieldNames, name.any CodePoint.isSurrogate = false := by decide
        exact fun f hf => hall f.1 (List.mem_map_of_mem (f := (·.1)) hf)
      exact Json.Fields.isNamed_append.mpr ⟨hdeclared, hextra ▸ hnamed.without _⟩
    · exact hholds.required (v := .int l.line) (by simp [declared]) rfl rfl
    · exact hholds.required (v := .int l.offset) (by simp [declared]) rfl rfl
    · have hnone : l.declared.without fieldNames = [] :=
        Json.Fields.without_eq_nil fun f hf => List.mem_map_of_mem (f := (·.1)) hf
      change l.extra = Json.Fields.without (l.declared ++ l.extra) fieldNames
      rw [Json.Fields.without_append, hnone, Json.Fields.without_eq_self hother, List.nil_append]
  | null | bool | int | float | str | arr => cases h

end Location

namespace Spelling

variable {spelling : Spelling} {fields : Json.Fields} {name : Text}

/-- The names a diagnostic in a spelling is dumped with. -/
def names (spelling : Spelling) : List Text :=
  [lit "code", lit "category", spelling.fieldNames.1, spelling.fieldNames.2.1, spelling.fieldNames.2.2]

/-- The spelling of an object: plain if it has all three plain names. -/
def ofFields (fields : Json.Fields) : Spelling :=
  if fields.has (lit "start") && fields.has (lit "end") && fields.has (lit "text") then .plain else .linePosition

theorem nameIn_of_has (h : fields.has name = true) : spelling.nameIn fields name = name := by
  unfold nameIn
  split
  · simp [h]
  · rfl

/-- A place goes by its first name, or has none of that name. -/
theorem nameIn_eq_or (spelling : Spelling) (fields : Json.Fields) (name : Text) :
    spelling.nameIn fields name = name ∨ fields.has name = false := by
  cases h : fields.has name with
  | true => exact .inl (nameIn_of_has h)
  | false => exact .inr rfl

/-- The names of the plain spelling are none of those a diagnostic with line positions goes by. -/
theorem plain_not_mem_namesIn (hname : name ∈ [lit "start", lit "end", lit "text"]) :
    name ∉ linePosition.namesIn fields := by
  have hstart : linePosition.nameIn fields (lit "startLocation") ∈ [lit "startLocation", lit "start_location_"] := by
    unfold nameIn
    split
    · next second hsecond =>
      cases hsecond
      split <;> simp
    · simp
  have hstop : linePosition.nameIn fields (lit "endLocation") ∈ [lit "endLocation", lit "end_location_"] := by
    unfold nameIn
    split
    · next second hsecond =>
      cases hsecond
      split <;> simp
    · simp
  intro hmem
  have hall : ∀ a ∈ [lit "startLocation", lit "start_location_"], ∀ b ∈ [lit "endLocation", lit "end_location_"],
      ∀ c ∈ [lit "start", lit "end", lit "text"], c ∉ [lit "code", lit "category", a, b, lit "message"] := by decide
  exact hall _ hstart _ hstop _ hname hmem

end Spelling

namespace Diagnostic

variable {d : Diagnostic} {v : Json} {fields : Json.Fields}

theorem spellingOf_obj (fields : Json.Fields) : spellingOf (.obj fields) = .ok (Spelling.ofFields fields) := by
  simp only [spellingOf, Json.mentions, Spelling.fieldNames, Spelling.ofFields, bind, Except.bind, pure, Except.pure]
  cases fields.has (lit "start") <;> cases fields.has (lit "end") <;> cases fields.has (lit "text") <;> rfl

/-- A diagnostic is read from an object, in the spelling of its fields. -/
theorem parse_eq_ok_iff : parse v = .ok d ↔
    ∃ fields, v = .obj fields ∧ d.spelling = Spelling.ofFields fields ∧ check d.spelling (.obj fields) = .ok d := by
  have hread {spelling : Spelling} : parse v = .ok d → spellingOf v = .ok spelling → check spelling v = .ok d := by
    intro h hspelling
    unfold parse at h
    rw [hspelling] at h
    dsimp only at h
    split at h
    · cases h
    · next hcheck =>
      cases h
      exact Checked.titled_eq_ok_iff.mp hcheck
  constructor
  · intro h
    cases hspelling : spellingOf v with
    | error e => simp [parse, hspelling] at h
    | ok spelling =>
      have hcheck := hread h hspelling
      cases v with
      | obj fields =>
        have hsame := (check_obj_eq_ok_iff.mp hcheck).2.1
        rw [spellingOf_obj] at hspelling
        cases hspelling
        exact ⟨fields, rfl, hsame, hsame ▸ hcheck⟩
      | null | bool | int | float | str | arr => cases hcheck
  · rintro ⟨fields, rfl, hspelling, hcheck⟩
    rw [hspelling] at hcheck
    simp only [parse, spellingOf_obj, hcheck, Checked.titled]

/-- The declared fields of a diagnostic, under their names in its spelling. -/
def declared (d : Diagnostic) : Json.Fields := dump { d with extra := [] }

theorem dump_eq_append (d : Diagnostic) : d.dump = d.declared ++ d.extra := rfl

@[simp] theorem names_declared (d : Diagnostic) : d.declared.map (·.1) = d.spelling.names := rfl

theorem nodup_names (spelling : Spelling) : spelling.names.Nodup := by cases spelling <;> decide

/-- A dump has each name of its spelling. -/
theorem has_dump {name : Text} (h : name ∈ d.spelling.names) : Json.Fields.has d.dump name = true := by
  rw [← names_declared] at h
  obtain ⟨f, hf, rfl⟩ := List.mem_map.mp h
  exact Json.Fields.has_of_mem (List.mem_append_left _ hf)

/-- The places of a diagnostic are read again from their dumps. -/
theorem check_places (h : check d.spelling (.obj fields) = .ok d) :
    Location.check (.obj d.start.dump) = .ok d.start ∧ Location.check (.obj d.stop.dump) = .ok d.stop := by
  obtain ⟨-, -, -, -, hstart, hstop, -⟩ := check_obj_eq_ok_iff.mp h
  obtain ⟨_, -, hcheckStart⟩ := required_eq_ok_iff.mp hstart
  obtain ⟨_, -, hcheckStop⟩ := required_eq_ok_iff.mp hstop
  exact ⟨Location.check_dump hcheckStart, Location.check_dump hcheckStop⟩

/-- What a diagnostic keeps has none of the names it is dumped with: a place that went by its second name had none of its
first one. -/
theorem not_mem_names_of_mem_extra (h : check d.spelling (.obj fields) = .ok d) : ∀ f ∈ d.extra, f.1 ∉ d.spelling.names := by
  obtain ⟨-, -, -, -, -, -, -, hextra⟩ := check_obj_eq_ok_iff.mp h
  intro f hf
  rw [hextra] at hf
  have hother := Json.Fields.not_mem_of_mem_without hf
  have hplace (name : Text) (hname : d.spelling.nameIn fields name ∈ d.spelling.namesIn fields) : f.1 ≠ name := by
    rintro rfl
    rcases d.spelling.nameIn_eq_or fields f.1 with heq | hmissing
    · exact hother (heq ▸ hname)
    · rw [Json.Fields.has_of_mem (List.mem_filter.mp hf).1] at hmissing
      cases hmissing
  simp only [Spelling.namesIn, List.mem_cons, List.not_mem_nil, or_false, not_or] at hother hplace
  simp only [Spelling.names, List.mem_cons, List.not_mem_nil, or_false, not_or]
  exact ⟨hother.1, hother.2.1, hplace _ (by simp), hplace _ (by simp), hother.2.2.2.2⟩

/-- A dump is in the spelling of its diagnostic. -/
theorem ofFields_dump (h : check d.spelling (.obj fields) = .ok d) (hspelling : d.spelling = Spelling.ofFields fields) :
    Spelling.ofFields d.dump = d.spelling := by
  obtain ⟨-, -, -, -, -, -, -, hextra⟩ := check_obj_eq_ok_iff.mp h
  cases hd : d.spelling with
  | plain =>
    have hhas (name : Text) (hname : name ∈ Spelling.names .plain) : Json.Fields.has d.dump name = true := has_dump (hd ▸ hname)
    rw [Spelling.ofFields, hhas _ (by decide), hhas _ (by decide), hhas _ (by decide)]
    rfl
  | linePosition =>
    have hsame (name : Text) (hname : name ∈ [lit "start", lit "end", lit "text"]) :
        Json.Fields.has d.dump name = Json.Fields.has fields name := by
      have hall : ∀ name ∈ [lit "start", lit "end", lit "text"], name ∉ Spelling.names .linePosition := by decide
      have hdeclared : d.declared.get? name = none :=
        Json.Fields.get?_eq_none_iff.mpr (by rw [names_declared, hd]; exact hall name hname)
      have hnames : name ∉ d.spelling.namesIn fields := by
        rw [hd]
        exact Spelling.plain_not_mem_namesIn hname
      rw [Json.Fields.has_eq_isSome, Json.Fields.has_eq_isSome, dump_eq_append, Json.Fields.get?_append, hdeclared,
        Option.none_or, hextra, Json.Fields.get?_without hnames]
    rw [Spelling.ofFields, hsame _ (by simp), hsame _ (by simp), hsame _ (by simp)]
    exact hspelling.symm.trans hd

/-- **A diagnostic is read again from its dump**, in its spelling. -/
theorem parse_dump (h : parse v = .ok d) : parse (.obj d.dump) = .ok d := by
  obtain ⟨fields, rfl, hspelling, hcheck⟩ := parse_eq_ok_iff.mp h
  obtain ⟨hstart, hstop⟩ := check_places hcheck
  obtain ⟨hnamed, -, -, -, -, -, -, hextra⟩ := check_obj_eq_ok_iff.mp hcheck
  have hother := not_mem_names_of_mem_extra hcheck
  have hholds : Holds d.declared d.dump :=
    Json.Fields.holds_append (d.names_declared ▸ nodup_names d.spelling) (by simpa using hother)
  have hstartName : d.spelling.nameIn d.dump d.spelling.fieldNames.1 = d.spelling.fieldNames.1 :=
    Spelling.nameIn_of_has (has_dump (by simp [Spelling.names]))
  have hstopName : d.spelling.nameIn d.dump d.spelling.fieldNames.2.1 = d.spelling.fieldNames.2.1 :=
    Spelling.nameIn_of_has (has_dump (by simp [Spelling.names]))
  refine parse_eq_ok_iff.mpr ⟨d.dump, rfl, (ofFields_dump hcheck hspelling).symm, check_obj_eq_ok_iff.mpr
    ⟨?_, rfl, ?_, ?_, ?_, ?_, ?_, ?_⟩⟩
  · have hdeclared : IsNamed d.declared := by
      have hall : ∀ spelling : Spelling, ∀ name ∈ spelling.names, name.any CodePoint.isSurrogate = false := by
        intro spelling
        cases spelling <;> decide
      exact fun f hf => hall d.spelling f.1 (d.names_declared ▸ List.mem_map_of_mem hf)
    exact Json.Fields.isNamed_append.mpr ⟨hdeclared, hextra ▸ hnamed.without _⟩
  · refine hholds.optional (v := (d.code.map Json.int).getD .null) (by simp [declared, dump, dumpWith]) ?_ ?_
    · cases d.code <;> rfl
    · intro h
      cases hcode : d.code with
      | none => rfl
      | some n => rw [hcode] at h; cases h
  · exact hholds.given (v := .str d.category) (by simp [declared, dump, dumpWith]) rfl rfl
  · rw [hstartName]
    exact hholds.required (v := .obj d.start.dump) (by simp [declared, dump, dumpWith]) rfl hstart
  · rw [hstopName]
    exact hholds.required (v := .obj d.stop.dump) (by simp [declared, dump, dumpWith]) rfl hstop
  · exact hholds.required (v := .str d.text) (by simp [declared, dump, dumpWith]) rfl rfl
  · have hnames : d.spelling.namesIn d.dump = d.spelling.names := by
      simp only [Spelling.namesIn, hstartName, hstopName]
      rfl
    have hnone : d.declared.without d.spelling.names = [] :=
      Json.Fields.without_eq_nil fun f hf => d.names_declared ▸ List.mem_map_of_mem hf
    rw [hnames, dump_eq_append, Json.Fields.without_append, hnone, Json.Fields.without_eq_self hother, List.nil_append]

end Diagnostic

/-! ## Both -/

/-- **What a message is dumped to is read back as that message**, and nothing of the value it was read from is changed
that is not read: an envelope's dump is read as the same envelope, and holds the fields it does not declare, its arguments
and its body as they came; a diagnostic's dump is read as the same diagnostic, in the same spelling. -/
theorem dumps_read_back :
    (∀ v m, Message.parse v = .ok m →
      Message.parse (.obj m.dump) = .ok m ∧
      (∀ name, name ∉ m.fieldNames → m.dump.get? name = v.field? name) ∧
      ∀ name ∈ [lit "arguments", lit "body"], ∀ w, v.field? name = some w → m.dump.get? name = some w) ∧
    ∀ v d, Diagnostic.parse v = .ok d → Diagnostic.parse (.obj d.dump) = .ok d := by
  refine ⟨fun v m h => ?_, fun v d => Diagnostic.parse_dump⟩
  obtain ⟨fields, rfl, hread⟩ := Message.parse_eq_ok_iff.mp h
  refine ⟨Message.parse_eq_ok_iff.mpr ⟨m.dump, rfl, hread.dump⟩, fun name hname => hread.get?_dump hname, ?_⟩
  exact fun name hname w hw => hread.get?_dump_free hname hw

/-- A response whose number is spelt with a nought in front, and a diagnostic with a place under its second name. -/
theorem dumps_read_back_of_lax :
    let response : Json := .obj [(lit "type", .str (lit "response")), (lit "request_seq", .str (lit "07")),
      (lit "note", .null), (lit "command", .str (lit "c")), (lit "success", .int 1), (lit "body", .arr [.null])]
    let diagnostic : Json := .obj [(lit "message", .str (lit "m")), (lit "start", .int 3),
      (lit "start_location_", .obj [(lit "line", .bool true), (lit "offset", .int 1), (lit "x", .null)]),
      (lit "endLocation", .obj [(lit "line", .int 2), (lit "offset", .int 1)])]
    ∃ m d, Message.parse response = .ok m ∧ Message.parse (.obj m.dump) = .ok m ∧
      m.dump.get? (lit "note") = some .null ∧ m.dump.get? (lit "body") = some (.arr [.null]) ∧
      Diagnostic.parse diagnostic = .ok d ∧ Diagnostic.parse (.obj d.dump) = .ok d := by
  intro response diagnostic
  obtain ⟨m, hm⟩ : ∃ m, Message.parse response = .ok m := ⟨_, rfl⟩
  obtain ⟨d, hd⟩ : ∃ d, Diagnostic.parse diagnostic = .ok d := ⟨_, rfl⟩
  obtain ⟨hread, hkept, hfree⟩ := dumps_read_back.1 response m hm
  have hnames : m.fieldNames = Response.fieldNames := by cases hm; rfl
  refine ⟨m, d, hm, hread, ?_, hfree _ (by simp) _ rfl, hd, dumps_read_back.2 diagnostic d hd⟩
  exact (hkept _ (hnames ▸ (by decide))).trans rfl

end DiagnosticsClient
