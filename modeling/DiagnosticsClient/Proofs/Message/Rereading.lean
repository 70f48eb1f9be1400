import DiagnosticsClient.Proofs.Frame.Lines
import DiagnosticsClient.Proofs.Message.Dumps
/-
An envelope written as a line, and read from it again.

A line leaves out the fields that are null. A declared field that is null is read as missing to the same envelope, and so
an envelope is read again as it was, but for the fields it keeps that are null: these are lost
(`rereads_unless_null_kept`, `null_field_lost`). An envelope that goes deeper than the limit is not written at all.
-/
namespace DiagnosticsClient

open Json (isExact isEncodable)
open Json.Fields (IsNamed)

/-! ## What is read can be written -/

/-- A text can stand for a value, in every Unicode encoding. -/
def Json.IsPortable (v : Json) : Prop := v.isExact = true ∧ v.isEncodable = true

instance (v : Json) : Decidable v.IsPortable := inferInstanceAs (Decidable (_ ∧ _))

namespace WholeNumber

variable {t : Text} {n : Int} {v : Json}

theorem natAbs_lt_of_strict? (h : strict? t = some n) : n.natAbs < 10 ^ Text.digitLimit := by
  have hdigits {ds : Text} (hall : (ds.all CodePoint.isDigit && !ds.isEmpty && ds.length ≤ Text.digitLimit) = true) :
      Text.decimalValue ds < 10 ^ Text.digitLimit := by
    simp only [Bool.and_eq_true, decide_eq_true_eq] at hall
    have hvalue := Text.decimalValue_lt (t := ds) fun c hc => List.all_eq_true.mp hall.1.1 c hc
    exact Nat.lt_of_lt_of_le hvalue (Nat.pow_le_pow_right (by decide) hall.2)
  unfold strict? at h
  dsimp only at h
  split_ifs at h with hspelt hnegative <;> cases h <;> simp only [Bool.and_eq_true] at hspelt <;>
    have := hdigits (by simpa using hspelt.1) <;> omega

theorem natAbs_lt_of_ofNumber {x : Binary64} (h : ofNumber x = .ok n) : n.natAbs < 2 ^ (63 : Nat) := by
  have hbounded {k : Int} (h : (if -(2 ^ (63 : Nat)) < k ∧ k < 2 ^ (63 : Nat) then Except.ok k else
      Checked.flaw .integerTooLarge) = .ok n) : n.natAbs < 2 ^ (63 : Nat) := by
    split_ifs at h with hk
    · cases h
      omega
    · cases h
  cases x with
  | nan | infinite => cases h
  | finite negative m e hm =>
    unfold ofNumber at h
    dsimp only at h
    split at h
    · cases h
    · exact hbounded h

/-- A whole number that is read from a portable value has no more digits than the limit. -/
theorem natAbs_lt_of_check (hv : v.isExact = true) (h : check v = .ok n) : n.natAbs < 10 ^ Text.digitLimit := by
  have hword : 2 ^ (63 : Nat) ≤ 10 ^ Text.digitLimit :=
    Nat.le_trans (by decide : 2 ^ (63 : Nat) ≤ 10 ^ (19 : Nat)) (Nat.pow_le_pow_right (by decide) (by decide))
  cases v with
  | int k =>
    cases h
    simpa [isExact] using hv
  | bool b =>
    cases h
    exact Nat.lt_of_lt_of_le (by cases b <;> decide) hword
  | float x => exact Nat.lt_of_lt_of_le (natAbs_lt_of_ofNumber h) hword
  | str t =>
    unfold check at h
    dsimp only at h
    split_ifs at h
    · cases h
    · cases h
    · split at h
      · next k hk =>
        cases h
        unfold ofText? at hk
        obtain ⟨rest, -, hstrict⟩ := Option.bind_eq_some_iff.mp hk
        exact natAbs_lt_of_strict? hstrict
      · cases h
  | null | arr | obj => cases h

end WholeNumber

namespace Message

variable {m : Message} {v : Json} {fields : Json.Fields} {name : Text}

theorem checkOption_checkText {t : Option Text} (h : checkOption checkText v = .ok t) : optionText t = v := by
  cases v with
  | null => cases h; rfl
  | str _ => cases h; rfl
  | bool | int | float | arr | obj => cases h

theorem isPortable_of_checkText {t : Text} (hv : v.IsPortable) (h : checkText v = .ok t) : (Json.str t).IsPortable := by
  cases v with
  | str _ =>
    cases h
    exact hv
  | null | bool | int | float | arr | obj => cases h

/-- **Everything an envelope declares is portable**, if it was read from fields that are. -/
theorem ReadFrom.isPortable_declared (h : m.ReadFrom fields) (hfields : ∀ f ∈ fields, f.2.IsPortable) :
    ∀ f ∈ m.declared, f.2.IsPortable := by
  have hfound {name : Text} {v : Json} (hv : fields.get? name = some v) : v.IsPortable :=
    hfields _ (Json.Fields.mem_of_get? hv)
  have hint {n : Int} (hn : n.natAbs < 10 ^ Text.digitLimit) : (Json.int n).IsPortable := ⟨by simpa [isExact] using hn, rfl⟩
  have hnull : Json.null.IsPortable := ⟨rfl, rfl⟩
  have hnumber {name : Text} {n : Int} (hread : required fields name WholeNumber.check = .ok n) : (Json.int n).IsPortable := by
    obtain ⟨v, hv, hcheck⟩ := required_eq_ok_iff.mp hread
    exact hint (WholeNumber.natAbs_lt_of_check (hfound hv).1 hcheck)
  have hnumber? {name : Text} {n : Int} (hread : optional fields name 0 WholeNumber.check = .ok n) : (Json.int n).IsPortable := by
    rcases optional_eq_ok_iff.mp hread with ⟨v, hv, hcheck⟩ | ⟨-, rfl⟩
    · exact hint (WholeNumber.natAbs_lt_of_check (hfound hv).1 hcheck)
    · exact hint (Nat.pow_pos (by decide))
  have htext {name t : Text} (hread : required fields name checkText = .ok t) : (Json.str t).IsPortable := by
    obtain ⟨v, hv, hcheck⟩ := required_eq_ok_iff.mp hread
    exact isPortable_of_checkText (hfound hv) hcheck
  have hfree {name : Text} {v : Json} (hread : optional fields name .null .ok = .ok v) : v.IsPortable := by
    rcases optional_eq_ok_iff.mp hread with ⟨w, hw, hcheck⟩ | ⟨-, rfl⟩
    · cases hcheck
      exact hfound hw
    · exact hnull
  cases m with
  | request r =>
    obtain ⟨-, hseq, -, hcommand, harguments, -⟩ := Request.ofFields_eq_ok_iff.mp h.2
    have hrecord : ((r.arguments.map Json.obj).getD .null).IsPortable := by
      rcases optional_eq_ok_iff.mp harguments with ⟨v, hv, hcheck⟩ | ⟨-, hnone⟩
      · exact checkOption_checkObject hcheck ▸ hfound hv
      · rw [hnone]
        exact hnull
    have htype : (Json.str Request.typeName).IsPortable := by decide
    simp only [declared, keeping, Message.dump, List.append_nil, List.forall_mem_cons]
    exact ⟨hnumber hseq, htype, htext hcommand, hrecord, List.forall_mem_nil _⟩
  | response r =>
    obtain ⟨-, hseq, -, hrequest, hcommand, -, hmessage, hbody, -⟩ := Response.ofFields_eq_ok_iff.mp h.2
    have hoption : (optionText r.message).IsPortable := by
      rcases optional_eq_ok_iff.mp hmessage with ⟨v, hv, hcheck⟩ | ⟨-, hnone⟩
      · exact checkOption_checkText hcheck ▸ hfound hv
      · rw [hnone]
        exact hnull
    have htype : (Json.str Response.typeName).IsPortable := by decide
    have hbool : (Json.bool r.success).IsPortable := ⟨rfl, rfl⟩
    simp only [declared, keeping, Message.dump, List.append_nil, List.forall_mem_cons]
    exact ⟨hnumber? hseq, htype, hnumber hrequest, htext hcommand, hbool, hoption, hfree hbody, List.forall_mem_nil _⟩
  | event e =>
    obtain ⟨-, hseq, -, hevent, hbody, -⟩ := Event.ofFields_eq_ok_iff.mp h.2
    have htype : (Json.str Event.typeName).IsPortable := by decide
    simp only [declared, keeping, Message.dump, List.append_nil, List.forall_mem_cons]
    exact ⟨hnumber? hseq, htype, htext hevent, hfree hbody, List.forall_mem_nil _⟩

/-- **The dump of an envelope is portable**, if it was read from an object that is. -/
theorem ReadFrom.isPortable_dump (h : m.ReadFrom fields) (hfields : (Json.obj fields).IsPortable) :
    (Json.obj m.dump).IsPortable := by
  obtain ⟨hexact, hencodable⟩ := hfields
  simp only [isExact, Bool.and_eq_true, decide_eq_true_eq, Json.fieldsExact_iff] at hexact
  simp only [isEncodable, Json.fieldsEncodable_iff] at hencodable
  have hdeclared := h.isPortable_declared fun f hf => ⟨hexact.2 f hf, (hencodable f hf).2⟩
  have hkept : ∀ f ∈ m.extra, f ∈ fields := fun f hf => by
    rw [h.extra_eq] at hf
    exact (List.mem_filter.mp hf).1
  have hnodup : (m.dump.map (·.1)).Nodup := by
    rw [dump_eq_append, List.map_append, names_declared, List.nodup_append]
    refine ⟨m.nodup_fieldNames, ?_, ?_⟩
    · rw [h.extra_eq]
      exact hexact.1.sublist (List.filter_sublist.map _)
    · rintro name hname other hother rfl
      obtain ⟨f, hf, rfl⟩ := List.mem_map.mp hother
      exact h.not_mem_fieldNames f hf hname
  have hpaired : ∀ f ∈ m.declared, Json.isPaired f.1 = true := by
    intro f hf
    have hnamed := m.isNamed_declared f hf
    simpa [Json.isPaired] using hnamed
  constructor
  · simp only [isExact, Bool.and_eq_true, decide_eq_true_eq, Json.fieldsExact_iff]
    refine ⟨hnodup, fun f hf => ?_⟩
    rcases List.mem_append.mp (m.dump_eq_append ▸ hf) with hf | hf
    · exact (hdeclared f hf).1
    · exact hexact.2 f (hkept f hf)
  · simp only [isEncodable, Json.fieldsEncodable_iff]
    intro f hf
    rcases List.mem_append.mp (m.dump_eq_append ▸ hf) with hf | hf
    · exact ⟨hpaired f hf, (hdeclared f hf).2⟩
    · exact hencodable f (hkept f hf)

/-! ## What is written -/

/-- The fields an envelope is written with: those that are not null. -/
def written (m : Message) : Json.Fields := Json.Fields.present m.dump

/-- No value of an envelope goes deeper than the limit; arguments are a record, whose own level does not count. -/
def IsShallow : Message → Prop
  | .request r => r.IsShallow
  | .response r => ∀ f ∈ (Message.response r).dump, f.2.levels ≤ depthLimit
  | .event e => ∀ f ∈ (Message.event e).dump, f.2.levels ≤ depthLimit

/-- A field as it is. -/
def outboundField (f : Text × Json) : OutboundField := ⟨f.1, f.2, false⟩

theorem unserializable?_outboundField {f : Text × Json} (he : f.2.isEncodable = true) :
    (outboundField f).unserializable? = none ↔ f.2.levels ≤ depthLimit :=
  Json.unserializable?_eq_none_iff depthLimit f.2 he

/-- Fields that are written as they are make a line exactly if none of them goes too deep: that of their object. -/
theorem encodeFields_map_outboundField {fs : Json.Fields} (hp : (Json.obj fs).IsPortable) (encoding : Text) :
    ((∀ f ∈ fs, f.2.levels ≤ depthLimit) →
      encodeFields encoding (fs.map outboundField) = encodeLine encoding (Json.render Json.messageNumbers .compact (.obj fs))) ∧
    ∀ line, encodeFields encoding (fs.map outboundField) = .ok line → ∀ f ∈ fs, f.2.levels ≤ depthLimit := by
  have hencodable := hp.2
  simp only [isEncodable, Json.fieldsEncodable_iff] at hencodable
  have hnone : (fs.map outboundField).findSome? OutboundField.unserializable? = none ↔ ∀ f ∈ fs, f.2.levels ≤ depthLimit := by
    rw [List.findSome?_eq_none_iff, List.forall_mem_map]
    exact forall₂_congr fun f hf => unserializable?_outboundField (hencodable f hf).2
  constructor
  · intro hshallow
    have hobject : ((fs.map outboundField).map fun field => (field.name, field.value)) = fs := by
      rw [List.map_map]
      exact List.map_id fs
    simp only [encodeFields, hnone.mpr hshallow, hobject]
  · intro line hline
    unfold encodeFields at hline
    split at hline
    · cases hline
    · next h => exact hnone.mp h

/-- A field that is null does not go deep, so only those that are written count. -/
theorem forall_mem_written_iff : (∀ f ∈ m.written, f.2.levels ≤ depthLimit) ↔ ∀ f ∈ m.dump, f.2.levels ≤ depthLimit := by
  refine ⟨fun h f hf => ?_, fun h f hf => h f (List.mem_filter.mp hf).1⟩
  by_cases hnull : f.2.isNull = true
  · obtain ⟨name, v⟩ := f
    cases v with
    | null => exact (by decide : Json.null.levels ≤ depthLimit)
    | bool | int | float | str | arr | obj => cases hnull
  · exact h f (List.mem_filter.mpr ⟨hf, by simpa using hnull⟩)

/-- **An envelope is written exactly if it does not go too deep**, as the object of its fields that are not null. -/
theorem encodeMessage_eq_ok_iff (hp : (Json.obj m.dump).IsPortable) {line : Bytes} :
    encodeMessage (lit "utf-8") m = .ok line ↔
      m.IsShallow ∧ encodeLine (lit "utf-8") (Json.render Json.messageNumbers .compact (.obj m.written)) = .ok line := by
  have hwritten : (Json.obj m.written).IsPortable :=
    ⟨Json.isExact_filter (fun field => !field.2.isNull) hp.1, Json.isEncodable_filter (fun field => !field.2.isNull) hp.2⟩
  have hplain (hlimit : m.IsShallow ↔ ∀ f ∈ m.dump, f.2.levels ≤ depthLimit) (hout : m.outbound = m.written.map outboundField) :
      encodeMessage (lit "utf-8") m = .ok line ↔ m.IsShallow ∧
        encodeLine (lit "utf-8") (Json.render Json.messageNumbers .compact (.obj m.written)) = .ok line := by
    obtain ⟨hline, hshallow⟩ := encodeFields_map_outboundField hwritten (lit "utf-8")
    rw [hlimit, ← forall_mem_written_iff, encodeMessage, hout]
    constructor
    · intro h
      exact ⟨hshallow line h, (hline (hshallow line h)) ▸ h⟩
    · rintro ⟨hlevels, h⟩
      exact (hline hlevels).trans h
  cases m with
  | request r =>
    constructor
    · intro h
      have hshallow : r.IsShallow := (encode_request_eq_ok_iff hp.1 hp.2).mp ⟨line, h⟩
      exact ⟨hshallow, (Request.encodeMessage_eq hp.1 hp.2 hshallow (lit "utf-8")) ▸ h⟩
    · rintro ⟨hshallow, h⟩
      exact (Request.encodeMessage_eq hp.1 hp.2 hshallow (lit "utf-8")).trans h
  | response r =>
    refine hplain Iff.rfl ?_
    rw [outbound, Json.Fields.outbound, List.map_map]
    rfl
  | event e =>
    refine hplain Iff.rfl ?_
    rw [outbound, Json.Fields.outbound, List.map_map]
    rfl

theorem nesting_written (hp : (Json.obj m.dump).IsPortable) (hs : m.IsShallow) :
    (Json.obj m.written).nesting ≤ Json.depthLimit := by
  have hplain (h : ∀ f ∈ m.dump, f.2.levels ≤ depthLimit) : (Json.obj m.written).nesting ≤ Json.depthLimit := by
    have hfields : Json.nestingFields m.written ≤ depthLimit := Json.nestingFields_le_iff.mpr fun f hf =>
      Nat.le_trans (Json.nesting_le_levels f.2) (forall_mem_written_iff.mpr h f hf)
    exact Nat.le_trans (Nat.succ_le_succ hfields) (by decide)
  cases m with
  | request r => exact Request.nesting_written hp.1 hs
  | response r => exact hplain hs
  | event e => exact hplain hs

theorem written_eq (m : Message) : m.written = m.declared.filter (fun f => !f.2.isNull) ++ Json.Fields.present m.extra := by
  rw [written, dump_eq_append, Json.Fields.present, List.filter_append]
  rfl

/-- An envelope is read from what is written of it, with the kept fields that are not null. -/
theorem ReadFrom.written (h : m.ReadFrom fields) : (m.keeping (Json.Fields.present m.extra)).ReadFrom m.written := by
  have hkept : ∀ f ∈ Json.Fields.present m.extra, f ∈ m.extra := fun _ hf => (List.mem_filter.mp hf).1
  rw [written_eq]
  refine m.readFrom_filter_append _ (fun f _ hv => ?_) (fun f hf => h.not_mem_fieldNames f (hkept f hf))
    (h.isNamed_extra.sublist hkept)
  obtain ⟨name, v⟩ := f
  cases v with
  | null => exact absurd rfl hv
  | bool | int | float | str | arr | obj => rfl

/-- **An envelope that does not go too deep is written as a line that spells what is written of it.** -/
theorem ReadFrom.exists_line (h : m.ReadFrom fields) (hfields : (Json.obj fields).IsPortable) (hs : m.IsShallow) :
    ∃ line, encodeMessage (lit "utf-8") m = .ok line ∧ readBody (lit "utf-8") line = .ok (.obj m.written) := by
  have hp := h.isPortable_dump hfields
  obtain ⟨octets, hoctets, -, -, hbody⟩ := DiagnosticsClient.exists_line Json.messageNumbers (v := .obj m.written)
    (Json.isExact_filter (fun field => !field.2.isNull) hp.1) (Json.isEncodable_filter (fun field => !field.2.isNull) hp.2)
    (nesting_written hp hs)
  exact ⟨octets ++ [10], (encodeMessage_eq_ok_iff hp).mpr ⟨hs, hoctets⟩, hbody⟩

theorem ReadFrom.parse_written (h : m.ReadFrom fields) :
    parse (.obj m.written) = .ok (m.keeping (Json.Fields.present m.extra)) :=
  parse_eq_ok_iff.mpr ⟨_, rfl, h.written⟩

/-- Nothing is lost exactly if no field that is not declared is null. -/
theorem ReadFrom.keeping_present_eq_iff (h : m.ReadFrom fields) : m.keeping (Json.Fields.present m.extra) = m ↔
    ∀ f ∈ fields, f.1 ∉ m.fieldNames → f.2.isNull = false := by
  have hself : m.keeping (Json.Fields.present m.extra) = m ↔ Json.Fields.present m.extra = m.extra := by
    constructor
    · intro heq
      have hextra := congrArg Message.extra heq
      rwa [extra_keeping] at hextra
    · intro heq
      rw [heq, keeping_extra]
  rw [hself, Json.Fields.present, List.filter_eq_self, h.extra_eq]
  simp [Json.Fields.without, List.mem_filter]

end Message

/-- **An envelope that is written is read again as it was, unless it keeps a field that is null.** An envelope read from an
object without lone surrogates, with finite numbers and whole numbers of at most as many digits as the limit, is written as
a line exactly if it goes no deeper than the limit of 255 levels. Its line is read as the envelope with those of its kept
fields that are not null: as the same envelope exactly if no undeclared field of the object was null. -/
theorem rereads_unless_null_kept (fields : Json.Fields) (m : Message) (hexact : isExact (.obj fields) = true)
    (hencodable : isEncodable (.obj fields) = true) (h : Message.parse (.obj fields) = .ok m) :
    ((∃ line, encodeMessage (lit "utf-8") m = .ok line) ↔ m.IsShallow) ∧
    ∀ line, encodeMessage (lit "utf-8") m = .ok line →
      ∃ v, readBody (lit "utf-8") line = .ok v ∧
        Message.parse v = .ok (m.keeping (Json.Fields.present m.extra)) ∧
        (Message.parse v = .ok m ↔ ∀ f ∈ fields, f.1 ∉ m.fieldNames → f.2.isNull = false) := by
  obtain ⟨_, ⟨⟩, hread⟩ := Message.parse_eq_ok_iff.mp h
  have hshallow {line : Bytes} (hok : encodeMessage (lit "utf-8") m = .ok line) : m.IsShallow :=
    ((Message.encodeMessage_eq_ok_iff (hread.isPortable_dump ⟨hexact, hencodable⟩)).mp hok).1
  refine ⟨⟨fun ⟨line, hok⟩ => hshallow hok, fun hs => ?_⟩, fun line hok => ?_⟩
  · obtain ⟨line, hline, -⟩ := hread.exists_line ⟨hexact, hencodable⟩ hs
    exact ⟨line, hline⟩
  · obtain ⟨line', hline, hbody⟩ := hread.exists_line ⟨hexact, hencodable⟩ (hshallow hok)
    cases hok.symm.trans hline
    refine ⟨.obj m.written, hbody, hread.parse_written, ?_⟩
    rw [hread.parse_written, Except.ok.injEq, hread.keeping_present_eq_iff]

/-- A response that loses nothing: its message is null, and so are parts of its body, but no field it keeps. -/
theorem rereads_response_with_null_message :
    let fields : Json.Fields := [(lit "seq", .str (lit " 7")), (lit "type", .str (lit "response")), (lit "request_seq", .int 1),
      (lit "command", .str (lit "é")), (lit "message", .null), (lit "body", .arr [.null, .obj [(lit "x", .null)]]),
      (lit "time", .int (-3))]
    isExact (.obj fields) = true ∧ isEncodable (.obj fields) = true ∧
    ∃ m line v, Message.parse (.obj fields) = .ok m ∧ encodeMessage (lit "utf-8") m = .ok line ∧
      readBody (lit "utf-8") line = .ok v ∧ Message.parse v = .ok m := by
  intro fields
  have hexact : isExact (.obj fields) = true := by decide +kernel
  have hencodable : isEncodable (.obj fields) = true := by decide
  let response : Response := ⟨7, 1, lit "é", true, none, .arr [.null, .obj [(lit "x", .null)]], [(lit "time", .int (-3))]⟩
  have hm : Message.parse (.obj fields) = .ok (.response response) := rfl
  obtain ⟨hwritten, hreread⟩ := rereads_unless_null_kept fields _ hexact hencodable hm
  have hshallow : (Message.response response).IsShallow :=
    (by decide : ∀ f ∈ (Message.response response).dump, f.2.levels ≤ Message.depthLimit)
  obtain ⟨line, hline⟩ := hwritten.mpr hshallow
  obtain ⟨v, hbody, -, hsame⟩ := hreread line hline
  have hkept : ∀ f ∈ fields, f.1 ∉ Response.fieldNames → f.2.isNull = false := by decide
  exact ⟨hexact, hencodable, _, line, v, hm, hline, hbody, hsame.mpr hkept⟩

/-- **A field that is null is lost**: an event that keeps one is written without it, and is another event when it is read
again. -/
theorem null_field_lost :
    let fields : Json.Fields := [(lit "type", .str (lit "event")), (lit "event", .str (lit "telemetry")), (lit "note", .null)]
    isExact (.obj fields) = true ∧ isEncodable (.obj fields) = true ∧ (Json.obj fields).nesting < 300 ∧
    ∃ m line v, Message.parse (.obj fields) = .ok m ∧ m.dump.get? (lit "note") = some .null ∧
      encodeMessage (lit "utf-8") m = .ok line ∧ readBody (lit "utf-8") line = .ok v ∧
      v.field? (lit "note") = none ∧ Message.parse v ≠ .ok m := by
  intro fields
  have hparse : Message.parse (.obj fields) = .ok (.event ⟨0, lit "telemetry", .null, [(lit "note", .null)]⟩) := rfl
  obtain ⟨_, ⟨⟩, hread⟩ := Message.parse_eq_ok_iff.mp hparse
  have hshallow : (Message.event ⟨0, lit "telemetry", .null, [(lit "note", .null)]⟩).IsShallow :=
    (by decide : ∀ f ∈ (Message.event ⟨0, lit "telemetry", .null, [(lit "note", .null)]⟩).dump, f.2.levels ≤ Message.depthLimit)
  obtain ⟨line, hline, hbody⟩ := hread.exists_line ⟨by decide, by decide⟩ hshallow
  refine ⟨by decide, by decide, by decide, _, line, _, hparse, rfl, hline, hbody, rfl, ?_⟩
  rw [hread.parse_written, Ne, Except.ok.injEq, hread.keeping_present_eq_iff]
  exact fun h => absurd (h (lit "note", .null) (by simp [fields]) (by decide)) (by decide)

end DiagnosticsClient
