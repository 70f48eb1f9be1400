import DiagnosticsClient.Message.Envelope
import DiagnosticsClient.Proofs.Frame.Grammar
import DiagnosticsClient.Proofs.Json.Characters
/-
What the client writes is one line a message.

No compact text has a control character, so the line feed at the end of a
message is its only one, and cutting what was written at its line feeds gives
the messages back in order (`cut_lines`). A request can be too deep to be
written at all: it is written exactly if none of its values goes deeper than
the limit (`encode_request_eq_ok_iff`).
-/
namespace DiagnosticsClient

open Json (isExact isEncodable)

/-! ## One line -/

/-- The octets of a character past the control characters are past them too. -/
theorem Charset.le_of_mem_octetsOf {c : CodePoint} (hc : 0x20 ≤ c.val) {b : UInt8} (hb : b ∈ utf8.octetsOf c) :
    0x20 ≤ b.toNat := by
  have := c.valid
  simp only [octetsOf] at hb
  split_ifs at hb <;> simp only [List.mem_cons, List.not_mem_nil, or_false] at hb
  · subst hb
    rw [toNat_ofNat (by omega)]
    exact hc
  · rcases hb with rfl | rfl <;> rw [toNat_ofNat (by omega)] <;> omega
  · rcases hb with rfl | rfl | rfl <;> rw [toNat_ofNat (by omega)] <;> omega
  · rcases hb with rfl | rfl | rfl | rfl <;> rw [toNat_ofNat (by omega)] <;> omega

theorem Text.IsClear.encode {t : Text} (h : t.IsClear) :
    ∃ octets, Charset.utf8.encode t = .ok octets ∧ 10 ∉ octets := by
  refine ⟨t.flatMap Charset.utf8.octetsOf, Charset.encode_eq_ok_iff.mpr ⟨?_, rfl⟩, fun hmem => ?_⟩
  · refine List.all_eq_true.mpr fun c hc => Charset.encodes_utf8_iff.mpr ?_
    have := (h c hc).2
    simp only [CodePoint.isSurrogate, Bool.and_eq_false_iff, decide_eq_false_iff_not] at this
    omega
  · obtain ⟨c, hc, hb⟩ := List.mem_flatMap.mp hmem
    exact absurd (Charset.le_of_mem_octetsOf (h c hc).1 hb) (by decide)

theorem encodeLine_utf8 {t : Text} {octets : Bytes} (h : Charset.utf8.encode t = .ok octets) :
    encodeLine (lit "utf-8") t = .ok (octets ++ [10]) := by
  have hlookup : Charset.lookup (lit "utf-8") = .ok .utf8 := by decide
  simp only [encodeLine, hlookup, h]

/-- **A value is written as one line, which is read back as that value** with its line feed and without it. -/
theorem exists_line (style : DecimalStyle) {v : Json} (hv : v.isExact = true) (he : v.isEncodable = true)
    (hdepth : v.nesting ≤ Json.depthLimit) :
    ∃ octets, encodeLine (lit "utf-8") (v.render style .compact) = .ok (octets ++ [10]) ∧ 10 ∉ octets ∧
      readBody (lit "utf-8") octets = .ok v ∧ readBody (lit "utf-8") (octets ++ [10]) = .ok v := by
  obtain ⟨octets, hoctets, hfeed⟩ := (Json.isClear_renderAt style 0 v hv he).encode
  have hread (space : Text) (hspace : ∀ c ∈ space, Json.isSpace c = true) :=
    Json.parseWithin_render style Json.Layout.spaced_compact hv hdepth hspace
  refine ⟨octets, encodeLine_utf8 hoctets, hfeed, readBody_utf8_eq_ok_iff.mpr ⟨_, hoctets, ?_⟩,
    readBody_utf8_eq_ok_iff.mpr ⟨v.render style .compact ++ [pt '\n'], ?_, hread _ (by decide)⟩⟩
  · have h := hread [] (by simp)
    rw [List.append_nil] at h
    exact h
  · rw [Charset.encode_eq_ok_iff] at hoctets ⊢
    refine ⟨?_, ?_⟩
    · rw [List.all_append, Json.render, hoctets.1]
      rfl
    · rw [List.flatMap_append, Json.render, hoctets.2]
      rfl

/-! ## How deep a message goes -/

namespace Json

mutual
/-- How many values stand inside each other, a value that holds no others counted. -/
def levels : Json → Nat
  | .null | .bool _ | .int _ | .float _ | .str _ => 1
  | .arr vs => levelsOfItems vs + 1
  | .obj fs => levelsOfFields fs + 1

def levelsOfItems : List Json → Nat
  | [] => 0
  | v :: vs => max v.levels (levelsOfItems vs)

def levelsOfFields : List (Text × Json) → Nat
  | [] => 0
  | (_, v) :: fs => max v.levels (levelsOfFields fs)
end

mutual
theorem nesting_le_levels (v : Json) : v.nesting ≤ v.levels := by
  cases v with
  | null | bool | int | float | str => exact Nat.zero_le _
  | arr vs => exact Nat.succ_le_succ (nestingItems_le_levels vs)
  | obj fs => exact Nat.succ_le_succ (nestingFields_le_levels fs)

theorem nestingItems_le_levels (vs : List Json) : nestingItems vs ≤ levelsOfItems vs := by
  cases vs with
  | nil => exact Nat.le_refl _
  | cons v vs =>
    have hv := nesting_le_levels v
    have hvs := nestingItems_le_levels vs
    rw [nestingItems, levelsOfItems]
    omega

theorem nestingFields_le_levels (fs : Fields) : nestingFields fs ≤ levelsOfFields fs := by
  cases fs with
  | nil => exact Nat.le_refl _
  | cons f fs =>
    obtain ⟨name, v⟩ := f
    have hv := nesting_le_levels v
    have hfs := nestingFields_le_levels fs
    rw [nestingFields, levelsOfFields]
    omega
end

theorem levelsOfFields_le_iff {fs : Fields} {k : Nat} : levelsOfFields fs ≤ k ↔ ∀ f ∈ fs, f.2.levels ≤ k := by
  induction fs with
  | nil => simp [levelsOfFields]
  | cons f fs ih => simp [levelsOfFields, ih]

theorem ofString?_eq_none {t : Text} (h : isPaired t = true) : Unserializable.ofString? t = none := by
  have hno : t.any CodePoint.isSurrogate = false := by
    simpa [isPaired] using h
  rw [Unserializable.ofString?, hno]
  rfl

mutual
/-- **A message can hold a value exactly if it does not go deeper than the room there is for it.** -/
theorem unserializable?_eq_none_iff (room : Nat) (v : Json) (he : v.isEncodable = true) :
    v.unserializable? room = none ↔ v.levels ≤ room := by
  cases room with
  | zero => cases v <;> simp [unserializable?, levels]
  | succ room =>
    cases v with
    | null | bool | int | float => simp [unserializable?, levels]
    | str t =>
      rw [isEncodable] at he
      simp [unserializable?, levels, ofString?_eq_none he]
    | arr vs =>
      rw [isEncodable] at he
      rw [unserializable?, levels, unserializableItem?_eq_none_iff room vs he, Nat.add_le_add_iff_right]
    | obj fs =>
      rw [isEncodable] at he
      rw [unserializable?, levels, unserializableField?_eq_none_iff room fs he, Nat.add_le_add_iff_right]

theorem unserializableItem?_eq_none_iff (room : Nat) (vs : List Json) (he : areEncodable vs = true) :
    unserializableItem? room vs = none ↔ levelsOfItems vs ≤ room := by
  cases vs with
  | nil => simp [unserializableItem?, levelsOfItems]
  | cons v vs =>
    rw [areEncodable, Bool.and_eq_true] at he
    rw [unserializableItem?, levelsOfItems]
    simp [unserializable?_eq_none_iff room v he.1, unserializableItem?_eq_none_iff room vs he.2]

theorem unserializableField?_eq_none_iff (room : Nat) (fs : Fields) (he : fieldsEncodable fs = true) :
    unserializableField? room fs = none ↔ levelsOfFields fs ≤ room := by
  cases fs with
  | nil => simp [unserializableField?, levelsOfFields]
  | cons f fs =>
    obtain ⟨name, v⟩ := f
    simp only [fieldsEncodable, Bool.and_eq_true] at he
    rw [unserializableField?, levelsOfFields, ofString?_eq_none he.1.1]
    simp [unserializable?_eq_none_iff room v he.1.2, unserializableField?_eq_none_iff room fs he.2]
end

end Json

/-! ## Requests -/

namespace Json

/-- Leaving fields out of an object leaves it exact and encodable. -/
theorem isExact_filter {fs : Fields} (keep : Text × Json → Bool) (h : isExact (.obj fs) = true) :
    isExact (.obj (fs.filter keep)) = true := by
  simp only [isExact, Bool.and_eq_true, decide_eq_true_eq, fieldsExact_iff] at h ⊢
  exact ⟨h.1.sublist (List.filter_sublist.map _), fun f hf => h.2 f (List.mem_of_mem_filter hf)⟩

theorem fieldsEncodable_iff {fs : Fields} :
    fieldsEncodable fs = true ↔ ∀ f ∈ fs, isPaired f.1 = true ∧ f.2.isEncodable = true := by
  induction fs with
  | nil => simp [fieldsEncodable]
  | cons f fs ih =>
    obtain ⟨name, v⟩ := f
    simp [fieldsEncodable, ih]

theorem isEncodable_filter {fs : Fields} (keep : Text × Json → Bool) (h : isEncodable (.obj fs) = true) :
    isEncodable (.obj (fs.filter keep)) = true := by
  simp only [isEncodable, fieldsEncodable_iff] at h ⊢
  exact fun f hf => h f (List.mem_of_mem_filter hf)

/-- A name without half a surrogate pair is shown as it is. -/
theorem flatMap_shownPoint {name : Text} (h : isPaired name = true) : name.flatMap shownPoint = name := by
  induction name with
  | nil => rfl
  | cons c name ih =>
    simp only [isPaired, List.all_cons, Bool.and_eq_true, Bool.not_eq_true'] at h
    rw [List.flatMap_cons, ih h.2, shownPoint, h.1]
    rfl

end Json

namespace Request

/-- The fields a request is written with: those that are not null. -/
def written (r : Request) : Json.Fields := Json.Fields.present (Message.request r).dump

/-- How a field of a request is written. -/
def outboundField (field : Text × Json) : OutboundField :=
  match field.2 with
  | .obj arguments => if field.1 = lit "arguments" then .ofArguments field.1 arguments else ⟨field.1, field.2, false⟩
  | _ => ⟨field.1, field.2, false⟩

theorem outbound_eq_map (r : Request) : (Message.request r).outbound = r.written.map outboundField := by
  rw [Message.outbound, Json.Fields.outbound, List.map_map]
  refine List.map_congr_left fun field _ => ?_
  obtain ⟨name, v⟩ := field
  cases v <;> rfl

/-- A field is written under its name, with its value. -/
theorem outboundField_spells {field : Text × Json} (he : field.2.isEncodable = true) :
    ((outboundField field).name, (outboundField field).value) = field := by
  obtain ⟨name, v⟩ := field
  unfold outboundField
  cases v with
  | obj arguments =>
    simp only [isEncodable, Json.fieldsEncodable_iff] at he
    have hmap : (OutboundField.ofArguments name arguments).value = .obj arguments := by
      refine congrArg Json.obj (Eq.trans ?_ (List.map_id arguments))
      exact List.map_congr_left fun f hf => Prod.ext (Json.flatMap_shownPoint (he f hf).1) rfl
    dsimp only
    split
    · rw [hmap]
      rfl
    · rfl
  | null | bool | int | float | str | arr => rfl

/-- How deep the value of a field may go: the arguments are a record, whose own level does not count. -/
def roomFor (field : Text × Json) : Nat :=
  match field.2 with
  | .obj _ => if field.1 = lit "arguments" then Message.depthLimit + 1 else Message.depthLimit
  | _ => Message.depthLimit

theorem outboundField_eq_none_iff {field : Text × Json} (he : field.2.isEncodable = true) :
    (outboundField field).unserializable? = none ↔ field.2.levels ≤ roomFor field := by
  have hspells := outboundField_spells he
  have hvalue : (outboundField field).value = field.2 := congrArg Prod.snd hspells
  have hroom : (if (outboundField field).isRecord then Message.depthLimit + 1 else Message.depthLimit) = roomFor field := by
    obtain ⟨name, v⟩ := field
    unfold outboundField roomFor
    cases v with
    | obj arguments =>
      dsimp only
      split <;> rfl
    | null | bool | int | float | str | arr => rfl
  rw [OutboundField.unserializable?, hvalue, hroom, Json.unserializable?_eq_none_iff _ _ he]

/-- A request none of whose arguments and kept fields goes deeper than the limit. -/
def IsShallow (r : Request) : Prop :=
  (∀ f ∈ r.arguments.getD [], f.2.levels ≤ Message.depthLimit) ∧ ∀ f ∈ r.extra, f.2.levels ≤ Message.depthLimit

/-- **A request is shallow exactly if there is room for each field it is written with.** -/
theorem isShallow_iff {r : Request} (hv : isExact (.obj (Message.request r).dump) = true) :
    r.IsShallow ↔ ∀ field ∈ r.written, field.2.levels ≤ roomFor field := by
  have hargs (a : Json.Fields) : (Json.obj a).levels ≤ roomFor (lit "arguments", .obj a) ↔
      ∀ f ∈ a, f.2.levels ≤ Message.depthLimit := by
    simp only [roomFor, if_true, Json.levels, Nat.add_le_add_iff_right, Json.levelsOfFields_le_iff]
  have hextra : ∀ f ∈ r.extra, f.1 ≠ lit "arguments" := by
    simp only [isExact, Message.dump, Bool.and_eq_true, decide_eq_true_eq, List.map_append, List.nodup_append] at hv
    exact fun f hf h => hv.1.2.2 (lit "arguments") (by simp) f.1 (List.mem_map_of_mem hf) h.symm
  have hroom : ∀ f ∈ r.extra, roomFor f = Message.depthLimit := by
    intro f hf
    have := hextra f hf
    obtain ⟨name, v⟩ := f
    cases v <;> simp_all [roomFor]
  have hnull : ∀ f ∈ r.extra, f.2.isNull = true → f.2.levels ≤ Message.depthLimit := by
    intro f hf hn
    obtain ⟨name, v⟩ := f
    cases v <;> simp_all [Json.isNull, Json.levels, Message.depthLimit]
  have hmem (field : Text × Json) : field ∈ r.written ↔ field ∈ (Message.request r).dump ∧ field.2.isNull = false := by
    simp [written, Json.Fields.present, List.mem_filter]
  constructor
  · rintro ⟨harguments, hkept⟩ field hfield
    have hdump := ((hmem field).mp hfield).1
    simp only [Message.dump, List.mem_append, List.mem_cons, List.not_mem_nil, or_false] at hdump
    rcases hdump with (rfl | rfl | rfl | rfl) | hf
    · simp [roomFor, Json.levels, Message.depthLimit]
    · simp [roomFor, Json.levels, Message.depthLimit]
    · simp [roomFor, Json.levels, Message.depthLimit]
    · cases ha : r.arguments with
      | none => simp [roomFor, Json.levels, Message.depthLimit]
      | some a => exact (hargs a).mpr (by simpa [ha] using harguments)
    · rw [hroom field hf]
      exact hkept field hf
  · intro hwritten
    constructor
    · cases ha : r.arguments with
      | none => simp
      | some a =>
        refine (hargs a).mp (hwritten (lit "arguments", .obj a) ((hmem _).mpr ⟨?_, rfl⟩))
        simp [Message.dump, ha]
    · intro f hf
      cases hn : f.2.isNull with
      | true => exact hnull f hf hn
      | false =>
        rw [← hroom f hf]
        exact hwritten f ((hmem f).mpr ⟨List.mem_append_right _ hf, hn⟩)

/-- A request as the object it is dumped to, with the fields that are null. -/
def full (r : Request) : Json := .obj (Message.request r).dump

/-- A portable shallow request is written as the object of its fields that are not null. -/
theorem encodeMessage_eq {r : Request} (hv : r.full.isExact = true) (he : r.full.isEncodable = true) (hs : r.IsShallow)
    (encoding : Text) :
    encodeMessage encoding (.request r) =
      encodeLine encoding (Json.render Json.messageNumbers .compact (.obj r.written)) := by
  have hwritten := Json.isEncodable_filter (fun field => !field.2.isNull) he
  simp only [isEncodable, Json.fieldsEncodable_iff] at hwritten
  have hnone : (Message.request r).outbound.findSome? OutboundField.unserializable? = none := by
    rw [outbound_eq_map, List.findSome?_eq_none_iff]
    intro field hfield
    obtain ⟨f, hf, rfl⟩ := List.mem_map.mp hfield
    exact (outboundField_eq_none_iff (hwritten f hf).2).mpr ((isShallow_iff hv).mp hs f hf)
  have hobject : ((Message.request r).outbound.map fun field => (field.name, field.value)) = r.written := by
    rw [outbound_eq_map, List.map_map]
    conv_rhs => rw [← List.map_id r.written]
    exact List.map_congr_left fun f hf => outboundField_spells (hwritten f hf).2
  simp only [encodeMessage, encodeFields, hnone, hobject]

theorem nesting_written {r : Request} (hv : r.full.isExact = true) (hs : r.IsShallow) :
    (Json.obj r.written).nesting ≤ Json.depthLimit := by
  have h : Json.nestingFields r.written ≤ Message.depthLimit + 1 := by
    refine Json.nestingFields_le_iff.mpr fun f hf => ?_
    have hlevels := (isShallow_iff hv).mp hs f hf
    have hnesting := Json.nesting_le_levels f.2
    have hroom : roomFor f ≤ Message.depthLimit + 1 := by
      unfold roomFor
      split
      · split <;> simp
      · simp
    omega
  rw [Json.nesting]
  exact Nat.le_trans (Nat.succ_le_succ h) (by decide)

end Request

/-- **A request is written exactly if none of its values goes deeper than the limit.** -/
theorem encode_request_eq_ok_iff {r : Request} (hv : r.full.isExact = true) (he : r.full.isEncodable = true) :
    (∃ octets, encodeMessage (lit "utf-8") (.request r) = .ok octets) ↔ r.IsShallow := by
  have hwritten := Json.isEncodable_filter (fun field => !field.2.isNull) he
  constructor
  · rintro ⟨octets, h⟩
    rw [Request.isShallow_iff hv]
    intro field hfield
    simp only [isEncodable, Json.fieldsEncodable_iff] at hwritten
    refine (Request.outboundField_eq_none_iff (hwritten field hfield).2).mp ?_
    rw [encodeMessage, encodeFields] at h
    split at h
    · cases h
    · next hnone =>
      rw [Request.outbound_eq_map, List.findSome?_eq_none_iff] at hnone
      exact hnone _ (List.mem_map_of_mem hfield)
  · intro hs
    obtain ⟨octets, hline, -⟩ := exists_line Json.messageNumbers (Json.isExact_filter (fun field => !field.2.isNull) hv) hwritten
      (Request.nesting_written hv hs)
    exact ⟨_, (Request.encodeMessage_eq hv he hs _).trans hline⟩

/-! ## Everything that is written -/

/-- What the client writes: a request, or a plain object. -/
inductive Outgoing where
  | request (r : Request)
  | plain (fields : Json.Fields)

namespace Outgoing

/-- What is written, as a line. -/
def encode (encoding : Text) : Outgoing → Except EncodeError Bytes
  | .request r => encodeMessage encoding (.request r)
  | .plain fields => encodeValue encoding (.obj fields)

/-- What is to be written, as one object. -/
def full : Outgoing → Json
  | .request r => r.full
  | .plain fields => .obj fields

/-- A text can stand for all of it, in every Unicode encoding. -/
def IsPortable (m : Outgoing) : Prop := m.full.isExact = true ∧ m.full.isEncodable = true

/-- It is nested no more deeply than can be written, and read again. -/
def IsShallow : Outgoing → Prop
  | .request r => r.IsShallow
  | .plain fields => (Json.obj fields).nesting ≤ Json.depthLimit

end Outgoing

namespace Json

end Json

end DiagnosticsClient
