import DiagnosticsClient.Proofs.Frame.Stability
import DiagnosticsClient.Proofs.Text.Utf8
import Mathlib.Data.List.Forall2
/-
The grammar of frames, and that a pass over a buffer accepts nothing else.

A heading is a header by itself, a frame a heading with a body of the size it
gives. A buffer that begins with a heading says what is read from it
(`readFrame_heading`); one that does not may begin with a part of one, or never
begins with one whatever comes next. So what stands at the front of a buffer is
told from the octets alone, and with it everything a pass finds.
-/
namespace DiagnosticsClient

/-! ## Headings -/

/-- A header by itself: its digits, at least one, and its two line ends. -/
@[ext] structure Heading where
  digits : Bytes
  first : Bytes
  second : Bytes
  nonempty : digits ≠ []
  digital : ∀ d ∈ digits, Header.isDigit d = true
  firstEnds : Header.IsLineEnd first
  secondEnds : Header.IsLineEnd second

namespace Heading

def octets (h : Heading) : Bytes := Header.name ++ (h.digits ++ (h.first ++ h.second))

/-- How many octets the body has. -/
def size (h : Heading) : Nat := Header.number h.digits

variable {buffer rest rest' : Bytes}

theorem whole?_octets (h : Heading) (rest : Bytes) :
    Header.whole? (h.octets ++ rest) = some ⟨h.digits, h.octets.length, rest⟩ := by
  refine Header.whole?_eq_some_iff.mpr
    ⟨h.first, h.second, h.firstEnds, h.secondEnds, h.nonempty, h.digital, ?_, ?_⟩
  · simp only [octets, List.append_assoc]
  · simp only [octets, List.length_append]
    omega

theorem exists_of_whole? {w : Header.Whole} (hw : Header.whole? buffer = some w) :
    ∃ h : Heading, buffer = h.octets ++ w.rest ∧ w = ⟨h.digits, h.octets.length, w.rest⟩ := by
  obtain ⟨e₁, e₂, g⟩ := Header.whole?_eq_some_iff.mp hw
  have hb := g.buffer
  refine ⟨⟨w.digits, e₁, e₂, g.nonempty, g.digits, g.first, g.second⟩, ?_, ?_⟩
  · simpa only [octets, List.append_assoc] using hb
  · obtain ⟨digits, size, rest⟩ := w
    have hs := g.size
    simp only [octets, List.length_append, Header.Whole.mk.injEq, true_and, and_true] at hs ⊢
    omega

/-- Two line ends are told apart from their octets. -/
theorem lineEnds_inj {e₁ e₂ e₁' e₂' : Bytes} (h₁ : Header.IsLineEnd e₁) (h₂ : Header.IsLineEnd e₂)
    (h₁' : Header.IsLineEnd e₁') (h₂' : Header.IsLineEnd e₂') (h : e₁ ++ e₂ = e₁' ++ e₂') : e₁ = e₁' ∧ e₂ = e₂' := by
  rcases h₁ with rfl | rfl <;> rcases h₂ with rfl | rfl <;> rcases h₁' with rfl | rfl <;> rcases h₂' with rfl | rfl <;>
    revert h <;> decide

/-- **A heading is told from the octets it begins.** -/
theorem octets_append_inj {h h' : Heading} (he : h.octets ++ rest = h'.octets ++ rest') : h = h' ∧ rest = rest' := by
  have hw := h.whole?_octets rest
  rw [he, h'.whole?_octets rest'] at hw
  simp only [Option.some.injEq, Header.Whole.mk.injEq] at hw
  obtain ⟨hdigits, -, rfl⟩ := hw
  have hends : h.first ++ h.second = h'.first ++ h'.second := by
    rw [List.append_cancel_right_eq, octets, octets, hdigits] at he
    simpa only [List.append_cancel_left_eq] using he
  obtain ⟨hfirst, hsecond⟩ := lineEnds_inj h.firstEnds h.secondEnds h'.firstEnds h'.secondEnds hends
  exact ⟨Heading.ext hdigits.symm hfirst hsecond, rfl⟩

/-- A buffer holds a whole header exactly when it begins with a heading. -/
theorem whole?_eq_none_iff : Header.whole? buffer = none ↔ ∀ h : Heading, ¬ h.octets <+: buffer := by
  constructor
  · rintro hw h ⟨rest, rfl⟩
    rw [h.whole?_octets rest] at hw
    cases hw
  · intro hno
    cases hw : Header.whole? buffer with
    | none => rfl
    | some w =>
      obtain ⟨h, hb, -⟩ := exists_of_whole? hw
      exact absurd ⟨w.rest, hb.symm⟩ (hno h)

/-- Octets before which no heading ends may grow exactly when they are a part of one. -/
theorem mayGrow_iff_part (hw : Header.whole? buffer = none) :
    Header.mayGrow buffer = true ↔ ∃ h : Heading, buffer <+: h.octets ∧ buffer ≠ h.octets := by
  rw [Header.mayGrow_iff_exists_whole? hw]
  constructor
  · rintro ⟨more, hmore⟩
    obtain ⟨w, hw'⟩ := Option.isSome_iff_exists.mp hmore
    obtain ⟨h, hb, -⟩ := exists_of_whole? hw'
    have hnot := whole?_eq_none_iff.mp hw h
    refine ⟨h, ?_, fun heq => hnot (heq ▸ List.prefix_rfl)⟩
    rcases List.prefix_or_prefix_of_prefix (List.prefix_append buffer more) (hb ▸ List.prefix_append h.octets w.rest) with
      hle | hge
    · exact hle
    · exact absurd hge hnot
  · rintro ⟨h, ⟨more, hb⟩, -⟩
    refine ⟨more, ?_⟩
    have hall := h.whole?_octets []
    rw [List.append_nil, ← hb] at hall
    rw [hall]
    rfl

/-- No part of a heading begins with a whole one. -/
theorem whole?_of_part {h : Heading} (hp : buffer <+: h.octets) (hne : buffer ≠ h.octets) :
    Header.whole? buffer = none := by
  refine whole?_eq_none_iff.mpr fun h' ⟨rest, hb⟩ => hne ?_
  obtain ⟨more, hmore⟩ := hp
  have he : h'.octets ++ (rest ++ more) = h.octets ++ [] := by
    rw [List.append_nil, ← hmore, ← hb, List.append_assoc]
  obtain ⟨rfl, hnil⟩ := octets_append_inj he
  rw [← hb, (List.append_eq_nil_iff.mp hnil).1, List.append_nil]

end Heading

/-! ## Frames -/

/-- A heading and a body of the size it gives. -/
@[ext] structure WholeFrame where
  heading : Heading
  body : Bytes
  full : body.length = heading.size

namespace WholeFrame

def octets (f : WholeFrame) : Bytes := f.heading.octets ++ f.body

/-- **A frame is told from the octets it begins.** -/
theorem octets_append_inj {f f' : WholeFrame} {rest rest' : Bytes} (he : f.octets ++ rest = f'.octets ++ rest') :
    f = f' ∧ rest = rest' := by
  rw [octets, octets, List.append_assoc, List.append_assoc] at he
  obtain ⟨hh, hb⟩ := Heading.octets_append_inj he
  obtain ⟨hbody, hrest⟩ := List.append_inj hb (by rw [f.full, f'.full, hh])
  exact ⟨WholeFrame.ext hh hbody, hrest⟩

theorem octets_ne_nil (f : WholeFrame) : f.octets ≠ [] := by
  simp [octets, Heading.octets, Header.name, asciiBytes]

/-- Frames one after another are told apart. -/
theorem flatMap_octets_inj {fs fs' : List WholeFrame} (he : fs.flatMap octets = fs'.flatMap octets) : fs = fs' := by
  induction fs generalizing fs' with
  | nil =>
    cases fs' with
    | nil => rfl
    | cons f' fs' =>
      simp only [List.flatMap_nil, List.flatMap_cons, List.nil_eq_append_iff] at he
      exact absurd he.1 f'.octets_ne_nil
  | cons f fs ih =>
    cases fs' with
    | nil =>
      simp only [List.flatMap_nil, List.flatMap_cons, List.append_eq_nil_iff] at he
      exact absurd he.1 f.octets_ne_nil
    | cons f' fs' =>
      simp only [List.flatMap_cons] at he
      obtain ⟨rfl, hrest⟩ := octets_append_inj he
      rw [ih hrest]

end WholeFrame

/-! ## The front of a buffer -/

section Front

variable {encoding : Text} {buffer rest : Bytes}

/-- What is read from a buffer that begins with a heading. -/
theorem readFrame_heading (encoding : Text) (h : Heading) (rest : Bytes) :
    readFrame encoding (h.octets ++ rest) =
      if Text.digitLimit < h.digits.length then .refused (.integerTooLong h.digits.length)
      else if rest.length < h.size then .unfinished
      else
        match readBody encoding (rest.take h.size) with
        | .ok message => .frame message (h.octets.length + h.size) (rest.drop h.size)
        | .error (.fault f) => .fault (.body f) h.octets.length
        | .error (.refused r) => .refused r := by
  rw [readFrame_of_whole? (h.whole?_octets rest)]
  have hfills : fills (Header.number h.digits) rest = false ↔ rest.length < h.size := by
    rw [← Bool.not_eq_true, fills_iff_le_length, Nat.not_le, Heading.size]
  simp only [hfills]
  rfl

/-- What is read from a buffer that begins with a frame: its body, if the header can be read. -/
theorem readFrame_octets (encoding : Text) (f : WholeFrame) (rest : Bytes) :
    readFrame encoding (f.octets ++ rest) =
      if Text.digitLimit < f.heading.digits.length then .refused (.integerTooLong f.heading.digits.length)
      else
        match readBody encoding f.body with
        | .ok message => .frame message f.octets.length rest
        | .error (.fault fault) => .fault (.body fault) f.heading.octets.length
        | .error (.refused r) => .refused r := by
  rw [WholeFrame.octets, List.append_assoc, readFrame_heading, ← f.full]
  have hlen : ¬ (f.body ++ rest).length < f.body.length := by rw [List.length_append]; omega
  rw [if_neg hlen, List.take_left, List.drop_left, List.length_append]

/-- Octets that are the beginning of a heading, but not all of it. -/
def IsPart (buffer : Bytes) : Prop := ∃ h : Heading, buffer <+: h.octets ∧ buffer ≠ h.octets

/-- Octets that no octets after them make begin with a heading. -/
def IsStray (buffer : Bytes) : Prop := ∀ (h : Heading) (more : Bytes), ¬ h.octets <+: buffer ++ more

/-- A heading with fewer octets after it than its body is to have. -/
def IsShort (buffer : Bytes) : Prop := ∃ (h : Heading) (body : Bytes), buffer = h.octets ++ body ∧ body.length < h.size

/-- What stands at the front of a buffer, as far as its octets tell. -/
theorem front_cases (buffer : Bytes) :
    IsPart buffer ∨ IsStray buffer ∨ IsShort buffer ∨ ∃ (f : WholeFrame) (rest : Bytes), buffer = f.octets ++ rest := by
  cases hw : Header.whole? buffer with
  | none =>
    cases hg : Header.mayGrow buffer with
    | true => exact .inl ((Heading.mayGrow_iff_part hw).mp hg)
    | false =>
      refine .inr (.inl fun h more => ?_)
      exact Heading.whole?_eq_none_iff.mp (Header.not_mayGrow_append (b := more) hw hg).1 h
  | some w =>
    obtain ⟨h, hb, -⟩ := Heading.exists_of_whole? hw
    by_cases hlen : w.rest.length < h.size
    · exact .inr (.inr (.inl ⟨h, w.rest, hb, hlen⟩))
    · refine .inr (.inr (.inr ⟨⟨h, w.rest.take h.size, ?_⟩, w.rest.drop h.size, ?_⟩))
      · rw [List.length_take]
        omega
      · rw [WholeFrame.octets, List.append_assoc, List.take_append_drop, hb]

theorem readFrame_of_isPart (encoding : Text) (h : IsPart buffer) : readFrame encoding buffer = .unfinished := by
  obtain ⟨hd, hp, hne⟩ := h
  have hw := Heading.whole?_of_part hp hne
  rw [readFrame_of_whole?_eq_none hw, if_pos ((Heading.mayGrow_iff_part hw).mpr ⟨hd, hp, hne⟩)]

theorem readFrame_of_isStray (encoding : Text) (h : IsStray buffer) : readFrame encoding buffer = .fault .header 0 := by
  have hw : Header.whole? buffer = none :=
    Heading.whole?_eq_none_iff.mpr fun hd hp => h hd [] (by rwa [List.append_nil])
  rw [readFrame_of_whole?_eq_none hw, if_neg]
  intro hg
  obtain ⟨hd, ⟨more, hmore⟩, -⟩ := (Heading.mayGrow_iff_part hw).mp hg
  exact h hd more (hmore ▸ List.prefix_rfl)

theorem readFrame_of_isShort (encoding : Text) (h : IsShort buffer) :
    readFrame encoding buffer = .unfinished ∨ ∃ r, readFrame encoding buffer = .refused r := by
  obtain ⟨hd, body, rfl, hlen⟩ := h
  rw [readFrame_heading, if_pos hlen]
  split
  · exact .inr ⟨_, rfl⟩
  · exact .inl rfl

variable {message : Json} {size offset : Nat}

/-- A frame is read only where one is. -/
theorem readFrame_eq_frame (h : readFrame encoding buffer = .frame message size rest) :
    ∃ f : WholeFrame, buffer = f.octets ++ rest ∧ size = f.octets.length ∧ readBody encoding f.body = .ok message := by
  rcases front_cases buffer with hp | hs | hs | ⟨f, rest', rfl⟩
  · rw [readFrame_of_isPart encoding hp] at h
    cases h
  · rw [readFrame_of_isStray encoding hs] at h
    cases h
  · rcases readFrame_of_isShort encoding hs with hu | ⟨r, hr⟩
    · rw [hu] at h; cases h
    · rw [hr] at h; cases h
  · rw [readFrame_octets] at h
    split at h
    · cases h
    split at h
    · next hbody =>
      cases h
      exact ⟨f, rfl, rfl, hbody⟩
    · cases h
    · cases h

/-- More octets are waited for exactly where a header or a body is not whole yet. -/
theorem readFrame_eq_unfinished_iff (hr : ∀ r, readFrame encoding buffer ≠ .refused r) :
    readFrame encoding buffer = .unfinished ↔ IsPart buffer ∨ IsShort buffer := by
  constructor
  · intro h
    rcases front_cases buffer with hp | hs | hs | ⟨f, rest, rfl⟩
    · exact .inl hp
    · rw [readFrame_of_isStray encoding hs] at h
      cases h
    · exact .inr hs
    · rw [readFrame_octets] at h
      split at h
      · cases h
      split at h <;> cases h
  · rintro (hp | hs)
    · exact readFrame_of_isPart encoding hp
    · rcases readFrame_of_isShort encoding hs with hu | ⟨r, hr'⟩
      · exact hu
      · exact absurd hr' (hr r)

/-- A header is at fault exactly where no octets can make one. -/
theorem readFrame_eq_headerFault_iff :
    readFrame encoding buffer = .fault .header offset ↔ offset = 0 ∧ IsStray buffer := by
  constructor
  · intro h
    rcases front_cases buffer with hp | hs | hs | ⟨f, rest, rfl⟩
    · rw [readFrame_of_isPart encoding hp] at h
      cases h
    · rw [readFrame_of_isStray encoding hs] at h
      cases h
      exact ⟨rfl, hs⟩
    · rcases readFrame_of_isShort encoding hs with hu | ⟨r, hr⟩
      · rw [hu] at h; cases h
      · rw [hr] at h; cases h
    · rw [readFrame_octets] at h
      split at h
      · cases h
      split at h <;> cases h
  · rintro ⟨rfl, hs⟩
    exact readFrame_of_isStray encoding hs

/-- A body is at fault exactly where it is whole and has no value. -/
theorem readFrame_eq_bodyFault_iff (hr : ∀ r, readFrame encoding buffer ≠ .refused r) :
    (∃ cause, readFrame encoding buffer = .fault (.body cause) offset) ↔
      ∃ (f : WholeFrame) (rest : Bytes), buffer = f.octets ++ rest ∧ offset = f.heading.octets.length ∧
        ¬ ∃ v, readBody encoding f.body = .ok v := by
  constructor
  · rintro ⟨cause, h⟩
    rcases front_cases buffer with hp | hs | hs | ⟨f, rest, rfl⟩
    · rw [readFrame_of_isPart encoding hp] at h
      cases h
    · rw [readFrame_of_isStray encoding hs] at h
      cases h
    · rcases readFrame_of_isShort encoding hs with hu | ⟨r, hr⟩
      · rw [hu] at h; cases h
      · rw [hr] at h; cases h
    · rw [readFrame_octets] at h
      split at h
      · cases h
      split at h
      · cases h
      · next hbody =>
        cases h
        refine ⟨f, rest, rfl, rfl, fun ⟨v, hv⟩ => ?_⟩
        rw [hbody] at hv
        cases hv
      · cases h
  · rintro ⟨f, rest, rfl, rfl, hno⟩
    have hread := readFrame_octets encoding f rest
    split at hread
    · exact absurd hread (hr _)
    split at hread
    · next v hv => exact absurd ⟨v, hv⟩ hno
    · next cause _ => exact ⟨cause, hread⟩
    · exact absurd hread (hr _)

end Front

/-! ## A whole pass -/

/-- How a pass ends that has given `messages` and taken `consumed` octets: by what stands at the front of the rest. -/
inductive Concludes (encoding : Text) (rest : Bytes) (messages : List Json) (consumed : Nat) :
    Except Refusal Decoded → Prop where
  | unfinished (h : readFrame encoding rest = .unfinished) :
    Concludes encoding rest messages consumed (.ok ⟨messages, consumed, none⟩)
  | fault {complaint : FrameComplaint} {offset : Nat} (h : readFrame encoding rest = .fault complaint offset) :
    Concludes encoding rest messages consumed (.ok ⟨messages, consumed, some ⟨complaint, consumed + offset⟩⟩)
  | refused {r : Refusal} (h : readFrame encoding rest = .refused r) : Concludes encoding rest messages consumed (.error r)

/-- What a pass found that is not refused says what stands at the front of the rest. -/
theorem Concludes.of_ok {encoding : Text} {rest : Bytes} {messages : List Json} {consumed : Nat} {found : Decoded}
    (h : Concludes encoding rest messages consumed (.ok found)) :
    found.messages = messages ∧ found.consumed = consumed ∧ (∀ r, readFrame encoding rest ≠ .refused r) ∧
      (found.fault = none ↔ readFrame encoding rest = .unfinished) ∧
      ∀ complaint offset, found.fault = some ⟨complaint, offset⟩ ↔
        ∃ at_, readFrame encoding rest = .fault complaint at_ ∧ offset = consumed + at_ := by
  cases h with
  | unfinished h => simp [h]
  | fault h => simp [h, eq_comm]

/-- **A pass reads frames, and ends where none can be read.** -/
theorem exists_frames (encoding : Text) (buffer : Bytes) :
    ∃ (frames : List WholeFrame) (rest : Bytes) (messages : List Json), buffer = frames.flatMap WholeFrame.octets ++ rest ∧
      List.Forall₂ (fun f v => readBody encoding f.body = .ok v) frames messages ∧
      Concludes encoding rest messages (frames.flatMap WholeFrame.octets).length (decode encoding buffer) := by
  induction hn : buffer.length using Nat.strongRecOn generalizing buffer with
  | ind n ih =>
    cases hr : readFrame encoding buffer with
    | frame message size rest =>
      obtain ⟨f, rfl, rfl, hbody⟩ := readFrame_eq_frame hr
      have hlen : rest.length < n := by
        have := List.length_pos_iff.mpr f.octets_ne_nil
        rw [List.length_append] at hn
        omega
      obtain ⟨frames, rest', messages, rfl, hall, hend⟩ := ih rest.length hlen rest rfl
      refine ⟨f :: frames, rest', message :: messages, ?_, .cons hbody hall, ?_⟩
      · rw [List.flatMap_cons, List.append_assoc]
      · rw [decode_of_frame hr, List.flatMap_cons, List.length_append]
        generalize decode encoding (frames.flatMap WholeFrame.octets ++ rest') = d at hend
        cases hend with
        | unfinished h => exact .unfinished h
        | fault h =>
          simp only [Except.map, Decoded.after, Option.map_some, ← Nat.add_assoc]
          exact .fault h
        | refused h => exact .refused h
    | unfinished =>
      rw [decode_of_unfinished hr]
      exact ⟨[], buffer, [], rfl, .nil, .unfinished hr⟩
    | fault complaint offset =>
      rw [decode_of_fault hr]
      refine ⟨[], buffer, [], rfl, .nil, ?_⟩
      have hfault : Concludes encoding buffer [] 0 (.ok ⟨[], 0, some ⟨complaint, 0 + offset⟩⟩) := .fault hr
      rwa [Nat.zero_add] at hfault
    | refused r =>
      rw [decode_of_refused hr]
      exact ⟨[], buffer, [], rfl, .nil, .refused hr⟩

/-! ## Bodies in UTF-8 -/

/-- A body is the UTF-8 of a text that spells a value. -/
def Spells (body : Bytes) (v : Json) : Prop := ∃ t, Charset.utf8.encode t = .ok body ∧ Json.parse t = .ok v

theorem bodyText_utf8 (body : Bytes) :
    bodyText (lit "utf-8") body = (Charset.utf8.decode body).mapError fun f => .fault (.undecodable f) := by
  have hname : Charset.checkName (lit "utf-8") = .ok () := by decide
  have hlookup : Charset.lookup (lit "utf-8") = .ok .utf8 := by decide
  unfold bodyText
  rw [hname, hlookup]
  split
  · next h => subst h; rfl
  · rfl

theorem readBody_utf8_eq_ok_iff {body : Bytes} {v : Json} : readBody (lit "utf-8") body = .ok v ↔ Spells body v := by
  rw [readBody, bodyText_utf8, Spells]
  constructor
  · intro h
    cases hd : Charset.utf8.decode body with
    | error f => rw [hd] at h; cases h
    | ok t =>
      rw [hd] at h
      refine ⟨t, Charset.decode_utf8_eq_ok_iff.mp hd, ?_⟩
      simp only [Except.mapError] at h
      split at h
      · next hv => cases h; exact hv
      all_goals cases h
  · rintro ⟨t, ht, hv⟩
    rw [Charset.decode_utf8_eq_ok_iff.mpr ht]
    simp only [Except.mapError, hv]

/-! ## The pass as a grammar -/

/-- **A pass that is not refused accepts exactly the grammar.** The octets it takes are one after another the frames of
its messages, and of no other frames. Of the rest it finds no fault exactly where a header or a body is not whole yet; it
finds a fault in the header, at the front of the rest, exactly where no octets after them can make one; and it finds a
fault in the body, after its header, exactly where the body is whole and is not the UTF-8 of a value. -/
theorem decode_accepts_grammar (buffer : Bytes) (found : Decoded) (h : decode (lit "utf-8") buffer = .ok found) :
    (∃ frames : List WholeFrame, frames.flatMap WholeFrame.octets = buffer.take found.consumed ∧
      List.Forall₂ (fun f v => Spells f.body v) frames found.messages ∧
      ∀ others : List WholeFrame, others.flatMap WholeFrame.octets = buffer.take found.consumed → others = frames) ∧
    (found.fault = none ↔
      buffer.drop found.consumed = [] ∨
      (∃ hd : Heading, buffer.drop found.consumed <+: hd.octets ∧ buffer.drop found.consumed ≠ hd.octets) ∨
      ∃ (hd : Heading) (body : Bytes), buffer.drop found.consumed = hd.octets ++ body ∧ body.length < hd.size) ∧
    (∀ offset, found.fault = some ⟨.header, offset⟩ ↔
      offset = found.consumed ∧
        ∀ (hd : Heading) (more : Bytes), ¬ hd.octets <+: buffer.drop found.consumed ++ more) ∧
    (∀ offset, (∃ cause, found.fault = some ⟨.body cause, offset⟩) ↔
      ∃ (hd : Heading) (body rest : Bytes), offset = found.consumed + hd.octets.length ∧
        buffer.drop found.consumed = hd.octets ++ (body ++ rest) ∧ body.length = hd.size ∧ ¬ ∃ v, Spells body v) := by
  obtain ⟨frames, rest, messages, rfl, hall, hend⟩ := exists_frames (lit "utf-8") buffer
  rw [h] at hend
  obtain ⟨rfl, hconsumed, hr, hnone, hsome⟩ := hend.of_ok
  rw [hconsumed, List.take_left, List.drop_left]
  refine ⟨⟨frames, rfl, ?_, fun others ho => WholeFrame.flatMap_octets_inj ho⟩, ?_, fun offset => ?_, fun offset => ?_⟩
  · simpa only [readBody_utf8_eq_ok_iff] using hall
  · rw [hnone, readFrame_eq_unfinished_iff hr]
    refine ⟨.inr, ?_⟩
    rintro (rfl | h)
    · exact (readFrame_eq_unfinished_iff hr).mp (readFrame_nil _)
    · exact h
  · rw [hsome]
    simp only [readFrame_eq_headerFault_iff]
    constructor
    · rintro ⟨_, ⟨rfl, hs⟩, rfl⟩
      exact ⟨rfl, hs⟩
    · rintro ⟨rfl, hs⟩
      exact ⟨0, ⟨rfl, hs⟩, rfl⟩
  · simp only [hsome]
    constructor
    · rintro ⟨cause, at_, hf, rfl⟩
      obtain ⟨f, rest', hrest, rfl, hno⟩ := (readFrame_eq_bodyFault_iff hr).mp ⟨cause, hf⟩
      simp only [readBody_utf8_eq_ok_iff] at hno
      exact ⟨f.heading, f.body, rest', rfl, by rw [hrest, WholeFrame.octets, List.append_assoc], f.full, hno⟩
    · rintro ⟨hd, body, rest', rfl, hrest, hfull, hno⟩
      simp only [← readBody_utf8_eq_ok_iff] at hno
      obtain ⟨cause, hf⟩ := (readFrame_eq_bodyFault_iff hr).mpr
        ⟨⟨hd, body, hfull⟩, rest', by rw [hrest, WholeFrame.octets, List.append_assoc], rfl, hno⟩
      exact ⟨cause, _, hf, rfl⟩

/-- Two frames, with unlike line ends, and a header without its last line feed. -/
theorem decode_accepts_two_frames_and_part :
    decode (lit "utf-8") (asciiBytes "Content-Length: 1\n\r\n7Content-Length: 2\r\n\n[]Content-Length: 3\r\n\r") =
        .ok ⟨[.int 7, .arr []], 43, none⟩ ∧
      ∃ frames : List WholeFrame,
        frames.flatMap WholeFrame.octets = asciiBytes "Content-Length: 1\n\r\n7Content-Length: 2\r\n\n[]" ∧
        List.Forall₂ (fun f v => Spells f.body v) frames [.int 7, .arr []] := by
  have h : decode (lit "utf-8")
      (asciiBytes "Content-Length: 1\n\r\n7Content-Length: 2\r\n\n[]Content-Length: 3\r\n\r") =
        .ok ⟨[.int 7, .arr []], 43, none⟩ := rfl
  obtain ⟨frames, hframes, hall, -⟩ := (decode_accepts_grammar _ _ h).1
  exact ⟨h, frames, hframes, hall⟩

end DiagnosticsClient
