import DiagnosticsClient.Proofs.Frame.Chunks
import DiagnosticsClient.Proofs.Frame.Grammar
/-
What a decoder does with each chunk, whatever it was given before.

A buffer is frames and a rest. A rest that asks too much, by the digits of its
header or by the numbers or the nesting of its body, is refused: the messages
before it are lost and the buffer is kept. Every other chunk gives the messages
of its frames, and a fault in the rest empties the buffer.
-/
namespace DiagnosticsClient

/-- A body of which the text is read, up to a number with too many digits or to a value too deep in others. -/
def Overburdens (body : Bytes) : Prop :=
  ∃ t, Charset.utf8.encode t = .ok body ∧
    ((∃ digits, Json.parse t = .error (.integerTooLong digits)) ∨ ∃ container, Json.parse t = .error (.tooDeep container))

/-- Octets that begin with a header of too many digits, or with a frame of which the body is too much. -/
def Overtaxes (buffer : Bytes) : Prop :=
  (∃ (h : Heading) (rest : Bytes), buffer = h.octets ++ rest ∧ Text.digitLimit < h.digits.length) ∨
    ∃ (f : WholeFrame) (rest : Bytes), buffer = f.octets ++ rest ∧ Overburdens f.body

theorem exists_readBody_refused_iff {body : Bytes} :
    (∃ r, readBody (lit "utf-8") body = .error (.refused r)) ↔ Overburdens body := by
  rw [readBody, bodyText_utf8, Overburdens]
  constructor
  · rintro ⟨r, h⟩
    cases hd : Charset.utf8.decode body with
    | error f => rw [hd] at h; cases h
    | ok t =>
      refine ⟨t, Charset.decode_utf8_eq_ok_iff.mp hd, ?_⟩
      rw [hd] at h
      simp only [Except.mapError] at h
      split at h
      · cases h
      · cases h
      · next hv => exact .inl ⟨_, hv⟩
      · next hv => exact .inr ⟨_, hv⟩
  · rintro ⟨t, ht, ⟨n, hv⟩ | ⟨c, hv⟩⟩
    · exact ⟨_, by rw [Charset.decode_utf8_eq_ok_iff.mpr ht]; simp only [Except.mapError, hv]; rfl⟩
    · exact ⟨_, by rw [Charset.decode_utf8_eq_ok_iff.mpr ht]; simp only [Except.mapError, hv]; rfl⟩

/-- **What is refused at the front of a buffer** is what asks too much, and nothing else. -/
theorem exists_readFrame_refused_iff {buffer : Bytes} :
    (∃ r, readFrame (lit "utf-8") buffer = .refused r) ↔ Overtaxes buffer := by
  constructor
  · rintro ⟨r, hr⟩
    rcases front_cases buffer with hp | hs | ⟨hd, body, rfl, hlen⟩ | ⟨f, rest, rfl⟩
    · rw [readFrame_of_isPart (lit "utf-8") hp] at hr
      cases hr
    · rw [readFrame_of_isStray (lit "utf-8") hs] at hr
      cases hr
    · rw [readFrame_heading, if_pos hlen] at hr
      split at hr
      · next h => exact .inl ⟨hd, body, rfl, h⟩
      · cases hr
    · rw [readFrame_octets] at hr
      split at hr
      · next h => exact .inl ⟨f.heading, f.body ++ rest, by rw [WholeFrame.octets, List.append_assoc], h⟩
      split at hr
      · cases hr
      · cases hr
      · next hbody => exact .inr ⟨f, rest, rfl, exists_readBody_refused_iff.mp ⟨_, hbody⟩⟩
  · rintro (⟨hd, rest, rfl, hlong⟩ | ⟨f, rest, rfl, hbody⟩)
    · exact ⟨_, by rw [readFrame_heading, if_pos hlong]⟩
    · obtain ⟨r, hr⟩ := exists_readBody_refused_iff.mpr hbody
      rw [readFrame_octets, hr]
      split
      · exact ⟨_, rfl⟩
      · exact ⟨_, rfl⟩

/-- A pass that comes to what asks too much is refused. -/
theorem exists_decode_error {frames : List WholeFrame} {rest : Bytes} {messages : List Json}
    (hall : List.Forall₂ (fun f v => Spells f.body v) frames messages) (hr : Overtaxes rest) :
    ∃ r, decode (lit "utf-8") (frames.flatMap WholeFrame.octets ++ rest) = .error r := by
  induction hall with
  | nil =>
    obtain ⟨r, hr⟩ := exists_readFrame_refused_iff.mpr hr
    exact ⟨r, decode_of_refused hr⟩
  | @cons f v frames messages hv hall ih =>
    obtain ⟨r, hrest⟩ := ih
    rw [List.flatMap_cons, List.append_assoc]
    have hread := readFrame_octets (lit "utf-8") f (frames.flatMap WholeFrame.octets ++ rest)
    rw [readBody_utf8_eq_ok_iff.mpr hv] at hread
    split at hread
    · exact ⟨_, decode_of_refused hread⟩
    · exact ⟨r, by rw [decode_of_frame hread, hrest]; rfl⟩

/-- A body that is whole, and not the UTF-8 of a value. -/
def IsGarbled (buffer : Bytes) : Prop :=
  ∃ (f : WholeFrame) (rest : Bytes), buffer = f.octets ++ rest ∧ ¬ ∃ v, Spells f.body v

/-- How a pass over frames and a rest ends that does not ask too much: with the messages of the frames, and a fault
exactly where the rest is one. -/
theorem decode_of_not_overtaxes {frames : List WholeFrame} {rest : Bytes} {messages : List Json}
    (hend : Concludes (lit "utf-8") rest messages (frames.flatMap WholeFrame.octets).length
      (decode (lit "utf-8") (frames.flatMap WholeFrame.octets ++ rest))) (hr : ¬ Overtaxes rest) :
    ∃ found, decode (lit "utf-8") (frames.flatMap WholeFrame.octets ++ rest) = .ok found ∧ found.messages = messages ∧
      (frames.flatMap WholeFrame.octets ++ rest).drop found.consumed = rest ∧
      ((found.fault = none ∧ (IsPart rest ∨ IsShort rest)) ∨
        ∃ fault, found.fault = some fault ∧ (IsStray rest ∨ IsGarbled rest)) := by
  have hno : ∀ r, readFrame (lit "utf-8") rest ≠ .refused r := fun r h => hr (exists_readFrame_refused_iff.mp ⟨r, h⟩)
  generalize decode (lit "utf-8") (frames.flatMap WholeFrame.octets ++ rest) = d at hend
  cases hend with
  | unfinished h =>
    exact ⟨_, rfl, rfl, List.drop_left, .inl ⟨rfl, (readFrame_eq_unfinished_iff hno).mp h⟩⟩
  | fault h =>
    refine ⟨_, rfl, rfl, List.drop_left, .inr ⟨_, rfl, ?_⟩⟩
    rename_i complaint offset
    cases complaint with
    | header => exact .inl (readFrame_eq_headerFault_iff.mp h).2
    | body cause =>
      obtain ⟨f, rest', hb, -, hbody⟩ := (readFrame_eq_bodyFault_iff hno).mp ⟨cause, h⟩
      simp only [readBody_utf8_eq_ok_iff] at hbody
      exact .inr ⟨f, rest', hb, hbody⟩
  | refused h => exact absurd h (hno _)

namespace Decoder

theorem feed_verbose (d : Decoder) (chunk : Bytes) : (d.feed chunk).decoder.verbose = d.verbose := by
  unfold feed
  dsimp only
  split
  · rfl
  · split <;> rfl

theorem fed_settings (d : Decoder) (chunks : List Bytes) :
    (fed d chunks).encoding = d.encoding ∧ (fed d chunks).verbose = d.verbose := by
  induction chunks generalizing d with
  | nil => exact ⟨rfl, rfl⟩
  | cons chunk chunks ih =>
    obtain ⟨he, hv⟩ := ih (d.feed chunk).decoder
    exact ⟨he.trans (encoding_feed d chunk), hv.trans (feed_verbose d chunk)⟩

/-- What is refused stays in the buffer, and every chunk after it is refused too. -/
theorem feed_after_refusal {d : Decoder} {chunk : Bytes} {r : Refusal}
    (h : decode d.encoding (d.buffer ++ chunk) = .error r) (more : Bytes) :
    ((d.feed chunk).decoder.feed more).messages = .error r := by
  have hmore : decode (d.feed chunk).decoder.encoding ((d.feed chunk).decoder.buffer ++ more) = .error r := by
    rw [encoding_feed, feed_of_error h, decode_append, h]
  rw [feed_of_error hmore]

/-- **Whatever a decoder was given before, a chunk is refused exactly when the buffer comes to what asks too much**, and
then the buffer is kept and every chunk after it is refused. Any other chunk gives the messages of the frames at the
front of the buffer. If the rest may still become a frame it is kept; if not, the pass reports a fault and the decoder is
as new. -/
theorem feed_soft_fails_unless_overtaxed (verbose : Bool) (before : List Bytes) (chunk : Bytes) :
    let d := fed { verbose } before
    ∃ (frames : List WholeFrame) (rest : Bytes) (messages : List Json),
      d.buffer ++ chunk = frames.flatMap WholeFrame.octets ++ rest ∧
      List.Forall₂ (fun f v => Spells f.body v) frames messages ∧
      (Overtaxes rest →
        ∃ r, decode (lit "utf-8") (d.buffer ++ chunk) = .error r ∧ (d.feed chunk).messages = .error r ∧
          (d.feed chunk).decoder.buffer = d.buffer ++ chunk ∧
          ∀ more, ((d.feed chunk).decoder.feed more).messages = .error r) ∧
      (¬ Overtaxes rest →
        ∃ found, decode (lit "utf-8") (d.buffer ++ chunk) = .ok found ∧ found.messages = messages ∧
          (d.feed chunk).messages = .ok messages ∧
          ((found.fault = none ∧ (IsPart rest ∨ IsShort rest) ∧ (d.feed chunk).decoder.buffer = rest) ∨
            (found.fault ≠ none ∧ (IsStray rest ∨ IsGarbled rest) ∧ (d.feed chunk).decoder = { verbose }))) := by
  intro d
  obtain ⟨hencoding, hverbose⟩ := fed_settings { verbose } before
  have he : d.encoding = lit "utf-8" := hencoding
  have hv : d.verbose = verbose := hverbose
  obtain ⟨frames, rest, messages, hbuffer, hall, hend⟩ := exists_frames (lit "utf-8") (d.buffer ++ chunk)
  simp only [readBody_utf8_eq_ok_iff] at hall
  refine ⟨frames, rest, messages, hbuffer, hall, fun hr => ?_, fun hr => ?_⟩
  · obtain ⟨r, herror⟩ := exists_decode_error hall hr
    rw [← hbuffer] at herror
    have herror' : decode d.encoding (d.buffer ++ chunk) = .error r := by rw [he, herror]
    refine ⟨r, herror, ?_, ?_, feed_after_refusal herror'⟩
    · rw [feed_of_error herror']
    · rw [feed_of_error herror']
  · rw [hbuffer] at hend
    obtain ⟨found, hok, hmessages, hdrop, hfault⟩ := decode_of_not_overtaxes hend hr
    rw [← hbuffer] at hok hdrop
    have hok' : decode d.encoding (d.buffer ++ chunk) = .ok found := by rw [he, hok]
    refine ⟨found, hok, hmessages, ?_⟩
    rcases hfault with ⟨hnone, hrest⟩ | ⟨fault, hsome, hrest⟩
    · rw [feed_of_ok hok' hnone, hmessages, hdrop]
      exact ⟨rfl, .inl ⟨hnone, hrest, rfl⟩⟩
    · rw [feed_of_fault hok' hsome, hmessages]
      refine ⟨rfl, .inr ⟨by simp [hsome], hrest, ?_⟩⟩
      rw [show d = { encoding := lit "utf-8", verbose, buffer := d.buffer } by rw [← he, ← hv]]

/-- A message in the same chunk as a header too long is lost, and the chunk is kept. -/
theorem feed_loses_message :
    decode (lit "utf-8") (asciiBytes "Content-Length: 1\n\n7" ++ longHeader 4301) = .error (.integerTooLong 4301) ∧
      ({} : Decoder).feed (asciiBytes "Content-Length: 1\n\n7" ++ longHeader 4301) =
        ⟨{ buffer := asciiBytes "Content-Length: 1\n\n7" ++ longHeader 4301 }, .error (.integerTooLong 4301), []⟩ := by
  have hmessage : decode (lit "utf-8") (asciiBytes "Content-Length: 1\n\n7") = .ok ⟨[.int 7], 20, none⟩ := rfl
  have hlong : decode (lit "utf-8") (longHeader 4301) = .error (.integerTooLong 4301) :=
    decode_of_refused (readFrame_longHeader _ (by decide))
  have hall : decode (lit "utf-8") (asciiBytes "Content-Length: 1\n\n7" ++ longHeader 4301) =
      .error (.integerTooLong 4301) := by
    rw [decode_append, hmessage]
    simp only [Decoded.resume]
    rw [show (asciiBytes "Content-Length: 1\n\n7").drop 20 = [] from rfl, List.nil_append, hlong]
    rfl
  exact ⟨hall, feed_of_error (d := {}) hall⟩

end Decoder

end DiagnosticsClient
