import DiagnosticsClient.Frame.Decoder
import DiagnosticsClient.Proofs.Frame.Stability
/-
A decoder and the chunks it is given.

Wherever a text is cut, a decoder gives the messages that one pass over the
whole text gives, up to the first fault of the text: `Follows` says that what
it keeps is what a pass over the octets since its last drop has left.

After a fault the decoder begins anew, in the middle of what the text was. So
what comes then need not be what the pass over the whole text stopped before,
and may be octets that are refused: the last part of
`given_feeds_of_decode` says when that happens, and
`feeds_refused_after_drop` is a text with which it does.
-/
namespace DiagnosticsClient

namespace Decoder

/-- What each of some chunks gives, in order. -/
def feeds (d : Decoder) : List Bytes → List Fed
  | [] => []
  | chunk :: chunks => d.feed chunk :: feeds (d.feed chunk).decoder chunks

/-- The decoder after some chunks. -/
def fed (d : Decoder) (chunks : List Bytes) : Decoder := chunks.foldl (fun d chunk => (d.feed chunk).decoder) d

/-- All the messages that some chunks gave, if none was refused. -/
def given : List Fed → Except Refusal (List Json)
  | [] => .ok []
  | f :: fs =>
    match f.messages with
    | .error r => .error r
    | .ok messages => (given fs).map (messages ++ ·)

/-- Whether a chunk was not refused. -/
def Fed.returns (f : Fed) : Bool := f.messages.isOk

/-- Whether the buffer was dropped, which is always noted. -/
def Fed.drops (f : Fed) : Bool := !f.notes.isEmpty

/-- The octets a decoder has been given since it last dropped its buffer, after each chunk. `seen` are those before the
first chunk. -/
def stretches (encoding : Text) (seen : Bytes) : List Bytes → List Bytes
  | [] => []
  | chunk :: chunks =>
    (seen ++ chunk) ::
      stretches encoding
        (match decode encoding (seen ++ chunk) with
          | .ok ⟨_, _, some _⟩ => []
          | _ => seen ++ chunk)
        chunks

/-! ## One chunk -/

/-- The decoder keeps what a pass over the octets `seen` leaves when it has found `past`: any pass over more octets
resumes at what is kept. -/
structure Follows (d : Decoder) (seen : Bytes) (past : Decoded) : Prop where
  noFault : past.fault = none
  kept : past.consumed + d.pending = seen.length
  found : ∀ {all}, decode d.encoding seen = .ok all → all = past
  resumes : ∀ more, decode d.encoding (seen ++ more) = (decode d.encoding (d.buffer ++ more)).map past.append

theorem Follows.of_empty {d : Decoder} (h : d.buffer = []) : Follows d [] ⟨[], 0, none⟩ where
  noFault := rfl
  kept := by simp [Decoder.pending, h]
  found hd := by
    rw [decode_of_unfinished (readFrame_nil _)] at hd
    cases hd
    rfl
  resumes more := by
    rw [h]
    cases hd : decode d.encoding ([] ++ more) with
    | error r => rfl
    | ok found => simp only [Except.map, Decoded.nil_append]

section Chunk

variable {d : Decoder} {seen chunk : Bytes} {past found : Decoded} {fault : FrameFault} {r : Refusal}

theorem feed_of_error (h : decode d.encoding (d.buffer ++ chunk) = .error r) :
    d.feed chunk = ⟨{ d with buffer := d.buffer ++ chunk }, .error r, []⟩ := by
  simp only [feed, h]

theorem feed_of_fault (h : decode d.encoding (d.buffer ++ chunk) = .ok found) (hf : found.fault = some fault) :
    d.feed chunk = ⟨{ d with buffer := [] }, .ok found.messages,
      [d.faultNote ((d.buffer ++ chunk).length - found.consumed) fault]⟩ := by
  simp only [feed, h, hf]

theorem feed_of_ok (h : decode d.encoding (d.buffer ++ chunk) = .ok found) (hf : found.fault = none) :
    d.feed chunk = ⟨{ d with buffer := (d.buffer ++ chunk).drop found.consumed }, .ok found.messages, []⟩ := by
  simp only [feed, h, hf]

theorem encoding_feed (d : Decoder) (chunk : Bytes) : (d.feed chunk).decoder.encoding = d.encoding := by
  unfold feed
  dsimp only
  split
  · rfl
  · split <;> rfl

/-- A chunk that is refused stays in the buffer. -/
theorem Follows.of_error (hd : Follows d seen past) (h : decode d.encoding (d.buffer ++ chunk) = .error r) :
    Follows (d.feed chunk).decoder (seen ++ chunk) past := by
  rw [feed_of_error h]
  refine ⟨hd.noFault, ?_, ?_, ?_⟩
  · have := hd.kept
    simp only [Decoder.pending, List.length_append] at this ⊢
    omega
  · intro all hall
    rw [hd.resumes chunk, h] at hall
    cases hall
  · intro more
    rw [List.append_assoc, hd.resumes, List.append_assoc]

/-- A chunk without a fault moves the decoder on. -/
theorem Follows.of_ok (hd : Follows d seen past) (h : decode d.encoding (d.buffer ++ chunk) = .ok found)
    (hf : found.fault = none) : Follows (d.feed chunk).decoder (seen ++ chunk) (past.append found) := by
  rw [feed_of_ok h hf]
  refine ⟨by simp [Decoded.append, hf], ?_, ?_, ?_⟩
  · have hkept := hd.kept
    have hle := consumed_le_length h
    simp only [Decoder.pending, Decoded.append, List.length_append, List.length_drop] at hkept hle ⊢
    omega
  · intro all hall
    rw [hd.resumes chunk, h] at hall
    cases hall
    rfl
  · intro more
    rw [List.append_assoc, hd.resumes, ← List.append_assoc, decode_append, h]
    simp only [Decoded.resume, hf]
    cases decode d.encoding (List.drop found.consumed (d.buffer ++ chunk) ++ more) with
    | error r => rfl
    | ok e => simp only [Except.map, Decoded.append_assoc]

/-- After a fault the decoder is as new. -/
theorem Follows.of_fault (h : decode d.encoding (d.buffer ++ chunk) = .ok found) (hf : found.fault = some fault) :
    Follows (d.feed chunk).decoder [] ⟨[], 0, none⟩ :=
  .of_empty (by rw [feed_of_fault h hf])

end Chunk

/-! ## Many chunks -/

section Chunks

variable {d : Decoder} {seen : Bytes} {past found : Decoded} {chunks : List Bytes}

/-- Without a fault in the text every chunk gives its messages and none makes the decoder drop what it keeps. -/
theorem Follows.feeds_of_noFault (hd : Follows d seen past)
    (h : decode d.encoding (seen ++ chunks.flatten) = .ok found) (hf : found.fault = none) :
    ∃ messages, given (feeds d chunks) = .ok messages ∧ found.messages = past.messages ++ messages ∧
      (∀ f ∈ feeds d chunks, f.drops = false) ∧ found.consumed + (fed d chunks).pending = (seen ++ chunks.flatten).length := by
  induction chunks generalizing d seen past with
  | nil =>
    rw [List.flatten_nil, List.append_nil] at h ⊢
    obtain rfl := hd.found h
    exact ⟨[], rfl, by simp, by simp [feeds], hd.kept⟩
  | cons chunk chunks ih =>
    rw [List.flatten_cons, ← List.append_assoc] at h ⊢
    have happ := decode_append d.encoding (seen ++ chunk) chunks.flatten
    rw [h, hd.resumes chunk] at happ
    cases hc : decode d.encoding (d.buffer ++ chunk) with
    | error r => rw [hc] at happ; cases happ
    | ok e =>
      cases he : e.fault with
      | some fault =>
        have hend : (past.append e).fault.isSome = true := by simp [Decoded.append, he]
        obtain ⟨fault', hfault'⟩ := Option.isSome_iff_exists.mp hend
        simp only [hc, Except.map, Decoded.resume, hfault'] at happ
        cases happ
        rw [hfault'] at hf
        cases hf
      | none =>
        have hnext := hd.of_ok hc he
        rw [← encoding_feed d chunk] at h
        obtain ⟨messages, hgiven, hall, hdrops, hpending⟩ := ih hnext h
        refine ⟨e.messages ++ messages, ?_, ?_, ?_, hpending⟩
        · simp only [feeds, given, hgiven]
          rw [feed_of_ok hc he]
          rfl
        · rw [hall]
          simp only [Decoded.append, List.append_assoc]
        · intro f hmem
          rcases List.mem_cons.mp hmem with rfl | hmem
          · rw [feed_of_ok hc he]; rfl
          · exact hdrops f hmem

/-- With a fault in the text, some chunk makes the decoder drop what it keeps, and the messages up to there are those
before the fault. -/
theorem Follows.feeds_of_fault (hd : Follows d seen past)
    (h : decode d.encoding (seen ++ chunks.flatten) = .ok found) (hf : found.fault ≠ none) :
    ∃ early drop late messages, feeds d chunks = early ++ drop :: late ∧ (∀ f ∈ early, f.drops = false) ∧
      drop.drops = true ∧ drop.decoder.pending = 0 ∧ given (early ++ [drop]) = .ok messages ∧
      found.messages = past.messages ++ messages := by
  induction chunks generalizing d seen past with
  | nil =>
    rw [List.flatten_nil, List.append_nil] at h
    obtain rfl := hd.found h
    exact absurd hd.noFault hf
  | cons chunk chunks ih =>
    rw [List.flatten_cons, ← List.append_assoc] at h
    have happ := decode_append d.encoding (seen ++ chunk) chunks.flatten
    rw [h, hd.resumes chunk] at happ
    cases hc : decode d.encoding (d.buffer ++ chunk) with
    | error r => rw [hc] at happ; cases happ
    | ok e =>
      cases he : e.fault with
      | some fault =>
        have hend : (past.append e).fault.isSome = true := by simp [Decoded.append, he]
        obtain ⟨fault', hfault'⟩ := Option.isSome_iff_exists.mp hend
        simp only [hc, Except.map, Decoded.resume, hfault'] at happ
        cases happ
        refine ⟨[], d.feed chunk, feeds (d.feed chunk).decoder chunks, e.messages, rfl, by simp, ?_, ?_, ?_, rfl⟩
        all_goals rw [feed_of_fault hc he]
        · rfl
        · rfl
        · simp [given, Except.map]
      | none =>
        have hnext := hd.of_ok hc he
        rw [← encoding_feed d chunk] at h
        obtain ⟨early, drop, late, messages, hfeeds, hearly, hdrop, hpending, hgiven, hall⟩ := ih hnext h
        refine ⟨d.feed chunk :: early, drop, late, e.messages ++ messages, ?_, ?_, hdrop, hpending, ?_, ?_⟩
        · rw [feeds, hfeeds, List.cons_append]
        · intro f hmem
          rcases List.mem_cons.mp hmem with rfl | hmem
          · rw [feed_of_ok hc he]; rfl
          · exact hearly f hmem
        · simp only [List.cons_append, given, hgiven]
          rw [feed_of_ok hc he]
          rfl
        · rw [hall]
          simp only [Decoded.append, List.append_assoc]

/-- A chunk is refused exactly when a pass over all octets since the last drop is. -/
theorem Follows.returns_feeds (hd : Follows d seen past) (chunks : List Bytes) :
    (feeds d chunks).map Fed.returns = (stretches d.encoding seen chunks).map fun s => (decode d.encoding s).isOk := by
  induction chunks generalizing d seen past with
  | nil => rfl
  | cons chunk chunks ih =>
    have hall := hd.resumes chunk
    simp only [feeds, stretches, List.map_cons]
    cases hc : decode d.encoding (d.buffer ++ chunk) with
    | error r =>
      rw [hc] at hall
      rw [ih (hd.of_error hc), encoding_feed, hall, feed_of_error hc]
      rfl
    | ok e =>
      rw [hc] at hall
      cases he : e.fault with
      | some fault =>
        have hend : (past.append e) = ⟨past.messages ++ e.messages, past.consumed + e.consumed,
            some ⟨fault.complaint, past.consumed + fault.offset⟩⟩ := by simp [Decoded.append, he]
        simp only [Except.map, hend] at hall
        rw [ih (.of_fault hc he), encoding_feed, hall, feed_of_fault hc he]
        rfl
      | none =>
        have hend : (past.append e) = ⟨past.messages ++ e.messages, past.consumed + e.consumed, none⟩ := by
          simp [Decoded.append, he]
        simp only [Except.map, hend] at hall
        rw [ih (hd.of_ok hc he), encoding_feed, hall, feed_of_ok hc he]
        rfl

end Chunks

/-- **What a new decoder gives does not depend on how a text is cut**, if a pass over the text is not refused. Without a
fault in the text no chunk is refused, the messages are those of the pass and what is pending is what the pass left.
With one, some chunk makes the decoder drop its buffer, and up to the first such chunk none is refused and the messages
are those of the pass. What comes after that chunk is a text of its own: a chunk is refused exactly when a pass over the
octets since the last drop is. -/
theorem given_feeds_of_decode (encoding : Text) (verbose : Bool) (chunks : List Bytes) (found : Decoded)
    (h : decode encoding chunks.flatten = .ok found) :
    (found.fault = none →
      given (feeds { encoding, verbose } chunks) = .ok found.messages ∧
        found.consumed + (fed { encoding, verbose } chunks).pending = chunks.flatten.length) ∧
    (found.fault ≠ none →
      ∃ early drop late, feeds { encoding, verbose } chunks = early ++ drop :: late ∧
        (∀ f ∈ early, f.drops = false) ∧ drop.drops = true ∧ drop.decoder.pending = 0 ∧
        given (early ++ [drop]) = .ok found.messages) ∧
    ((∀ f ∈ feeds { encoding, verbose } chunks, f.returns = true) ↔
      ∀ s ∈ stretches encoding [] chunks, (decode encoding s).isOk = true) := by
  have hd : Follows { encoding, verbose } [] ⟨[], 0, none⟩ := .of_empty rfl
  refine ⟨fun hf => ?_, fun hf => ?_, ?_⟩
  · obtain ⟨messages, hgiven, hall, -, hpending⟩ := hd.feeds_of_noFault h hf
    rw [List.nil_append] at hall
    exact ⟨hall ▸ hgiven, hpending⟩
  · obtain ⟨early, drop, late, messages, hfeeds, hearly, hdrop, hpending, hgiven, hall⟩ := hd.feeds_of_fault h hf
    rw [List.nil_append] at hall
    exact ⟨early, drop, late, hfeeds, hearly, hdrop, hpending, hall ▸ hgiven⟩
  · have hmap := hd.returns_feeds chunks
    rw [← List.forall_mem_map (P := (· = true)), hmap, List.forall_mem_map]

/-- A message and an octet at fault, cut in the header and after it. -/
theorem given_feeds_cut_in_header :
    decode (lit "utf-8") (asciiBytes "Content-Length: 1\n\n7x") = .ok ⟨[.int 7], 20, some ⟨.header, 20⟩⟩ ∧
      ∃ early drop late,
        feeds {} [asciiBytes "Content-", asciiBytes "Length: 1\n", [], asciiBytes "\n7", asciiBytes "x"] =
          early ++ drop :: late ∧
        (∀ f ∈ early, f.drops = false) ∧ drop.drops = true ∧ drop.decoder.pending = 0 ∧
        given (early ++ [drop]) = .ok [.int 7] := by
  have h : decode (lit "utf-8") (asciiBytes "Content-Length: 1\n\n7x") = .ok ⟨[.int 7], 20, some ⟨.header, 20⟩⟩ := rfl
  exact ⟨h, (given_feeds_of_decode (lit "utf-8") false
    [asciiBytes "Content-", asciiBytes "Length: 1\n", [], asciiBytes "\n7", asciiBytes "x"] _ h).2.1 nofun⟩

/-- A header with many digits. -/
def longHeader (digits : Nat) : Bytes := Header.name ++ (List.replicate digits 57 ++ [10, 10])

theorem readFrame_longHeader (encoding : Text) {digits : Nat} (h : Text.digitLimit < digits) :
    readFrame encoding (longHeader digits) = .refused (.integerTooLong digits) := by
  have hw : Header.whole? (longHeader digits) =
      some ⟨List.replicate digits 57, Header.name.length + digits + 1 + 1, []⟩ := by
    refine Header.whole?_eq_some_iff.mpr ⟨[10], [10], .inl rfl, .inl rfl, ?_, ?_, rfl, ?_⟩
    · simp only [ne_eq, List.replicate_eq_nil_iff]
      omega
    · intro d hd
      rw [List.eq_of_mem_replicate hd]
      decide
    · simp only [List.length_replicate, List.length_singleton]
  rw [readFrame_of_whole? hw]
  simp only [List.length_replicate, h, if_true]

/-- A pass over an octet at fault and a header too long ends at the fault, but a decoder that is given the two apart
refuses the header, for it has dropped the octet by then. -/
theorem feeds_refused_after_drop :
    decode (lit "utf-8") [[120], longHeader 4301].flatten = .ok ⟨[], 0, some ⟨.header, 0⟩⟩ ∧
      (feeds {} [[120], longHeader 4301]).map (·.messages) = [.ok [], .error (.integerTooLong 4301)] := by
  have hfault : readFrame (lit "utf-8") [120] = .fault .header 0 := rfl
  have hlong : decode (lit "utf-8") (longHeader 4301) = .error (.integerTooLong 4301) :=
    decode_of_refused (readFrame_longHeader _ (by decide))
  have hfirst : decode (lit "utf-8") [120] = .ok ⟨[], 0, some ⟨.header, 0⟩⟩ := decode_of_fault hfault
  constructor
  · rw [List.flatten_cons, decode_append, hfirst]
    rfl
  · have hdrop : ({} : Decoder).feed [120] = ⟨{}, .ok [], [Decoder.faultNote {} 1 ⟨.header, 0⟩]⟩ :=
      feed_of_fault (d := {}) hfirst rfl
    have hrefused : ({} : Decoder).feed (longHeader 4301) = ⟨{ buffer := longHeader 4301 }, .error (.integerTooLong 4301), []⟩ :=
      feed_of_error (d := {}) hlong
    simp only [feeds, hdrop, hrefused, List.map_cons, List.map_nil]

end Decoder

end DiagnosticsClient
