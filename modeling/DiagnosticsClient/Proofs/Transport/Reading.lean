import DiagnosticsClient.Proofs.Frame.Chunks
import DiagnosticsClient.Proofs.Transport.Steady
/-
What has been taken from the output of a child.

While the octets a child has written decode, what is taken of them and what is still
in the pipe are together all of them, and what was passed on is what decoding those
taken gives (`Taken`). Reading whatever there is keeps that (`Taken.readChunks`): it
ends with an empty pipe, and waits for more or, at the end of the output, asks for the
end of the child.
-/
namespace DiagnosticsClient

open Async Async.Machine

/-! ## Octets that decode -/

/-- Octets that decode without a fault to values that nobody refuses. -/
def IsClean (encoding : Text) (octets : Bytes) : Prop :=
  ∃ found, decode encoding octets = .ok found ∧ found.fault = none ∧ ∀ v ∈ found.messages, Loop.refusalIn v = none

section clean

variable {encoding : Text} {a b seen chunk : Bytes} {d : Decoder} {past : Decoded}

/-- What is at the beginning of such octets is such itself. -/
theorem IsClean.of_append (h : IsClean encoding (a ++ b)) : IsClean encoding a := by
  obtain ⟨found, hfound, hfault, hall⟩ := h
  rw [decode_append] at hfound
  cases ha : decode encoding a with
  | error r =>
    rw [ha] at hfound
    cases hfound
  | ok first =>
    simp only [ha, Decoded.resume] at hfound
    cases hf : first.fault with
    | some fault =>
      simp only [hf] at hfound
      cases hfound
      rw [hf] at hfault
      cases hfault
    | none =>
      simp only [hf] at hfound
      cases hb : decode encoding (a.drop first.consumed ++ b) with
      | error r =>
        rw [hb] at hfound
        cases hfound
      | ok rest =>
        rw [hb] at hfound
        cases hfound
        exact ⟨first, ha, hf, fun v hv => hall v (List.mem_append_left _ hv)⟩

/-- A decoder that is given the next of such octets gives their values, and has nothing to note. -/
theorem Decoder.Follows.feed_clean (hd : d.Follows seen past) (h : IsClean d.encoding (seen ++ chunk)) :
    ∃ (d' : Decoder) (messages : List Json) (past' : Decoded), d.feed chunk = ⟨d', .ok messages, []⟩ ∧ d'.encoding = d.encoding ∧
      d'.Follows (seen ++ chunk) past' ∧ past'.messages = past.messages ++ messages ∧
      ∀ v ∈ messages, Loop.refusalIn v = none := by
  obtain ⟨found, hfound, hfault, hall⟩ := h
  rw [hd.resumes] at hfound
  cases hc : decode d.encoding (d.buffer ++ chunk) with
  | error r =>
    rw [hc] at hfound
    cases hfound
  | ok e =>
    rw [hc] at hfound
    cases hfound
    have he : e.fault = none := Option.map_eq_none_iff.mp hfault
    have hfeed := Decoder.feed_of_ok hc he
    refine ⟨_, e.messages, past.append e, hfeed, rfl, ?_, rfl, fun v hv => hall v (List.mem_append_right _ hv)⟩
    have hnext := hd.of_ok hc he
    rwa [hfeed] at hnext

end clean

/-! ## Reading what there is -/

/-- What a reading of a stream that is not broken gives: nothing yet, nothing any more, or an octet at least. -/
theorem Stream.readChunk_cases (s : Stream) (h : s.broken = none) :
    (s.readChunk = .nothingYet ∧ s.buffer = [] ∧ s.ended = false) ∨
    (s.readChunk = .octets [] [] ∧ s.buffer = [] ∧ s.ended = true) ∨
    ∃ b chunk rest, s.readChunk = .octets (b :: chunk) rest ∧ s.buffer = (b :: chunk) ++ rest := by
  unfold Stream.readChunk
  rw [h]
  cases hb : s.buffer with
  | nil =>
    cases s.ended with
    | false => exact .inl ⟨rfl, rfl, rfl⟩
    | true => exact .inr (.inl ⟨rfl, rfl, rfl⟩)
  | cons b buffer =>
    refine .inr (.inr ⟨b, buffer.take (Stream.chunkLimit - 1), (b :: buffer).drop Stream.chunkLimit, rfl, ?_⟩)
    exact (List.take_append_drop Stream.chunkLimit (b :: buffer)).symm

namespace Loop

variable {m m' : Loop} {said : Bytes} {d : Decoder}

/-- What a child has said was taken by its decoder up to what is still in the pipe, and the values it took were passed on. -/
structure Taken (m : Loop) (said : Bytes) (d : Decoder) : Prop where
  encoding : d.encoding = m.state.settings.encoding
  runs : m.Runs
  child : 0 < m.state.children.length
  taken : ∃ (seen : Bytes) (past : Decoded), said = seen ++ (m.streamOf 0 .output).buffer ∧ d.Follows seen past ∧
    m.state.tidings = past.messages.map .message

/-- Whoever has read all there is waits for more, or asks for the end of the child once the output has ended. -/
inductive Halts (m : Loop) (said : Bytes) : Move → Prop
  | awaits {f : FutureId} {d : Decoder} (h : Taken m said d) (hempty : (m.streamOf 0 .output).buffer = [])
      (hopen : (m.streamOf 0 .output).ended = false) (hw : (m.streamOf 0 .output).waiter = some f) (hun : m.outcome? f = none) :
      Halts m said (.await f (.reading 0 0 d))
  | asks {d : Decoder} {n : Nat} (h : Taken m said d) (hempty : (m.streamOf 0 .output).buffer = [])
      (hended : (m.streamOf 0 .output).ended = true) : Halts m said (.call (.awaitExit 0) (.outputEnded 0 0 n))

theorem streamOf_output_modifyStream (h : 0 < m.state.children.length) (k : Stream → Stream) :
    (m.modifyStream 0 .output k).streamOf 0 .output = k (m.streamOf 0 .output) := by
  rw [streamOf_modifyStream, if_pos ⟨rfl, h, rfl⟩]

/-- Values that nobody refuses are passed on. -/
theorem receiveAll_accepted (hr : m.state.receiver = .watcher) {vs : List Json} (h : ∀ v ∈ vs, refusalIn v = none) :
    ∃ m', m.receiveAll 0 vs = (m', none) ∧ Passes vs m m' ∧ Handles quiet .output m m' ∧
      m'.streamOf 0 .output = m.streamOf 0 .output := by
  induction vs generalizing m with
  | nil => exact ⟨m, rfl, .refl m, .refl _ m, rfl⟩
  | cons v vs ih =>
    obtain ⟨hv, hvs⟩ := List.forall_mem_cons.mp h
    have hone : m.receive 0 v = (m.record (.received 0 v), none) := by
      unfold Loop.receive
      rw [hr]
      simp only [hv]
    have hpass : Passes [v] m (m.record (.received 0 v)) :=
      ⟨fun _ => rfl, State.tidings_record m.state _, (State.writes_record m.state _).trans (List.append_nil _), rfl, .inl⟩
    obtain ⟨m', hall, hp, hh, hs⟩ := ih (m := m.record (.received 0 v)) hr hvs
    refine ⟨m', ?_, hpass.trans hp, (Handles.record m _).trans hh, hs⟩
    unfold Loop.receiveAll
    rw [hone]
    exact hall

/-- One chunk is taken, and its values are passed on. -/
theorem Taken.takes (h : Taken m said d) (hclean : IsClean m.state.settings.encoding said) {chunk rest : Bytes}
    (hbuffer : (m.streamOf 0 .output).buffer = chunk ++ rest) :
    ∃ (d' : Decoder) (messages : List Json) (m' : Loop), d.feed chunk = ⟨d', .ok messages, []⟩ ∧
      (m.modifyStream 0 .output fun s => { s with buffer := rest }).receiveAll 0 messages = (m', none) ∧ Taken m' said d' ∧
      Handles quiet .output m m' ∧ m'.streamOf 0 .output = { m.streamOf 0 .output with buffer := rest } := by
  obtain ⟨seen, past, hsaid, hfollows, htold⟩ := h.taken
  rw [hbuffer, ← List.append_assoc] at hsaid
  have hfirst : IsClean d.encoding (seen ++ chunk) := by
    rw [h.encoding]
    rw [hsaid] at hclean
    exact hclean.of_append
  obtain ⟨d', messages, past', hfeed, hencoding, hfollows', hmessages, haccepted⟩ := hfollows.feed_clean hfirst
  have hmodify := Passes.modifyStream m 0 .output fun s => { s with buffer := rest }
  have hread : Handles quiet .output m (m.modifyStream 0 .output fun s => { s with buffer := rest }) :=
    .modifyStream m 0 (fun _ => rfl) fun _ => rfl
  have hstream := streamOf_output_modifyStream h.child fun s => { s with buffer := rest }
  obtain ⟨m', hall, hpass, hhandles, hsame⟩ := receiveAll_accepted (hmodify.runs h.runs).receiver haccepted
  have hboth := hread.trans hhandles
  refine ⟨d', messages, m', hfeed, hall, ⟨?_, (hmodify.trans hpass).runs h.runs, ?_, seen ++ chunk, past', ?_, hfollows', ?_⟩, hboth,
    hsame.trans hstream⟩
  · rw [hencoding, h.encoding, hboth.steady.settings]
  · rw [hboth.steady.children]
    exact h.child
  · rw [hsame, hstream]
    exact hsaid
  · rw [(hmodify.trans hpass).tidings, htold, hmessages]
    simp

/-- Whoever has taken all there is waits for more. -/
theorem Taken.awaits (h : Taken m said d) (hempty : (m.streamOf 0 .output).buffer = [])
    (hopen : (m.streamOf 0 .output).ended = false) :
    Handles quiet .output m (m.awaitStream 0 .output (.reading 0 0 d)).1 ∧ m.AwaitsNew (m.awaitStream 0 .output (.reading 0 0 d)).2 ∧
      Halts (m.awaitStream 0 .output (.reading 0 0 d)).1 said (m.awaitStream 0 .output (.reading 0 0 d)).2 := by
  obtain ⟨hhandles, hnew⟩ : Handles quiet .output m _ ∧ _ := Handles.awaitStream m 0 .output (.reading 0 0 d)
  have hpass := Passes.awaitStream m 0 .output (.reading 0 0 d)
  have hstream : (m.awaitStream 0 .output (.reading 0 0 d)).1.streamOf 0 .output =
      { m.streamOf 0 .output with waiter := some m.futures.size } :=
    streamOf_output_modifyStream h.child fun s => { s with waiter := some m.futures.size }
  obtain ⟨seen, past, hsaid, hfollows, htold⟩ := h.taken
  refine ⟨hhandles, hnew, .awaits ⟨?_, hpass.runs h.runs, ?_, seen, past, ?_, hfollows, ?_⟩ ?_ ?_ ?_ ?_⟩
  · rw [h.encoding, hhandles.steady.settings]
  · rw [hhandles.steady.children]
    exact h.child
  · rw [hstream]
    exact hsaid
  · rw [hpass.tidings, htold]
    simp
  · rw [hstream]
    exact hempty
  · rw [hstream]
    exact hopen
  · rw [hstream]
  · -- the future is new
    change (m.newFuture.1).outcome? m.futures.size = none
    rw [(newFuture_alike m).outcome]
    simp [outcome?]

/-- **Whoever reads takes all there is**, and then waits for more or asks for the end of the child. -/
theorem Taken.readChunks (h : Taken m said d) (hclean : IsClean m.state.settings.encoding said)
    (hbroken : (m.streamOf 0 .output).broken = none) {fuel : Nat} (hfuel : (m.streamOf 0 .output).buffer.length < fuel) :
    Handles quiet .output m (readChunks 0 0 fuel d m).1 ∧ m.AwaitsNew (readChunks 0 0 fuel d m).2 ∧
      Halts (readChunks 0 0 fuel d m).1 said (readChunks 0 0 fuel d m).2 := by
  induction fuel generalizing m d with
  | zero => exact absurd hfuel (Nat.not_lt_zero _)
  | succ fuel ih =>
    unfold Loop.readChunks
    rcases (m.streamOf 0 .output).readChunk_cases hbroken with ⟨hread, hempty, hopen⟩ | ⟨hread, hempty, hended⟩ |
      ⟨b, chunk, rest, hread, hbuffer⟩
    · rw [hread]
      exact h.awaits hempty hopen
    · rw [hread]
      exact ⟨.refl _ m, fun h => by (cases h), .asks h hempty hended⟩
    · rw [hread]
      obtain ⟨d', messages, m', hfeed, hall, htaken, hhandles, hstream⟩ := h.takes hclean hbuffer
      have hmodify : ∀ m : Loop, m.modify (fun s => s) = m := fun _ => rfl
      simp only [hfeed, List.foldl_nil, hmodify, hall]
      have hshort : (m'.streamOf 0 .output).buffer.length < fuel := by
        rw [hstream]
        rw [hbuffer, List.length_append, List.length_cons] at hfuel
        dsimp only
        omega
      obtain ⟨hrest, hnew, hhalts⟩ := ih htaken (by rwa [hhandles.steady.settings]) (by rw [hstream]; exact hbroken) hshort
      exact ⟨hhandles.trans hrest, fun hw => Nat.le_trans hhandles.effect.extends.room (hnew hw), hhalts⟩

end Loop

end DiagnosticsClient
