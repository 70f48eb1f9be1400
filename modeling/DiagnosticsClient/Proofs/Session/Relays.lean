import DiagnosticsClient.Proofs.Frame.Chunks
import DiagnosticsClient.Proofs.Session.Bypasses
import DiagnosticsClient.Proofs.Session.Departures
/-
What a reading passes on.

Whoever reads the output of a child takes it in pieces, gives each to a decoder and passes
on the values the decoder tells, up to a piece that is refused. So the messages that a
reading passes on are a function of the decoder and of what is in the pipe
(`readOn_outcome`). Then it waits for more, or asks for the end of the child, and has left
every transport alone; or it reports the end of its transport, which is stopped by then
(`Relays`).
-/
namespace DiagnosticsClient

open Async Async.Machine

/-! ## Pieces -/

namespace Stream

/-- Octets as they are read: so many pieces at most, of as many octets as one reading takes. -/
def pieces : (fuel : Nat) → Bytes → List Bytes
  | 0, _ => []
  | _ + 1, [] => []
  | fuel + 1, b :: octets => (b :: octets).take chunkLimit :: pieces fuel ((b :: octets).drop chunkLimit)

/-- The pieces a reader takes from a stream, until there is nothing to read. -/
def chunks (s : Stream) : List Bytes := if s.broken.isSome then [] else pieces (s.buffer.length + 1) s.buffer

/-- What a reading of a stream gives that is not broken and has octets: an octet at least. -/
theorem readChunk_of_cons {s : Stream} {b : UInt8} {octets : Bytes} (h : s.broken = none) (hb : s.buffer = b :: octets) :
    s.readChunk = .octets (b :: octets.take (chunkLimit - 1)) ((b :: octets).drop chunkLimit) := by
  unfold readChunk
  rw [h, hb]
  rfl

/-- With enough pieces all octets are read. -/
theorem flatten_pieces {fuel : Nat} {octets : Bytes} (h : octets.length < fuel) : (pieces fuel octets).flatten = octets := by
  induction fuel generalizing octets with
  | zero => exact absurd h (Nat.not_lt_zero _)
  | succ fuel ih =>
    cases octets with
    | nil => rfl
    | cons b octets =>
      have hshort : ((b :: octets).drop chunkLimit).length < fuel := by
        have hlimit : 0 < chunkLimit := by decide
        rw [List.length_drop, List.length_cons]
        rw [List.length_cons] at h
        omega
      rw [pieces, List.flatten_cons, ih hshort, List.take_append_drop]

/-- **A reader takes all there is**, in order. -/
theorem flatten_chunks {s : Stream} (h : s.broken = none) : s.chunks.flatten = s.buffer := by
  rw [chunks, h, if_neg (by simp)]
  exact flatten_pieces (Nat.lt_succ_self _)

end Stream

/-! ## What a decoder tells -/

namespace Decoder

variable {d : Decoder} {chunks chunks' : List Bytes} {vs : List Json}

/-- The values that some chunks gave, up to the first that was refused. -/
def told : List Fed → List Json
  | [] => []
  | f :: fs =>
    match f.messages with
    | .error _ => []
    | .ok messages => messages ++ told fs

theorem feeds_append (d : Decoder) (chunks chunks' : List Bytes) :
    d.feeds (chunks ++ chunks') = d.feeds chunks ++ (d.fed chunks).feeds chunks' := by
  induction chunks generalizing d with
  | nil => rfl
  | cons chunk chunks ih => exact congrArg (d.feed chunk :: ·) (ih _)

theorem fed_append (d : Decoder) (chunks chunks' : List Bytes) : d.fed (chunks ++ chunks') = (d.fed chunks).fed chunks' :=
  List.foldl_append

/-- While no chunk was refused, what is told goes on with the next chunks. -/
theorem told_append {fs : List Fed} (h : given fs = .ok vs) (fs' : List Fed) : told (fs ++ fs') = told fs ++ told fs' := by
  induction fs generalizing vs with
  | nil => rfl
  | cons f fs ih =>
    rw [List.cons_append, told, told]
    rw [given] at h
    cases hf : f.messages with
    | error r =>
      rw [hf] at h
      cases h
    | ok messages =>
      rw [hf] at h
      cases hrest : given fs with
      | error r =>
        rw [hrest] at h
        cases h
      | ok rest =>
        dsimp only
        rw [ih hrest, List.append_assoc]

theorem given_append {fs fs' : List Fed} {vs' : List Json} (h : given fs = .ok vs) (h' : given fs' = .ok vs') :
    given (fs ++ fs') = .ok (vs ++ vs') := by
  induction fs generalizing vs with
  | nil =>
    cases h
    exact h'
  | cons f fs ih =>
    rw [List.cons_append, given]
    rw [given] at h
    cases hf : f.messages with
    | error r =>
      rw [hf] at h
      cases h
    | ok messages =>
      rw [hf] at h
      cases hrest : given fs with
      | error r =>
        rw [hrest] at h
        cases h
      | ok rest =>
        rw [hrest] at h
        cases h
        dsimp only
        rw [ih hrest]
        simp [Except.map]

end Decoder

/-- The messages among some values. -/
def messagesIn (vs : List Json) : List Message := vs.filterMap fun v => (Message.parse v).toOption

theorem messagesIn_append (vs vs' : List Json) : messagesIn (vs ++ vs') = messagesIn vs ++ messagesIn vs' := List.filterMap_append

namespace Loop

variable {m m' m'' : Loop} {c : ChildId} {t : TransportId} {d : Decoder} {ms ms' : List Message}

/-- All transports are left alone. -/
abbrev BypassesAll (ms : List Message) (m m' : Loop) : Prop := Bypasses (fun _ => False) ms m m'

theorem Bypasses.of_all {T : TransportId → Prop} (h : BypassesAll ms m m') : Bypasses T ms m m' :=
  ⟨fun _ => h.transports id, h.received, h.made⟩

/-! ## Passing on -/

/-- What a listener is given changes no child, and nobody is told anything else from then on. -/
theorem deliverAll_rest (m : Loop) (ls : List ListenerId) (x : Delivery) :
    (m.deliverAll ls x).state.children = m.state.children ∧ (m.deliverAll ls x).state.receiver = m.state.receiver := by
  induction ls generalizing m with
  | nil => exact ⟨rfl, rfl⟩
  | cons l ls ih =>
    obtain ⟨hchildren, hreceiver⟩ := ih (m.deliver l x)
    have hwake := fun m : Loop => wakeNext_state m (m.state.listener l).getters
    exact ⟨hchildren.trans (congrArg State.children (hwake _) :), hreceiver.trans (congrArg State.receiver (hwake _) :)⟩

/-- What a reading of values for the session changes: they are received, and no transport and no child is touched. -/
structure PassesOn (ms : List Message) (m m' : Loop) : Prop where
  bypasses : BypassesAll ms m m'
  children : m'.state.children = m.state.children
  receiver : m'.state.receiver = m.state.receiver

theorem PassesOn.trans (h : PassesOn ms m m') (h' : PassesOn ms' m' m'') : PassesOn (ms ++ ms') m m'' :=
  ⟨h.bypasses.trans h'.bypasses, h'.children.trans h.children, h'.receiver.trans h.receiver⟩

/-- A value is passed on to the session. -/
theorem receive_passesOn (hr : m.state.receiver = .session) (t : TransportId) (v : Json) :
    (m.receive t v).2 = none ∧ PassesOn (messagesIn [v]) m (m.receive t v).1 := by
  have hreceive : m.receive t v = ((m.record (.received t v)).dispatch v, none) := by
    unfold Loop.receive
    rw [hr]
  have hrecord : PassesOn (messagesIn [v]) m (m.record (.received t v)) := by
    refine ⟨⟨fun _ => rfl, (State.received_record m.state (.received t v)).trans ?_, fun hr _ => hr⟩, rfl, rfl⟩
    cases hv : Message.parse v <;> simp [messagesIn, hv, Except.toOption]
  have hdispatch : PassesOn [] (m.record (.received t v)) ((m.record (.received t v)).dispatch v) := by
    unfold Loop.dispatch
    split
    · next message _ =>
      obtain ⟨hchildren, hreceiver⟩ := deliverAll_rest (m.record (.received t v)) m.state.registered (.message message)
      exact ⟨.deliverAll _ _ _, hchildren, hreceiver⟩
    · exact ⟨.note _ _ _, rfl, rfl⟩
  rw [hreceive]
  refine ⟨rfl, ?_⟩
  have hboth := hrecord.trans hdispatch
  rwa [List.append_nil] at hboth

/-- So are all values: the session refuses none. -/
theorem receiveAll_passesOn (hr : m.state.receiver = .session) (t : TransportId) (vs : List Json) :
    ∃ m', m.receiveAll t vs = (m', none) ∧ PassesOn (messagesIn vs) m m' := by
  induction vs generalizing m with
  | nil => exact ⟨m, rfl, .refl m, rfl, rfl⟩
  | cons v vs ih =>
    obtain ⟨hnone, hone⟩ := receive_passesOn hr t v
    cases hm : m.receive t v with
    | mk m₁ failure =>
      rw [hm] at hnone hone
      cases hnone
      obtain ⟨m', hall, hpasses⟩ := ih (hone.receiver.trans hr)
      refine ⟨m', ?_, messagesIn_append [v] vs ▸ hone.trans hpasses⟩
      unfold Loop.receiveAll
      rw [hm]
      exact hall

/-- What a decoder has to note is noted. -/
theorem recordNotes_passesOn (m : Loop) (notes : List Note) :
    PassesOn [] m (m.modify fun s => notes.foldl (fun s n => s.record (.note n)) s) := by
  induction notes generalizing m with
  | nil => exact ⟨.refl m, rfl, rfl⟩
  | cons n notes ih => exact PassesOn.trans ⟨.record m (e := .note n) rfl, rfl, rfl⟩ (ih _)

/-! ## Ending -/

/-- Messages are received; the transport they come from is left alone, or it is stopped by now and perhaps a task is made
that clears it away. -/
structure Relays (t : TransportId) (ms : List Message) (m m' : Loop) : Prop where
  others : ∀ {t'}, t' ≠ t → m'.state.childTransport t' = m.state.childTransport t'
  mine : m'.state.childTransport t = m.state.childTransport t ∨ (m'.state.childTransport t).phase = .stopped
  received : m'.state.received = m.state.received ++ ms
  made : ∀ {u r}, m'.routine? u = some r → r.tends = true →
    m.routine? u = some r ∨ r = .stop t ∧ (m'.state.childTransport t).phase = .stopped

theorem Bypasses.relays {T : TransportId → Prop} (h : Bypasses T ms m m') (ht : ∀ t', T t' → t' = t)
    (hm : m'.state.childTransport t = m.state.childTransport t ∨ (m'.state.childTransport t).phase = .stopped) : Relays t ms m m' :=
  ⟨fun hne => h.transports fun hT => hne (ht _ hT), hm, h.received, fun hr htends => .inl (h.made hr htends)⟩

theorem Relays.of_all (h : BypassesAll ms m m') : Relays t ms m m' := h.relays (fun _ hT => hT.elim) (.inl (h.transports id))

theorem Relays.trans (h : BypassesAll ms m m') (h' : Relays t ms' m' m'') : Relays t (ms ++ ms') m m'' where
  others hne := (h'.others hne).trans (h.transports id)
  mine := h'.mine.imp_left fun heq => heq.trans (h.transports id)
  received := by rw [h'.received, h.received, List.append_assoc]
  made hr htends := (h'.made hr htends).imp_left fun hr' => h.made hr' htends

/-- A transport that is stopped reports its end. -/
theorem report_relays (h : (m.state.childTransport t).phase = .stopped) (e : Option ServerError) : Relays t [] m (m.report t e) := by
  have hrecord : BypassesAll [] m (m.record (.reported t e)) := .record m rfl
  unfold Loop.report
  dsimp only
  split
  · exact .of_all hrecord
  · split
    · -- the task that clears the transport away is the only one that is made
      have hdetach : ∀ m₁ : Loop, BypassesAll [] m m₁ → Relays t [] m ((m₁.detachAll e).spawn (.stop t)).1 := by
        intro m₁ h₁
        have hall : BypassesAll [] m (m₁.detachAll e) := h₁.trans (.detachAll m₁ e)
        refine ⟨fun _ => hall.transports id, .inl (hall.transports id), hall.received, fun {u r} hr htends => ?_⟩
        rw [routine?_spawn] at hr
        split at hr
        · exact .inr ⟨(Option.some.inj hr).symm, (congrArg ChildTransport.phase (hall.transports id)).trans h⟩
        · exact .inl (hall.made hr htends)
      cases e with
      | none => exact hdetach _ hrecord
      | some error => exact hdetach _ (hrecord.trans (.note _ _ _))
    · exact .of_all hrecord

/-- A transport that drives a child takes what it is set to. -/
theorem childTransport_modifyTransport (h : m.state.driven t ≠ none) (k : ChildTransport → ChildTransport) :
    (m.modifyTransport t k).state.childTransport t = k (m.state.childTransport t) := by
  cases hx : m.state.driven t with
  | none => exact absurd hx h
  | some x =>
    rw [State.childTransport_eq_of_driven hx]
    refine State.childTransport_eq_of_driven ?_
    rw [show (m.modifyTransport t k).state.driven t = _ from State.driven_modifyChildTransport m.state t t k, if_pos rfl, hx]
    rfl

theorem driven_of_begun (h : (m.state.childTransport t).phase ≠ .idle) : m.state.driven t ≠ none := by
  intro hnone
  unfold State.driven at hnone
  unfold State.childTransport at h
  split at hnone
  · cases hnone
  · next hne =>
    split at h
    · next x hx => exact hne x hx
    · exact h rfl

/-- A transport that runs is stopped, and reports its end. -/
theorem conclude_relays (m : Loop) (t : TransportId) (e : Option ServerError) : Relays t [] m (m.conclude t e) := by
  unfold Loop.conclude
  split
  · next hrun =>
    have hstopped : ((m.setPhase t .stopped).state.childTransport t).phase = .stopped :=
      congrArg ChildTransport.phase (childTransport_modifyTransport (driven_of_begun (by rw [hrun]; exact Phase.noConfusion)) _)
    have hset : Bypasses (· = t) [] m (m.setPhase t .stopped) := Bypasses.modifyTransport (T := (· = t)) m rfl _
    have hreport := report_relays hstopped e
    refine ⟨fun hne => (hreport.others hne).trans (hset.transports hne), .inr ?_, ?_, fun hr htends => ?_⟩
    · exact hreport.mine.elim (fun heq => (congrArg ChildTransport.phase heq).trans hstopped) id
    · exact hreport.received
    · exact (hreport.made hr htends).imp_left fun hr' => hset.made hr' htends
  · exact .of_all (.refl m)

theorem breakOff_relays (m : Loop) (t : TransportId) (failure : Failure) :
    Relays t [] m (m.breakOff t failure).1 ∧ (m.breakOff t failure).2 = .done (.value .nothing) :=
  ⟨.trans (Bypasses.note m .error _) (conclude_relays _ t _), rfl⟩

/-! ## Reading -/

/-- How a reading of some pieces ends, which began with a decoder: it waits for more with the decoder as it is by then, or
the output has ended, or the end of the transport was reported. -/
inductive ReadsOn (t : TransportId) (c : ChildId) (d : Decoder) (chunks : List Bytes) (m : Loop) : Loop × Move → Prop
  | waits {m' : Loop} {f : FutureId} {vs : List Json} (h : BypassesAll (messagesIn (Decoder.told (d.feeds chunks))) m m')
      (hg : Decoder.given (d.feeds chunks) = .ok vs) : ReadsOn t c d chunks m (m', .await f (.reading t c (d.fed chunks)))
  | asks {m' : Loop} {n : Nat} (h : BypassesAll (messagesIn (Decoder.told (d.feeds chunks))) m m') :
      ReadsOn t c d chunks m (m', .call (.awaitExit c) (.outputEnded t c n))
  | concludes {m' : Loop} (h : Relays t (messagesIn (Decoder.told (d.feeds chunks))) m m') :
      ReadsOn t c d chunks m (m', .done (.value .nothing))

theorem ReadsOn.relays {chunks : List Bytes} {s : Loop × Move} (h : ReadsOn t c d chunks m s) :
    Relays t (messagesIn (Decoder.told (d.feeds chunks))) m s.1 := by
  cases h with
  | waits h => exact .of_all h
  | asks h => exact .of_all h
  | concludes h => exact h

/-- A piece is taken first, and its values are passed on. -/
theorem ReadsOn.cons {chunk : Bytes} {chunks : List Bytes} {vs : List Json} {s : Loop × Move} (hv : (d.feed chunk).messages = .ok vs)
    (h : BypassesAll (messagesIn vs) m m') (hs : ReadsOn t c (d.feed chunk).decoder chunks m' s) :
    ReadsOn t c d (chunk :: chunks) m s := by
  have htold : messagesIn (Decoder.told (d.feeds (chunk :: chunks))) =
      messagesIn vs ++ messagesIn (Decoder.told ((d.feed chunk).decoder.feeds chunks)) := by
    rw [Decoder.feeds, Decoder.told, hv, ← messagesIn_append]
  have hgiven : ∀ {vs'}, Decoder.given ((d.feed chunk).decoder.feeds chunks) = .ok vs' →
      Decoder.given (d.feeds (chunk :: chunks)) = .ok (vs ++ vs') := fun hg => by
    rw [Decoder.feeds, Decoder.given, hv, hg]
    rfl
  cases hs with
  | waits h' hg => exact .waits (htold ▸ h.trans h') (hgiven hg)
  | asks h' => exact .asks (htold ▸ h.trans h')
  | concludes h' => exact .concludes (htold ▸ .trans h h')

/-- A reading that finds nothing, or is broken off, passes nothing on. -/
theorem ReadsOn.breakOff {chunks : List Bytes} (h : BypassesAll [] m m') (ht : Decoder.told (d.feeds chunks) = []) (failure : Failure) :
    ReadsOn t c d chunks m (m'.breakOff t failure) := by
  obtain ⟨hrelays, hmove⟩ := breakOff_relays m' t failure
  have hboth : Relays t (messagesIn (Decoder.told (d.feeds chunks))) m (m'.breakOff t failure).1 := ht ▸ .trans h hrelays
  generalize m'.breakOff t failure = s at hmove hboth
  obtain ⟨m'', move⟩ := s
  cases hmove
  exact .concludes hboth

/-- What nobody heard may come first. -/
theorem ReadsOn.after {chunks : List Bytes} {s : Loop × Move} (h : BypassesAll [] m m') (hs : ReadsOn t c d chunks m' s) :
    ReadsOn t c d chunks m s := by
  cases hs with
  | waits h' hg => exact .waits (h.trans h') hg
  | asks h' => exact .asks (h.trans h')
  | concludes h' => exact .concludes (.trans h h')

theorem streamOf_of_children (h : m'.state.children = m.state.children) (c : ChildId) (pipe : Pipe) :
    m'.streamOf c pipe = m.streamOf c pipe := by
  cases pipe <;> simp only [streamOf, State.child, h]

theorem output_modifyStream (h : c < m.state.children.length) (k : Stream → Stream) :
    (m.modifyStream c .output k).streamOf c .output = k (m.streamOf c .output) := by
  have hchild : (m.modifyStream c .output k).state.child c = _ := State.child_modifyChild m.state c c _
  unfold streamOf
  rw [hchild, if_pos ⟨rfl, h⟩]

theorem lt_length_of_buffer {b : UInt8} {octets : Bytes} (h : (m.streamOf c .output).buffer = b :: octets) :
    c < m.state.children.length := by
  refine Nat.lt_of_not_le fun hge => ?_
  simp [streamOf, State.child, List.getElem?_eq_none hge] at h

/-- **A reading takes what is in the pipe, piece by piece**, and passes on the messages that this completes. -/
theorem readChunks_outcome (hr : m.state.receiver = .session) (hb : (m.streamOf c .output).broken = none) (fuel : Nat)
    (d : Decoder) : ReadsOn t c d (Stream.pieces fuel (m.streamOf c .output).buffer) m (readChunks t c fuel d m) := by
  induction fuel generalizing m d with
  | zero => exact .waits (.awaitStream m c .output (.reading t c d)) (rfl : Decoder.given [] = .ok [])
  | succ fuel ih =>
    unfold Loop.readChunks
    cases hbuffer : (m.streamOf c .output).buffer with
    | nil =>
      cases hended : (m.streamOf c .output).ended with
      | false =>
        have hread : (m.streamOf c .output).readChunk = .nothingYet := by simp [Stream.readChunk, hb, hbuffer, hended]
        rw [hread]
        exact .waits (.awaitStream m c .output (.reading t c d)) (rfl : Decoder.given [] = .ok [])
      | true =>
        have hread : (m.streamOf c .output).readChunk = .octets [] [] := by simp [Stream.readChunk, hb, hbuffer, hended]
        rw [hread]
        exact .asks (.refl m)
    | cons b octets =>
      rw [Stream.readChunk_of_cons hb hbuffer]
      have hpieces : Stream.pieces (fuel + 1) (b :: octets) =
        (b :: octets.take (Stream.chunkLimit - 1)) :: Stream.pieces fuel ((b :: octets).drop Stream.chunkLimit) := rfl
      rw [hpieces]
      generalize hchunk : octets.take (Stream.chunkLimit - 1) = chunk, hrest : (b :: octets).drop Stream.chunkLimit = rest
      dsimp only
      have htaken : PassesOn [] (m.modifyStream c .output fun s => { s with buffer := rest })
          ((m.modifyStream c .output fun s => { s with buffer := rest }).modify fun s =>
            (d.feed (b :: chunk)).notes.foldl (fun s n => s.record (.note n)) s) := recordNotes_passesOn _ _
      have hstream := output_modifyStream (lt_length_of_buffer hbuffer) fun s => { s with buffer := rest }
      have hmodify := Bypasses.modifyStream (T := fun _ => False) m c .output fun s => { s with buffer := rest }
      generalize hm₂ : ((m.modifyStream c .output fun s => { s with buffer := rest }).modify fun s =>
            (d.feed (b :: chunk)).notes.foldl (fun s n => s.record (.note n)) s) = m₂ at htaken
      have hread := hmodify.trans htaken.bypasses
      split
      · next r hr =>
        exact .breakOff hread (by rw [Decoder.feeds, Decoder.told, hr]) _
      · next vs hvs =>
        obtain ⟨m₃, hall, hpasses⟩ := receiveAll_passesOn (m := m₂) (htaken.receiver.trans hr) t vs
        rw [hall]
        have hsame : m₃.streamOf c .output = { m.streamOf c .output with buffer := rest } :=
          (streamOf_of_children (hpasses.children.trans htaken.children) c .output).trans hstream
        refine .cons hvs (hread.trans hpasses.bypasses) ?_
        have hnext := ih (m := m₃) (d := (d.feed (b :: chunk)).decoder) (hpasses.receiver.trans (htaken.receiver.trans hr)) (by rw [hsame]; exact hb)
        rwa [hsame] at hnext

/-- Whoever goes on reading takes all there is. -/
theorem readOn_outcome (hr : m.state.receiver = .session) (d : Decoder) :
    ReadsOn t c d (m.streamOf c .output).chunks m (readOn t c d m) := by
  unfold readOn Stream.chunks
  cases hb : (m.streamOf c .output).broken with
  | none =>
    rw [if_neg (by simp)]
    exact readChunks_outcome hr hb _ d
  | some e =>
    have hread : (m.streamOf c .output).readChunk = .failed (.system e) := by
      unfold Stream.readChunk
      rw [hb]
    unfold readChunks
    rw [hread]
    exact .breakOff (.refl m) rfl _

/-- And so does whoever begins to read. -/
theorem readOutput_outcome (hr : m.state.receiver = .session) (t : TransportId) (c : ChildId) :
    ReadsOn t c { encoding := m.state.settings.encoding, verbose := m.state.settings.verbose } (m.streamOf c .output).chunks m
      (readOutput t c m) :=
  readOn_outcome hr _

theorem chunks_streamResumed (m : Loop) (c : ChildId) :
    ((m.streamResumed c .output).streamOf c .output).chunks = (m.streamOf c .output).chunks := by
  unfold streamResumed
  rcases Nat.lt_or_ge c m.state.children.length with hlt | hge
  · rw [output_modifyStream hlt]
    rfl
  · have hchildren : (m.modifyStream c .output fun s => { s with waiter := none }).state.children = m.state.children :=
      List.modify_eq_self hge
    rw [streamOf_of_children hchildren]

/-- Whoever has waited for a child to write goes on reading. -/
theorem readResumed_outcome (hr : m.state.receiver = .session) (t : TransportId) (c : ChildId) (d : Decoder) (v : Value) :
    ReadsOn t c d (m.streamOf c .output).chunks m (readResumed t c d (.value v) m) :=
  .after (.modifyStream m c .output _) (chunks_streamResumed m c ▸ readOn_outcome (m := m.streamResumed c .output) hr d)

/-- Whoever has waited in vain reports the end of the transport. -/
theorem readResumed_failed (m : Loop) (t : TransportId) (c : ChildId) (d : Decoder) (failure : Failure) :
    Relays t [] m (readResumed t c d (.failed failure) m).1 ∧ (readResumed t c d (.failed failure) m).2 = .done (.value .nothing) := by
  obtain ⟨hrelays, hmove⟩ := breakOff_relays (m.streamResumed c .output) t failure
  exact ⟨.trans (Bypasses.modifyStream m c .output _) hrelays, hmove⟩

/-- Whoever is told that a child has ended reports the end of the transport. -/
theorem outputResumed_relays (m : Loop) (t : TransportId) (c : ChildId) (pending : Nat) (o : Ending) :
    Relays t [] m (outputResumed t c pending o m).1 ∧ ∃ o', (outputResumed t c pending o m).2 = .done o' := by
  have hafter : ∀ {m' : Loop} e, BypassesAll [] m m' → Relays t [] m (m'.conclude t e) := fun e h => .trans h (conclude_relays _ t e)
  have hnoted : BypassesAll [] m (if pending = 0 then m
      else m.note .debug (lit "tsserver exited with " ++ Text.ofNat pending ++ lit " undecoded bytes")) := by
    split
    · exact .refl m
    · exact .note m _ _
  unfold outputResumed
  split
  · dsimp only
    generalize (if pending = 0 then m
      else m.note .debug (lit "tsserver exited with " ++ Text.ofNat pending ++ lit " undecoded bytes")) = m' at hnoted
    refine ⟨?_, _, rfl⟩
    split
    · exact hafter none (hnoted.trans (.note m' _ _))
    · exact hafter _ hnoted
  · exact ⟨.of_all (.refl m), _, rfl⟩

end Loop

end DiagnosticsClient
