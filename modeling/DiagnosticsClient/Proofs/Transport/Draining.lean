import DiagnosticsClient.Proofs.Transport.Complaints
/-
How far a drain has got.

What a drain has noted and the lines that are still in the pipe are together the lines of all that the child wrote, whatever
else it may write (`Sifted`). A drain begins, waits while there is no whole line, and reads what there is; it ends when the
error output has ended and all of it was read, or with the first line that is too long (`Gone`). A step of the drain takes it
from one of these points to another (`Stage.begins_on`, `Stage.resumes_on`), and whatever leaves the error output alone leaves
the drain where it is (`Shuns.stage`).
-/
namespace DiagnosticsClient

open Async Async.Machine

namespace Loop

variable {charset : Charset} {m m' : Loop} {wrote more : Bytes} {u : TaskId} {f : FutureId} {r : Routine} {F : Frame}
  {stack : List Frame} {o : Ending} {th : Option (Thread Routine Frame Value Failure)} {may : Licence Routine}

/-! ## What was noted -/

/-- What was noted and what is still to be read are the lines of all that was written. The error output ends with the child. -/
structure Sifted (charset : Charset) (m : Loop) (wrote : Bytes) : Prop where
  child : 0 < m.state.children.length
  sturdy : (m.streamOf 0 .errors).broken = none
  ended : (m.streamOf 0 .errors).ended = (m.state.child 0).returnCode.isSome
  lines : ∀ {more : Bytes} {ended : Bool}, ((m.streamOf 0 .errors).ended = true → more = [] ∧ ended = true) →
    m.state.complaints ++ (Stream.readableLines ended ((m.streamOf 0 .errors).buffer ++ more)).map (complaintOf charset) =
      (Stream.readableLines ended (wrote ++ more)).map (complaintOf charset)
  overlong : ∀ {more : Bytes}, ((m.streamOf 0 .errors).ended = true → more = []) →
    (Stream.IsOverlong ((m.streamOf 0 .errors).buffer ++ more) ↔ Stream.IsOverlong (wrote ++ more))

/-- A drain at its end: there is nothing more to read, or a line is too long. -/
inductive Gone (m : Loop) : Ending → Prop
  | exhausted (hempty : (m.streamOf 0 .errors).buffer = []) (hended : (m.streamOf 0 .errors).ended = true) :
      Gone m (.value .nothing)
  | choked (hlong : Stream.lineLimit < ((m.streamOf 0 .errors).buffer.takeWhile (· ≠ 10)).length) : Gone m (.failed .lineTooLong)

/-- Whoever waits for error output is named by its pipe alone, in which there is no whole line and may yet be one, or its wait
is over. -/
def AwaitsErrors (m : Loop) (f : FutureId) : Prop :=
  (m.outcome? f = none ∧ (m.streamOf 0 .errors).waiter = some f ∧ (m.streamOf 0 .output).waiter ≠ some f) ∧
    10 ∉ (m.streamOf 0 .errors).buffer ∧ (m.streamOf 0 .errors).buffer.length ≤ Stream.lineLimit ∧
    (m.streamOf 0 .errors).ended = false ∨
  ∃ v, m.outcome? f = some (.value v)

/-- Where a drain is, by its thread. -/
inductive Stage (m : Loop) : Option (Thread Routine Frame Value Failure) → Prop
  | fresh : Stage m (some ⟨.fresh (.drainErrors 0), []⟩)
  | begins : Stage m (some ⟨.begins (.drainErrors 0), []⟩)
  | waits {f : FutureId} (hw : m.AwaitsErrors f) : Stage m (some ⟨.waits f, [.draining 0]⟩)
  | resumes {v : Value} : Stage m (some ⟨.resumes (.value v), [.draining 0]⟩)
  | ends {o : Ending} (hg : m.Gone o) : Stage m (some ⟨.resumes o, []⟩)
  | finished {o : Ending} (hg : m.Gone o) : Stage m none

/-! ## While others are at work -/

/-- The error output of the child is as it was, but for who waits for it. -/
theorem Sifted.of_same (h : Sifted charset m wrote) (hchildren : m'.state.children.length = m.state.children.length)
    (hcode : (m'.state.child 0).returnCode = (m.state.child 0).returnCode) (hcomplaints : m'.state.complaints = m.state.complaints)
    (hbuffer : (m'.streamOf 0 .errors).buffer = (m.streamOf 0 .errors).buffer)
    (hbroken : (m'.streamOf 0 .errors).broken = (m.streamOf 0 .errors).broken)
    (hended : (m'.streamOf 0 .errors).ended = (m.streamOf 0 .errors).ended) : Sifted charset m' wrote where
  child := hchildren ▸ h.child
  sturdy := hbroken.trans h.sturdy
  ended := by rw [hended, hcode, h.ended]
  lines hmore := by
    rw [hcomplaints, hbuffer]
    exact h.lines (hended ▸ hmore)
  overlong hmore := by
    rw [hbuffer]
    exact h.overlong (hended ▸ hmore)

theorem Gone.of_errors (hg : m.Gone o) (h : m'.streamOf 0 .errors = m.streamOf 0 .errors) : m'.Gone o := by
  cases hg with
  | exhausted hempty hended => exact .exhausted (h ▸ hempty) (h ▸ hended)
  | choked hlong => exact .choked (h ▸ hlong)

theorem Shuns.sifted (h : Shuns m m') (hs : Sifted charset m wrote) : Sifted charset m' wrote :=
  hs.of_same h.children h.code h.complaints (by rw [h.errors]) (by rw [h.errors]) (by rw [h.errors])

/-- Where the error output is as it was the drain stays where it is, if it is given nothing but a value. -/
theorem Stage.mono (hs : Stage m th) (herrors : m'.streamOf 0 .errors = m.streamOf 0 .errors)
    (hapart : ∀ {f s}, th = some ⟨.waits f, s⟩ → (m'.streamOf 0 .output).waiter = some f → (m.streamOf 0 .output).waiter = some f)
    (hout : ∀ {f s}, th = some ⟨.waits f, s⟩ → m'.outcome? f = m.outcome? f ∨ ∃ v, m'.outcome? f = some (.value v)) :
    Stage m' th := by
  cases hs with
  | fresh => exact .fresh
  | begins => exact .begins
  | waits hw =>
    refine .waits ?_
    rcases hout rfl with hsame | hv
    · rw [AwaitsErrors, hsame, herrors]
      exact hw.imp_left fun ⟨⟨hnone, hwaiter, hne⟩, hrest⟩ => ⟨⟨hnone, hwaiter, fun heq => hne (hapart rfl heq)⟩, hrest⟩
    · exact .inr hv
  | resumes => exact .resumes
  | ends hg => exact .ends (hg.of_errors herrors)
  | finished hg => exact .finished (hg.of_errors herrors)

/-- **Whatever leaves the error output alone leaves the drain where it is**, if it gives the drain nothing but a value. -/
theorem Shuns.stage (h : Shuns m m') (hs : Stage m th) (hlt : ∀ {f s}, th = some ⟨.waits f, s⟩ → f < m.futures.size)
    (hout : ∀ {f s}, th = some ⟨.waits f, s⟩ → m'.outcome? f = m.outcome? f ∨ ∃ v, m'.outcome? f = some (.value v)) :
    Stage m' th :=
  hs.mono h.errors (fun hth heq => (h.waiter heq).resolve_right (Nat.not_le_of_lt (hlt hth))) hout

/-! ## Steps of the drain -/

theorem streamOf_errors_modifyStream (h : 0 < m.state.children.length) (k : Stream → Stream) :
    (m.modifyStream 0 .errors k).streamOf 0 .errors = k (m.streamOf 0 .errors) := by
  rw [streamOf_modifyStream, if_pos ⟨rfl, h, rfl⟩]

/-- What changes the error output of the child changes neither its end nor what was noted. -/
theorem Sifted.modifyErrors (h : Sifted charset m wrote) {k : Stream → Stream} (hbuffer : ∀ s, (k s).buffer = s.buffer)
    (hbroken : ∀ s, (k s).broken = s.broken) (hended : ∀ s, (k s).ended = s.ended) : Sifted charset (m.modifyStream 0 .errors k) wrote := by
  have hh : Handles quiet .errors m (m.modifyStream 0 .errors k) := .modifyStream m 0 hended hbroken
  have hstream := streamOf_errors_modifyStream h.child k
  exact h.of_same hh.steady.children hh.steady.code rfl (by rw [hstream, hbuffer]) (by rw [hstream, hbroken])
    (by rw [hstream, hended])

/-- A line is read and noted. -/
theorem Sifted.reads (h : Sifted charset m wrote) {line rest : Bytes}
    (hlines : ∀ {more ended}, ((m.streamOf 0 .errors).ended = true → more = [] ∧ ended = true) →
      Stream.readableLines ended ((m.streamOf 0 .errors).buffer ++ more) = line :: Stream.readableLines ended (rest ++ more))
    (hlong : ∀ {more}, ((m.streamOf 0 .errors).ended = true → more = []) →
      (Stream.IsOverlong ((m.streamOf 0 .errors).buffer ++ more) ↔ Stream.IsOverlong (rest ++ more))) :
    Sifted charset ((m.modifyStream 0 .errors fun s => { s with buffer := rest }).record (.note (complaintOf charset line))) wrote := by
  have hh : Handles quiet .errors m (m.modifyStream 0 .errors fun s => { s with buffer := rest }) :=
    .modifyStream m 0 (fun _ => rfl) fun _ => rfl
  have hstream := streamOf_errors_modifyStream h.child fun s => { s with buffer := rest }
  have hnoted := State.complaints_complain (m.modifyStream 0 .errors fun s => { s with buffer := rest }).state charset line
  let m' := (m.modifyStream 0 .errors fun s => { s with buffer := rest }).record (.note (complaintOf charset line))
  have hstream' : m'.streamOf 0 .errors = { m.streamOf 0 .errors with buffer := rest } := hstream
  refine ⟨hh.steady.children.symm ▸ h.child, ?_, ?_, fun {more ended} hmore => ?_, fun {more} hmore => ?_⟩
  · rw [hstream']
    exact h.sturdy
  · rw [hstream']
    exact h.ended.trans (congrArg _ hh.steady.code.symm)
  · rw [hstream'] at hmore ⊢
    rw [show m'.state.complaints = _ from hnoted, List.append_assoc, List.singleton_append, ← List.map_cons, ← hlines hmore]
    exact h.lines hmore
  · rw [hstream'] at hmore ⊢
    rw [← hlong hmore]
    exact h.overlong hmore

/-- Whoever has read all whole lines waits for more. -/
theorem Sifted.awaits (h : Sifted charset m wrote) (hrest : 10 ∉ (m.streamOf 0 .errors).buffer)
    (hshort : (m.streamOf 0 .errors).buffer.length ≤ Stream.lineLimit) (hopen : (m.streamOf 0 .errors).ended = false)
    (hlt : ∀ {f}, (m.streamOf 0 .output).waiter = some f → f < m.futures.size) :
    let s := m.awaitStream 0 .errors (.draining 0)
    Sifted charset s.1 wrote ∧ Stage s.1 (some (s.1.nextThread [] s.2)) := by
  intro s
  have hsifted : Sifted charset m.future.1 wrote := h.of_same rfl rfl rfl rfl rfl rfl
  have hwaits : Sifted charset s.1 wrote :=
    hsifted.modifyErrors (k := fun s => { s with waiter := some m.futures.size }) (fun _ => rfl) (fun _ => rfl) fun _ => rfl
  have hstream : s.1.streamOf 0 .errors = { m.streamOf 0 .errors with waiter := some m.futures.size } :=
    streamOf_errors_modifyStream (m := m.future.1) h.child fun s => { s with waiter := some m.futures.size }
  obtain ⟨hhandles, -⟩ : Handles quiet .errors m s.1 ∧ _ := Handles.awaitStream m 0 .errors (.draining 0)
  have hnone : s.1.outcome? m.futures.size = none := by
    change (m.newFuture.1).outcome? m.futures.size = none
    rw [(newFuture_alike m).outcome]
    simp [outcome?]
  have hnext : s.1.nextThread [] s.2 = ⟨.waits m.futures.size, [.draining 0]⟩ := by
    change nextThread s.1 [] (.await m.futures.size (.draining 0)) = _
    unfold nextThread
    dsimp only
    rw [hnone]
  rw [hnext]
  refine ⟨hwaits, .waits (.inl ⟨⟨hnone, by rw [hstream], fun heq => ?_⟩, ?_⟩)⟩
  · rw [hhandles.other Pipe.noConfusion] at heq
    exact Nat.lt_irrefl _ (hlt heq)
  · rw [hstream]
    exact ⟨hrest, hshort, hopen⟩

theorem errorLine_eq (hcharset : Charset.lookup m.state.settings.encoding = .ok charset) (line : Bytes) :
    errorLine m.state.settings.encoding line = .ok (Text.dropEndWhile CodePoint.isBlank (charset.decodeLossy line)) := by
  rw [errorLine, hcharset]

/-- **Whoever drains notes the whole lines there are**, and then waits for more or is at its end. -/
theorem Sifted.drainLines (h : Sifted charset m wrote) (hcharset : Charset.lookup m.state.settings.encoding = .ok charset)
    (hlt : ∀ {f}, (m.streamOf 0 .output).waiter = some f → f < m.futures.size) {fuel : Nat}
    (hfuel : (m.streamOf 0 .errors).buffer.length < fuel) :
    Sifted charset (drainLines 0 fuel m).1 wrote ∧
      Stage (drainLines 0 fuel m).1 (some ((drainLines 0 fuel m).1.nextThread [] (drainLines 0 fuel m).2)) := by
  induction fuel generalizing m with
  | zero => exact absurd hfuel (Nat.not_lt_zero _)
  | succ fuel ih =>
    -- a line that is noted leaves a shorter pipe, and all else as it was
    have hon : ∀ {line rest : Bytes}, line ≠ [] → (m.streamOf 0 .errors).readLine = .octets line rest →
        rest.length < (m.streamOf 0 .errors).buffer.length →
        Sifted charset ((m.modifyStream 0 .errors fun s => { s with buffer := rest }).record (.note (complaintOf charset line))) wrote →
        Sifted charset (Loop.drainLines 0 (fuel + 1) m).1 wrote ∧ Stage (Loop.drainLines 0 (fuel + 1) m).1
          (some ((Loop.drainLines 0 (fuel + 1) m).1.nextThread [] (Loop.drainLines 0 (fuel + 1) m).2)) := by
      intro line rest hne hread hless hnext
      have hh : Handles quiet .errors m (m.modifyStream 0 .errors fun s => { s with buffer := rest }) :=
        .modifyStream m 0 (fun _ => rfl) fun _ => rfl
      have hstream := streamOf_errors_modifyStream h.child fun s => { s with buffer := rest }
      unfold Loop.drainLines
      rw [hread]
      dsimp only
      rw [if_neg hne, hh.steady.settings, errorLine_eq hcharset]
      refine ih hnext (by rwa [← hh.steady.settings] at hcharset) (fun hf => hlt ?_) ?_
      · rw [← hh.other Pipe.noConfusion]
        exact hf
      · change ((m.modifyStream 0 .errors fun s => { s with buffer := rest }).streamOf 0 .errors).buffer.length < fuel
        rw [hstream]
        exact Nat.lt_of_lt_of_le hless (Nat.le_of_lt_succ hfuel)
    rcases (m.streamOf 0 .errors).readLine_cases h.sturdy with ⟨content, rest, hbuffer, hfeed, hshort, hread⟩ |
      ⟨hfeed, hshort, hread⟩ | ⟨hlong, hread⟩
    · refine hon (by simp) hread ?_ (h.reads (fun {more ended} _ => ?_) fun {more} _ => ?_)
      · rw [hbuffer, List.length_append, List.length_cons]
        omega
      · rw [hbuffer, List.append_assoc, List.cons_append, Stream.readableLines_line hfeed hshort]
      · rw [hbuffer, List.append_assoc, List.cons_append, Stream.isOverlong_line hfeed hshort]
    · cases hended : (m.streamOf 0 .errors).ended with
      | false =>
        rw [hended, if_neg Bool.false_ne_true] at hread
        unfold Loop.drainLines
        rw [hread]
        exact h.awaits hfeed hshort hended hlt
      | true =>
        rw [hended, if_pos rfl] at hread
        by_cases hnil : (m.streamOf 0 .errors).buffer = []
        · rw [hnil] at hread
          unfold Loop.drainLines
          rw [hread]
          dsimp only
          rw [if_pos rfl]
          have hstream := streamOf_errors_modifyStream h.child fun s => { s with buffer := [] }
          refine ⟨?_, .ends (.exhausted (by rw [hstream]) (by rw [hstream]; exact hended))⟩
          have hh : Handles quiet .errors m (m.modifyStream 0 .errors fun s => { s with buffer := [] }) :=
            .modifyStream m 0 (fun _ => rfl) fun _ => rfl
          exact h.of_same hh.steady.children hh.steady.code rfl (by rw [hstream, hnil]) (by rw [hstream]) (by rw [hstream])
        · refine hon hnil hread (List.length_pos_iff.mpr hnil) (h.reads (fun {more ended} hmore => ?_) fun {more} hmore => ?_)
          · obtain ⟨rfl, rfl⟩ := hmore hended
            rw [List.append_nil, Stream.readableLines_rest hfeed hshort, if_pos ⟨rfl, hnil⟩]
            rfl
          · obtain rfl := hmore hended
            rw [List.append_nil]
            exact iff_of_false (Stream.not_isOverlong_rest hfeed hshort) (Stream.not_isOverlong_rest (by simp) (Nat.zero_le _))
    · unfold Loop.drainLines
      rw [hread]
      exact ⟨h, .ends (.choked hlong)⟩

/-- What a drain does: it handles the error output, and gets to another stage. -/
structure Drains (charset : Charset) (m : Loop) (wrote : Bytes) (stack : List Frame) (s : Loop × Move) : Prop where
  handles : Handles quiet .errors m s.1
  news : m.AwaitsNew s.2
  sifted : Sifted charset s.1 wrote
  stage : Stage s.1 (some (s.1.nextThread stack s.2))

/-- **Whoever begins to drain gets on.** -/
theorem Stage.begins_on (hs : Stage m (some ⟨.begins r, stack⟩)) (h : Sifted charset m wrote)
    (hcharset : Charset.lookup m.state.settings.encoding = .ok charset)
    (hlt : ∀ {f}, (m.streamOf 0 .output).waiter = some f → f < m.futures.size) : Drains charset m wrote stack (begin r m) := by
  cases hs with
  | begins =>
    obtain ⟨hhandles, hnew⟩ := drainLines_handles 0 ((m.streamOf 0 .errors).buffer.length + 1) m
    obtain ⟨hsifted, hstage⟩ := h.drainLines hcharset hlt (Nat.lt_succ_self _)
    exact ⟨hhandles, hnew, hsifted, hstage⟩

/-- **Whoever has waited for error output gets on.** -/
theorem Stage.resumes_on (hs : Stage m (some ⟨.resumes o, F :: stack⟩)) (h : Sifted charset m wrote)
    (hcharset : Charset.lookup m.state.settings.encoding = .ok charset)
    (hlt : ∀ {f}, (m.streamOf 0 .output).waiter = some f → f < m.futures.size) : Drains charset m wrote stack (resume F o m) := by
  cases hs with
  | @resumes v =>
    obtain ⟨hhandles, hnew⟩ := drainResumed_handles m 0 (.value v)
    have hfree : Handles quiet .errors m (m.streamResumed 0 .errors) := .modifyStream m 0 (fun _ => rfl) fun _ => rfl
    have hsifted : Sifted charset (m.streamResumed 0 .errors) wrote := h.modifyErrors (fun _ => rfl) (fun _ => rfl) fun _ => rfl
    have hother : (m.streamResumed 0 .errors).streamOf 0 .output = m.streamOf 0 .output := hfree.other Pipe.noConfusion
    obtain ⟨hrest, hstage⟩ := hsifted.drainLines (by rwa [hfree.steady.settings]) (fun hf => hlt (hother ▸ hf)) (Nat.lt_succ_self _)
    exact ⟨hhandles, hnew, hrest, hstage⟩

end Loop

end DiagnosticsClient
