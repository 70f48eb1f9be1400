import DiagnosticsClient.Proofs.Transport.Reading
/-
How far a reader has got.

A reader that is not disturbed begins, waits for output and takes it, asks for the end
of the child once the output has ended, and reports it; at each of these points it is
known what it has taken and passed on (`Progress`). Each step of the reader takes it
from one point to another (`Progress.begins`, `Progress.resumes`), and whatever leaves
the output of the child alone keeps it where it is (`Progress.mono`).
-/
namespace DiagnosticsClient

open Async Async.Machine

/-- With what a transport reports the end of a child. -/
def closing (code : Int) : Option ServerError :=
  if code = 0 then none
  else some { message := lit "tsserver exited with code " ++ Text.ofInt code, returnCode := some code }

namespace Loop

variable {m m' : Loop} {said : Bytes} {d : Decoder} {u : TaskId} {f : FutureId} {r : Routine} {F : Frame} {stack : List Frame}
  {o : Ending} {th : Option (Thread Routine Frame Value Failure)}

/-- All that the child has said was passed on, and then its end. -/
structure Reported (m : Loop) (said : Bytes) : Prop where
  stopped : ∃ x, m.state.driven 0 = some x ∧ x.phase = .stopped
  child : 0 < m.state.children.length
  ended : (m.streamOf 0 .output).ended = true
  told : ∃ code past, (m.state.child 0).returnCode = some code ∧ decode m.state.settings.encoding said = .ok past ∧
    m.state.tidings = past.messages.map .message ++ [.close (closing code)]

/-- The decoder a reader begins with. -/
def decoder (m : Loop) : Decoder := { encoding := m.state.settings.encoding, verbose := m.state.settings.verbose }

/-- Whoever waits for output is named by the pipe, which is empty and open, or its wait is over. -/
def Awaited (m : Loop) (f : FutureId) : Prop :=
  m.outcome? f = none ∧ (m.streamOf 0 .output).waiter = some f ∧ (m.streamOf 0 .output).buffer = [] ∧
    (m.streamOf 0 .output).ended = false ∨
  ∃ v, m.outcome? f = some (.value v)

/-- How far the reader has got, by its thread. -/
inductive Progress (m : Loop) (said : Bytes) : Option (Thread Routine Frame Value Failure) → Prop
  | fresh (h : Taken m said m.decoder) : Progress m said (some ⟨.fresh (.readOutput 0 0), []⟩)
  | begins (h : Taken m said m.decoder) : Progress m said (some ⟨.begins (.readOutput 0 0), []⟩)
  | waits {f : FutureId} {d : Decoder} (h : Taken m said d) (hw : m.Awaited f) :
      Progress m said (some ⟨.waits f, [.reading 0 0 d]⟩)
  | resumes {v : Value} {d : Decoder} (h : Taken m said d) : Progress m said (some ⟨.resumes (.value v), [.reading 0 0 d]⟩)
  | asks {d : Decoder} {n : Nat} (h : Taken m said d) (hempty : (m.streamOf 0 .output).buffer = [])
      (hended : (m.streamOf 0 .output).ended = true) : Progress m said (some ⟨.begins (.awaitExit 0), [.outputEnded 0 0 n]⟩)
  | concludes {d : Decoder} {n : Nat} {code : Int} (h : Taken m said d) (hempty : (m.streamOf 0 .output).buffer = [])
      (hended : (m.streamOf 0 .output).ended = true) (hcode : (m.state.child 0).returnCode = some code) :
      Progress m said (some ⟨.resumes (.value (.returnCode code)), [.outputEnded 0 0 n]⟩)
  | ends {o : Ending} (h : Reported m said) : Progress m said (some ⟨.resumes o, []⟩)
  | finished (h : Reported m said) : Progress m said none

/-! ## While others are at work -/

/-- The output of the child and the transport are left alone. -/
structure Unmoved (m m' : Loop) : Prop where
  driven : m'.state.driven 0 = m.state.driven 0
  tidings : m'.state.tidings = m.state.tidings
  receiver : m'.state.receiver = m.state.receiver
  settings : m'.state.settings = m.state.settings
  children : m'.state.children.length = m.state.children.length
  code : (m'.state.child 0).returnCode = (m.state.child 0).returnCode
  output : m'.streamOf 0 .output = m.streamOf 0 .output

theorem Unmoved.of_state (h : m'.state = m.state) : Unmoved m m' := by
  have hstream : m'.streamOf 0 .output = m.streamOf 0 .output := by rw [streamOf, streamOf, h]
  exact ⟨by rw [h], by rw [h], by rw [h], by rw [h], by rw [h], by rw [h], hstream⟩

theorem Handles.unmoved {may : Licence Routine} (h : Handles may .errors m m') (hp : Passes [] m m') : Unmoved m m' :=
  ⟨hp.driven 0, hp.stays.tidings, hp.receiver, h.steady.settings, h.steady.children, h.steady.code,
    h.other fun h => by cases h⟩

namespace Unmoved

theorem taken (h : Unmoved m m') (ht : Taken m said d) : Taken m' said d where
  encoding := by rw [ht.encoding, h.settings]
  runs := ⟨h.receiver.trans ht.runs.receiver, by rw [h.driven]; exact ht.runs.phase⟩
  child := by rw [h.children]; exact ht.child
  taken := by rw [h.output, h.tidings]; exact ht.taken

theorem reported (h : Unmoved m m') (ht : Reported m said) : Reported m' said where
  stopped := by rw [h.driven]; exact ht.stopped
  child := by rw [h.children]; exact ht.child
  ended := by rw [h.output]; exact ht.ended
  told := by rw [h.code, h.settings, h.tidings]; exact ht.told

theorem decoder (h : Unmoved m m') : m'.decoder = m.decoder := by rw [Loop.decoder, Loop.decoder, h.settings]

/-- **Whatever leaves the output of the child alone keeps its reader where it is**, if it gives the reader nothing but a
value. -/
theorem progress (h : Unmoved m m') (hp : Progress m said th)
    (hout : ∀ {f s}, th = some ⟨.waits f, s⟩ → m'.outcome? f = m.outcome? f ∨ ∃ v, m'.outcome? f = some (.value v)) :
    Progress m' said th := by
  cases hp with
  | fresh ht => exact .fresh (h.decoder ▸ h.taken ht)
  | begins ht => exact .begins (h.decoder ▸ h.taken ht)
  | waits ht hw =>
    refine .waits (h.taken ht) ?_
    rcases hout rfl with hsame | hv
    · rw [Awaited, hsame, h.output]
      exact hw
    · exact .inr hv
  | resumes ht => exact .resumes (h.taken ht)
  | asks ht hempty hended => exact .asks (h.taken ht) (h.output ▸ hempty) (h.output ▸ hended)
  | concludes ht hempty hended hcode =>
    exact .concludes (h.taken ht) (h.output ▸ hempty) (h.output ▸ hended) (h.code ▸ hcode)
  | ends ht => exact .ends (h.reported ht)
  | finished ht => exact .finished (h.reported ht)

end Unmoved

/-! ## Steps of the reader -/

/-- Whoever has read all there is waits, or asks for the end of the child. -/
theorem Halts.progress {s : Loop × Move} (h : Halts s.1 said s.2) : Progress s.1 said (some (s.1.nextThread [] s.2)) := by
  obtain ⟨m', a⟩ := s
  cases h with
  | awaits ht hempty hopen hw hun =>
    unfold nextThread
    dsimp only at hun ⊢
    rw [hun]
    exact .waits ht (.inl ⟨hun, hw, hempty, hopen⟩)
  | asks ht hempty hended => exact .asks ht hempty hended

/-- What the reader does: it handles the output, and gets on. -/
structure GetsOn (m : Loop) (said : Bytes) (stack : List Frame) (s : Loop × Move) : Prop where
  handles : Handles quiet .output m s.1
  news : m.AwaitsNew s.2
  progress : Progress s.1 said (some (s.1.nextThread stack s.2))

theorem Taken.readOn (h : Taken m said d) (hclean : IsClean m.state.settings.encoding said)
    (hbroken : (m.streamOf 0 .output).broken = none) : GetsOn m said [] (readOn 0 0 d m) := by
  obtain ⟨hhandles, hnew, hhalts⟩ := h.readChunks hclean hbroken (Nat.lt_succ_self _)
  exact ⟨hhandles, hnew, hhalts.progress⟩

/-- A wait for output is over. -/
theorem Taken.streamResumed (h : Taken m said d) : Taken (m.streamResumed 0 .output) said d ∧
    Handles quiet .output m (m.streamResumed 0 .output) ∧ (m.streamResumed 0 .output).streamOf 0 .output =
      { m.streamOf 0 .output with waiter := none } := by
  have hpass := Passes.modifyStream m 0 .output fun s => { s with waiter := none }
  have hhandles : Handles quiet .output m (m.streamResumed 0 .output) := .modifyStream m 0 (fun _ => rfl) fun _ => rfl
  have hstream := streamOf_output_modifyStream h.child fun s => { s with waiter := none }
  refine ⟨⟨?_, hpass.runs h.runs, ?_, ?_⟩, hhandles, hstream⟩
  · rw [h.encoding, hhandles.steady.settings]
  · rw [hhandles.steady.children]
    exact h.child
  · rw [show (m.streamResumed 0 .output).streamOf 0 .output = _ from hstream,
      show (m.streamResumed 0 .output).state.tidings = _ from hpass.stays.tidings]
    exact h.taken

/-- To report the end of a transport leaves the children alone. -/
theorem conclude_handles (hr : m.state.receiver = .watcher) (e : Option ServerError) : Handles quiet .output m (m.conclude 0 e) ∧
    (m.conclude 0 e).streamOf 0 .output = m.streamOf 0 .output := by
  unfold Loop.conclude
  split
  · rw [report_watcher (show (m.setPhase 0 .stopped).state.receiver = .watcher from hr)]
    exact ⟨.of_children (.tail (.single (.share _ _)) (.share _ _)) rfl rfl rfl, rfl⟩
  · exact ⟨.refl _ m, rfl⟩

/-- What is noted before the end of a child is reported. -/
theorem outputResumed_eq (m : Loop) (n : Nat) (code : Int) : ∃ m₁, Passes [] m m₁ ∧ Handles quiet .output m m₁ ∧
    m₁.streamOf 0 .output = m.streamOf 0 .output ∧
    outputResumed 0 0 n (.value (.returnCode code)) m = (m₁.conclude 0 (closing code), .done (.value .nothing)) := by
  obtain ⟨m₀, hm₀, hp, hh, hs⟩ : ∃ m₀, (if n = 0 then m
      else m.note .debug (lit "tsserver exited with " ++ Text.ofNat n ++ lit " undecoded bytes")) = m₀ ∧
      Passes [] m m₀ ∧ Handles quiet .output m m₀ ∧ m₀.streamOf 0 .output = m.streamOf 0 .output := by
    refine ⟨_, rfl, ?_⟩
    split
    · exact ⟨.refl m, .refl _ m, rfl⟩
    · exact ⟨.note m _ Level.noConfusion, .record m _, rfl⟩
  unfold outputResumed closing
  dsimp only
  rw [hm₀]
  by_cases hcode : code = 0
  · rw [if_pos hcode, if_pos hcode]
    exact ⟨_, hp.trans (.note m₀ _ (Level.noConfusion : Level.info ≠ .error)), hh.trans (.record m₀ _), hs, rfl⟩
  · rw [if_neg hcode, if_neg hcode]
    exact ⟨m₀, hp, hh, hs, rfl⟩

/-- The end of the child is reported, once all that it said was passed on. -/
theorem Taken.concluded (h : Taken m said d) (hclean : IsClean m.state.settings.encoding said)
    (hempty : (m.streamOf 0 .output).buffer = []) (hended : (m.streamOf 0 .output).ended = true) {code : Int}
    (hcode : (m.state.child 0).returnCode = some code) (n : Nat) :
    GetsOn m said [] (outputResumed 0 0 n (.value (.returnCode code)) m) := by
  obtain ⟨m₁, hp, hh, hs, heq⟩ := outputResumed_eq m n code
  have hruns := hp.runs h.runs
  have hclose := hruns.conclude (closing code)
  obtain ⟨hhandles, hsame⟩ := conclude_handles hruns.receiver (closing code)
  have hall := hh.trans hhandles
  obtain ⟨x, hd, -⟩ := hruns.phase
  obtain ⟨seen, past, hsaid, hfollows, htold⟩ := h.taken
  obtain ⟨found, hfound, -, -⟩ := hclean
  rw [hempty, List.append_nil] at hsaid
  subst hsaid
  have hpast : found = past := hfollows.found (by rw [h.encoding]; exact hfound)
  subst hpast
  rw [heq]
  refine ⟨hall, fun h => by (cases h), .ends ⟨⟨_, hclose.driven.trans (by rw [hd]; rfl), rfl⟩, ?_, ?_, code, found, ?_, ?_, ?_⟩⟩
  · rw [hall.steady.children]
    exact h.child
  · rw [hsame, hs]
    exact hended
  · exact hall.steady.code.trans hcode
  · rw [hall.steady.settings]
    exact hfound
  · rw [hclose.tidings, hp.stays.tidings, htold, List.map_nil, List.append_nil]

/-- **Whoever begins to read, or asks for the end of the child, gets on.** -/
theorem Progress.begins_on (h : Progress m said (some ⟨.begins r, stack⟩)) (ht : Tame m.state)
    (hclean : IsClean m.state.settings.encoding said) (hbroken : (m.streamOf 0 .output).broken = none) :
    GetsOn m said stack (begin r m) := by
  cases h with
  | begins htaken => exact htaken.readOn hclean hbroken
  | asks htaken hempty hended =>
    -- the child has ended, so its code is there
    obtain ⟨code, hcode⟩ := Option.isSome_iff_exists.mp (ht.ended.symm.trans hended)
    have hbegin : begin (.awaitExit 0) m = (m, .done (.value (.returnCode code))) := by
      show awaitExit 0 m = _
      unfold awaitExit
      rw [hcode]
    rw [hbegin]
    exact ⟨.refl _ m, fun h => by (cases h), .concludes htaken hempty hended hcode⟩

/-- **Whoever goes on reading, or is given the code of the child, gets on.** -/
theorem Progress.resumes_on (h : Progress m said (some ⟨.resumes o, F :: stack⟩))
    (hclean : IsClean m.state.settings.encoding said) (hbroken : (m.streamOf 0 .output).broken = none) :
    GetsOn m said stack (resume F o m) := by
  cases h with
  | resumes htaken =>
    obtain ⟨hfree, hhandles, hstream⟩ := htaken.streamResumed
    obtain ⟨hrest, hnew, hprogress⟩ := hfree.readOn (by rwa [hhandles.steady.settings]) (by rw [hstream]; exact hbroken)
    exact ⟨hhandles.trans hrest, fun h => Nat.le_trans hhandles.effect.extends.room (hnew h), hprogress⟩
  | concludes htaken hempty hended hcode => exact htaken.concluded hclean hempty hended hcode _

end Loop

end DiagnosticsClient
