import DiagnosticsClient.Proofs.Transport.Flow
import DiagnosticsClient.Proofs.Transport.Orderly
/-
Steps that keep the output of a child on its way.

Each step of the loop keeps the flow: the reader gets on (`Flow.reads`), the drain and
a start that is not the first leave the output of the child alone (`Flow.others`), and
the first start launches the child (`Flow.launches`).
-/
namespace DiagnosticsClient

open Async Async.Machine

section leaves

variable {roots : TaskId → Option Routine} {root called : Routine} {F : Frame} {stack : List Frame} {c : ChildId}

theorem Frame.Serves.of_drainErrors (h : F.Serves roots (.drainErrors c)) : F = .draining c := by
  cases h with
  | draining => rfl
  | finishing hx => cases hx
  | introducing hx => cases hx
  | expecting hx => cases hx

theorem Stacked.under_drainErrors (h : Stacked roots (.drainErrors c) called stack) : called = .drainErrors c ∧ stack = [] :=
  h.of_leaf fun hs hc => by
    cases hs.of_drainErrors
    cases hc

theorem Stacked.under_start {t : TransportId} (h : Stacked roots (.start t) called stack) : called = .start t ∧ stack = [] :=
  h.of_leaf fun hs hc => by
    obtain ⟨_, _, rfl⟩ := hs.of_start
    cases hc

end leaves

namespace Loop

variable {role role' : FutureId → Role} {m m' : Loop} {said : Bytes} {t u : TaskId} {f : FutureId} {root called r : Routine}
  {F : Frame} {stack : List Frame} {o : Ending} {x : ChildTransport}

/-! ## Steps of the loop -/

theorem gateResumed_handles (t : TransportId) (call : Call) (fails : Bool) (w : FutureId) (o : Ending) (m : Loop) :
    Handles quiet .errors m (gateResumed t call fails w o m).1 ∧ ∃ o', (gateResumed t call fails w o m).2 = .done o' := by
  have hgate : Handles quiet .errors m (m.modifyGate t call fun gate => { gate with waiters := gate.waiters.erase w }) :=
    .of_children (.single (.share _ _)) rfl rfl rfl
  unfold Loop.gateResumed Loop.concludeCall
  dsimp only
  split
  · split
    · exact ⟨hgate, _, rfl⟩
    · exact ⟨hgate.trans (.record _ _), _, rfl⟩
  · exact ⟨hgate, _, rfl⟩

theorem startChild_done (t : TransportId) (m : Loop) : ∃ o, (startChild t m).2 = .done o := by
  unfold Loop.startChild
  dsimp only
  split
  · split
    · exact ⟨_, rfl⟩
    · split <;> exact ⟨_, rfl⟩
  · exact ⟨_, rfl⟩

theorem awaitsNew_of_done {a : Move} (h : ∃ o, a = .done o) : m.AwaitsNew a := by
  obtain ⟨o, rfl⟩ := h
  intro f F heq
  cases heq

/-- A transport that has a reader is not idle. -/
theorem Reader.not_idle {th : Option (Thread Routine Frame Value Failure)} (h : Reader u m said th) (hp : Posture x m) :
    x.phase ≠ .idle := fun hx => hp.idle hx h.made

namespace Flow

/-- The reader of a child that was made to read. -/
theorem reader (h : Flow m said) (hu : m.routine? u = some (.readOutput 0 0)) : Reader u m said (m.thread? u) := by
  rcases h.stage with hnone | ⟨v, hr⟩
  · exact absurd hu hnone.readers
  · cases hr.one hu
    exact hr

/-- To launch a child keeps the flow: it has a reader now. -/
theorem launches {s : Loop × Move} (h : Flow m said) (hf : Fits role m .transport) {run : Running Routine Frame Value Failure}
    (runs : m.running = some run) (hd : Deed role role' m run.task root called stack s .transport)
    (hf' : Fits role' (s.1.perform run.task stack s.2) .transport) (hl : Launched m s.1 said) (hnew : m.AwaitsNew s.2) :
    Flow (s.1.perform run.task stack s.2) said := by
  have he := hl.effect.extends
  have hsound := hl.effect.sound (fun h => h) h.sound
  refine h.perform hf runs hd hf' he hsound hnew (fun hu => (hl.errands hu).elim h.errands id) hl.tame (.inr ⟨m.tasks.size, ?_⟩)
  have hne : m.tasks.size ≠ run.task := by
    obtain ⟨task, htask, -⟩ := Option.map_eq_some_iff.mp hd.made
    exact Nat.ne_of_gt (Array.getElem?_eq_some_iff.mp htask).1
  obtain ⟨task, htask, hroutine⟩ := Option.map_eq_some_iff.mp hl.reader
  have hth := he.thread?_new h.sound.owned hsound (Nat.le_refl _) htask fun y hy => (h.sound.running hy).lt_size
  have hfree : ¬ s.1.IsHeld m.tasks.size := by
    rintro ⟨task', htask', hheld⟩
    exact (he.spawned (Nat.le_refl _) htask').2.2.2 hheld
  rw [hd.switch.other hne, hth, hroutine]
  exact ⟨hl.reader, hl.one, hfree, hl.few, .fresh hl.taken⟩

/-- What begins keeps the flow. -/
theorem begins (h : Flow m said) (hp : Posture x m) (hf : Fits role m .transport) (runs : m.running = some (.begin t r stack))
    (stands : r.StandsFor called) (hd : Deed role role' m t root called stack (begin r m) .transport)
    (hf' : Fits role' ((begin r m).1.perform t stack (begin r m).2) .transport)
    (hclean : IsClean m.state.settings.encoding said) (hbroken : (m.streamOf 0 .output).broken = none) :
    Flow ((begin r m).1.perform t stack (begin r m).2) said := by
  have hth : m.thread? t = some ⟨.begins r, stack⟩ := thread?_of_running runs
  cases h.errands hd.made with
  | readOutput =>
    have hr := h.reader hd.made
    have hprogress := hr.progress
    rw [hth] at hprogress
    exact h.reads hf runs hd hf' hr (hprogress.begins_on h.tame hclean hbroken)
  | drainErrors =>
    obtain ⟨rfl, rfl⟩ := hd.stacked.under_drainErrors
    cases stands
    obtain ⟨hh, hnew⟩ := drainLines_handles 0 ((m.streamOf 0 .errors).buffer.length + 1) m
    exact h.others hf runs hd hf' hh hnew Routine.noConfusion (.inr (hh.unmoved (.drainLines 0 _ m)))
  | start =>
    obtain ⟨rfl, rfl⟩ := hd.stacked.under_start
    cases stands
    have heq : begin (.start 0) m = startChild 0 m := hp.start_eq
    rw [heq] at hd hf' ⊢
    have hnew : m.AwaitsNew (startChild 0 m).2 := awaitsNew_of_done (startChild_done 0 m)
    rcases hp.startChild with hsame | ⟨hidle, -⟩
    · have hh : Handles quiet .errors m (startChild 0 m).1 := by
        rw [hsame]
        exact .refl _ m
      refine h.others hf runs hd hf' hh hnew Routine.noConfusion (.inr (.of_state (by rw [hsame])))
    · have hnone : Unlaunched m said := h.stage.resolve_right fun ⟨u, hr⟩ => hr.not_idle hp hidle
      rcases hnone.startChild hp hidle h.tame hf.receiver with ⟨hh, hnone'⟩ | hl
      · exact h.others hf runs hd hf' hh hnew Routine.noConfusion (.inl hnone')
      · exact h.launches hf runs hd hf' hl hnew

/-- What goes on keeps the flow. -/
theorem resumes (h : Flow m said) (hf : Fits role m .transport) (runs : m.running = some (.resume t o (F :: stack)))
    (serves : F.Serves m.routine? called) (hd : Deed role role m t root called stack (resume F o m) .transport)
    (hf' : Fits role ((resume F o m).1.perform t stack (resume F o m).2) .transport)
    (hclean : IsClean m.state.settings.encoding said) (hbroken : (m.streamOf 0 .output).broken = none) :
    Flow ((resume F o m).1.perform t stack (resume F o m).2) said := by
  have hth : m.thread? t = some ⟨.resumes o, F :: stack⟩ := thread?_of_running runs
  cases h.errands hd.made with
  | readOutput =>
    have hr := h.reader hd.made
    have hprogress := hr.progress
    rw [hth] at hprogress
    exact h.reads hf runs hd hf' hr (hprogress.resumes_on hclean hbroken)
  | drainErrors =>
    obtain ⟨rfl, rfl⟩ := hd.stacked.under_drainErrors
    cases serves.of_drainErrors
    obtain ⟨hh, hnew⟩ := drainResumed_handles m 0 o
    exact h.others hf runs hd hf' hh hnew Routine.noConfusion (.inr (hh.unmoved (.drainResumed m 0 o)))
  | start =>
    obtain ⟨rfl, rfl⟩ := hd.stacked.under_start
    obtain ⟨fails, w, rfl⟩ := serves.of_start
    obtain ⟨hh, hdone⟩ := gateResumed_handles 0 .start fails w o m
    exact h.others hf runs hd hf' hh (awaitsNew_of_done hdone) Routine.noConfusion
      (.inr (hh.unmoved (.gateResumed m 0 .start fails w o)))

/-- **Every step of the loop keeps the flow.** -/
theorem tick (h : Flow m said) (hp : Posture x m) (hf : Fits role m .transport) (hq : m.isQuiet = false)
    (hclean : IsClean m.state.settings.encoding said) (hbroken : (m.streamOf 0 .output).broken = none) :
    Flow (m.tick program) said := by
  cases hrun : m.running with
  | none =>
    refine h.turn hf hrun fun hnil => ?_
    simp [isQuiet, hrun, hnil] at hq
  | some run =>
    obtain ⟨role', hstride, hf'⟩ := hf.stride hq
    generalize htick : m.tick program = m' at hstride hf' ⊢
    cases hstride with
    | awakes idle => cases hrun.symm.trans idle
    | passes idle => cases hrun.symm.trans idle
    | @ends _ t o runs =>
      have heq : m.tick program = m.endTask t o := by simp [Machine.tick, runs]
      rw [← htick, heq]
      exact h.ends hf runs
    | begins runs _ stands deed => exact h.begins hp hf runs stands deed hf' hclean hbroken
    | resumes runs serves _ _ deed => exact h.resumes hf runs serves deed hf' hclean hbroken

end Flow

end Loop

end DiagnosticsClient
