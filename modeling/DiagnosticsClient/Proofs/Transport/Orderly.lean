import DiagnosticsClient.Proofs.Transport.Postures
/-
That a transport is silent once it is stopped.

Whoever reads is doomed once the transport is stopped, or is the next that its stop
will cancel; and only a stopped transport has its tasks ended (`Orderly`). Whatever the
running task does keeps a transport orderly, and from the beginning of a stop on
nothing is passed on and nothing is written (`Onward`).
-/
namespace DiagnosticsClient

open Async Async.Machine

/-- A thread that has the tasks of a transport ended. -/
def Thread.isEnding (th : Thread Routine Frame Value Failure) : Bool :=
  match th.top, th.stack with
  | .begins (.endTasks ..), _ => true
  | _, .ending .. :: _ => true
  | _, _ => false

namespace Loop

variable {role role' : FutureId → Role} {m m' : Loop} {x x' : ChildTransport} {t u : TaskId} {root called r : Routine}
  {F : Frame} {stack : List Frame} {s : Loop × Move} {o : Ending} {c : ChildId} {f : FutureId}

/-- A task that is to be cancelled now. -/
def IsNext (m : Loop) (u : TaskId) : Prop := ∃ v us stack, m.running = some (.begin v (.endTasks 0 (u :: us)) stack)

/-- Only a stopped transport has its tasks ended, and then whoever reads is doomed or the next to be cancelled. -/
structure Orderly (x : ChildTransport) (m : Loop) : Prop extends Posture x m where
  ending : ∀ {u : TaskId} {th : Thread Routine Frame Value Failure}, m.thread? u = some th → Thread.isEnding th = true →
    x.phase = .stopped
  stopped : x.phase = .stopped → ∀ {u : TaskId} {c : ChildId}, m.routine? u = some (.readOutput 0 c) →
    m.Doomed u ∨ m.IsNext u

theorem Posture.of_same (h : Posture x m) (hs : m'.state = m.state) (hr : ∀ u, m'.routine? u = m.routine? u) :
    Posture x m' where
  driven := by rw [hs, h.driven]
  chores hu := h.chores (hr _ ▸ hu)
  trace := by rw [hs]; exact h.trace
  idle hx _ _ hu := h.idle hx (hr _ ▸ hu)
  reads hx _ _ hu := h.reads hx (hr _ ▸ hu)

/-- Who reads the output of a child waits for plain futures. -/
theorem Fits.isPlain_of_reading {usage : Usage} {t : TransportId} {s : List Frame} (hf : Fits role m usage)
    (hu : m.routine? u = some (.readOutput t c)) (hth : m.thread? u = some ⟨.waits f, s⟩) : m.IsPlain f := by
  obtain ⟨root, hroot, hfits⟩ := hf.threads hth
  cases hroot.symm.trans hu
  have hreading := hfits.reading
  cases hfits with
  | waits hs ha h =>
    cases hreading with
    | waits => cases ha; rename_i h; exact h.1
    | exits => cases ha; rename_i h; exact h.1

/-- Only a stop has the tasks of a transport ended. -/
theorem MoveFits.stop_of_isEnding {n : Nat} {a : Move} (hm : MoveFits role m n called a) (hd : called.IsDuty)
    (hs : Stacked m.routine? root called stack) (h : Thread.isEnding (m.nextThread stack a) = true) :
    ∃ t, called = .stop t := by
  cases hm with
  | done =>
    cases hs with
    | nil => cases h
    | cons hc => cases hc <;> cases h
  | call hc => cases hc <;> cases h
  | become hr =>
    cases hr with
    | endTasks t => exact ⟨t, rfl⟩
    | exchange hx =>
      cases hs with
      | nil => cases h
      | cons hc => cases hc; cases h
    | refl =>
      cases hs with
      | nil => cases hd with
        | chore hd => cases hd <;> cases h
        | within => cases h
        | cancelAndWait => cases h
      | cons hc => cases hc <;> cases h
  | await hf ha =>
    cases hf with
    | ending => exact ⟨_, rfl⟩
    | _ =>
      unfold nextThread at h
      dsimp only at h
      split at h <;> cases h

/-! ## What leaves a transport alone -/

/-- What begins, but for a start, a stop or a reading, leaves transports alone. -/
theorem Passes.begin (m : Loop) (hd : r.IsDuty) (hstart : r ≠ .start 0) (hstop : r ≠ .stop 0)
    (hread : r.isReading = false) : Passes [] m (begin r m).1 := by
  cases hd with
  | chore h =>
    cases h with
    | start => exact absurd rfl hstart
    | stop => exact absurd rfl hstop
    | readOutput c => cases hread
    | drainErrors c => exact .drainLines c _ m
    | awaitExit c => exact .awaitExit m c
  | within limit c => exact .within m limit c
  | cancelAndWait u => exact .cancelAndWait m u

/-- What goes on, but for a reading, leaves transports alone. -/
theorem Passes.resume (m : Loop) (hs : F.Serves m.routine? called) (hd : called.IsDuty) (hread : called.isReading = false)
    (o : Ending) : Passes [] m (resume F o m).1 := by
  cases hs with
  | gatedStart t fails w => exact .gateResumed m t .start fails w o
  | gatedStop t fails w => exact .gateResumed m t .stop fails w o
  | ending => cases o <;> exact .refl m
  | terminating c => exact .terminateResumed m c o
  | killing c => exact .killResumed m c o
  | timing w limit => exact .timeResumed m _ w o
  | overdue => cases o <;> exact .refl m
  | lapsed => cases o <;> exact .of_tasks rfl rfl
  | abandoned => cases o <;> exact .of_tasks rfl rfl
  | cancelWaiting => exact .of_tasks rfl rfl
  | exiting => exact .refl m
  | draining c => exact .drainResumed m c o
  | reading => cases hread
  | outputEnded => cases hread
  | finishing h => cases h <;> (cases hd; rename_i h; cases h)
  | introducing h => cases h <;> (cases hd; rename_i h; cases h)
  | expecting h => cases h <;> (cases hd; rename_i h; cases h)
  | _ => cases hd; rename_i h; cases h

/-- Whoever reads and is cancelled passes nothing on. -/
theorem cancelled_reading {t' : TransportId} (h : Reading t' c ⟨.resumes .cancelled, F :: stack⟩) (m : Loop) :
    Passes [] m (resume F .cancelled m).1 ∧ (resume F .cancelled m).2 = .done .cancelled := by
  cases h with
  | resumes => exact ⟨.modifyStream m c .output fun s => { s with waiter := none }, rfl⟩
  | exited => exact ⟨.refl m, rfl⟩
  | concludes => exact ⟨.refl m, rfl⟩

/-- Whoever begins to read passes values on, and perhaps the end. -/
theorem Runs.begins_reading (hr : m.Runs) (h : Reading 0 c ⟨.begins r, stack⟩) :
    Passes [] m (begin r m).1 ∨ stack = [] ∧ Reads m (begin r m) := by
  cases h with
  | begins => exact .inr ⟨rfl, hr.readChunks _ _⟩
  | asks => exact .inl (.awaitExit m c)

/-- Whoever goes on reading passes values on, and perhaps the end. -/
theorem Runs.resumes_reading (hr : m.Runs) (h : Reading 0 c ⟨.resumes o, F :: stack⟩) :
    Passes [] m (resume F o m).1 ∨ stack = [] ∧ Reads m (resume F o m) := by
  cases h with
  | resumes => exact .inr ⟨rfl, hr.readResumed _ _⟩
  | exited => exact .inl (.refl m)
  | concludes => exact .inr ⟨rfl, hr.outputResumed _ _⟩

/-! ## Steps of the running task -/

/-- Nothing is passed on, and nothing is written. -/
structure Silent (m m' : Loop) : Prop where
  tidings : m'.state.tidings = m.state.tidings
  writes : m'.state.writes = m.state.writes

theorem Silent.of_state (h : m'.state = m.state) : Silent m m' := ⟨by rw [h], by rw [h]⟩

theorem Stays.silent (h : Stays m m') : Silent m m' := ⟨h.tidings, h.writes⟩

/-- Whoever is doomed stays so, whatever the running task does at once. -/
theorem Deed.doomed {usage : Usage} (hd : Deed role role' m t root called stack s usage) (hu : m.routine? u = some r)
    (h : m.Doomed u) : s.1.Doomed u := by
  obtain ⟨task, htask, -⟩ := Option.map_eq_some_iff.mp hu
  exact h.extends hd.does.effect.extends hd.fits.tidy.sound hd.does.effect.isHeld (Array.getElem?_eq_some_iff.mp htask).1

/-- What leaves transports alone is silent. -/
theorem Deed.silent {usage : Usage} (hd : Deed role role' m t root called stack s usage) (hp : Passes [] m s.1) :
    Silent m (s.1.perform t stack s.2) :=
  ⟨by rw [hd.switch.state, hp.stays.tidings], by rw [hd.switch.state, hp.stays.writes]⟩

/-- Nothing but a stop has the tasks of a transport ended. -/
theorem Deed.not_isEnding {usage : Usage} (hd : Deed role role' m t root called stack s usage) (hduty : called.IsDuty)
    (hcalled : ∀ t', called ≠ .stop t') : Thread.isEnding (s.1.nextThread stack s.2) = false := by
  refine Bool.eq_false_iff.mpr fun hend => ?_
  obtain ⟨t', hstop⟩ := hd.does.move.stop_of_isEnding hduty (hd.stacked.mono hd.does.effect.extends.routine?) hend
  exact hcalled t' hstop

/-- The stop of the transport begins. -/
def Stops (m : Loop) : Prop := ∃ t stack, m.running = some (.begin t (.stop 0) stack)

/-- A transport stays orderly, and if it is stopped or its stop begins, it is silent and stopped from then on. -/
def Onward (x : ChildTransport) (m m' : Loop) : Prop :=
  ∃ x', Orderly x' m' ∧ (x.phase = .stopped ∨ m.Stops → x'.phase = .stopped ∧ Silent m m')

namespace Orderly

/-- A transport is orderly after what the running task does, if it has its posture, if its tasks are ended only once it is
stopped, and if whoever reads is doomed by then or is the next to be cancelled. -/
theorem perform (ho : Orderly x m) (hf : Fits role m .transport) (hd : Deed role role' m t root called stack s .transport)
    (hp : Posture x' s.1) (hx : x.phase = .stopped → x'.phase = .stopped)
    (hending : Thread.isEnding (s.1.nextThread stack s.2) = true → x'.phase = .stopped)
    (hreads : x'.phase = .stopped → ∀ {u c}, s.1.routine? u = some (.readOutput 0 c) →
      u = t ∧ DoomedAt (s.1.perform t stack s.2) t (s.1.nextThread stack s.2) ∨ u ≠ t ∧ s.1.Doomed u ∨
      ∃ us, s.2 = .become (.endTasks 0 (u :: us))) : Orderly x' (s.1.perform t stack s.2) where
  toPosture := hp.of_same hd.switch.state hd.switch.routine
  ending {u th} hth hend := by
    by_cases hu : u = t
    · subst hu
      rw [hd.switch.self] at hth
      cases hth
      exact hending hend
    · rcases hd.thread_other hf hu hth with hold | ⟨r, -, -, rfl⟩
      · exact hx (ho.ending hold hend)
      · cases hend
  stopped hx' u c hu := by
    rw [hd.switch.routine] at hu
    rcases hreads hx' hu with ⟨rfl, hdoom⟩ | ⟨hne, hdoom⟩ | ⟨us, hbecome⟩
    · refine .inl fun th hth => ?_
      rw [hd.switch.self] at hth
      cases hth
      exact hdoom
    · exact .inl (hdoom.switch hd.switch hne fun hth => hd.fits.isPlain_of_reading hu hth)
    · refine .inr ⟨t, us, stack, ?_⟩
      rw [hbecome]
      rfl

/-- A transport stays orderly while values are passed on, unless it is stopped and one of those goes on that may have its
tasks ended. -/
theorem keeps (ho : Orderly x m) (hf : Fits role m .transport) (hd : Deed role role' m t root called stack s .transport)
    {vs : List Json} (hp : Passes vs m s.1) (hv : vs = [] ∨ x.phase ≠ .stopped) (hnext : ∀ u, ¬ m.IsNext u)
    (hending : Thread.isEnding (s.1.nextThread stack s.2) = true → x.phase = .stopped)
    (hself : x.phase = .stopped → ∀ c, root = .readOutput 0 c →
      DoomedAt (s.1.perform t stack s.2) t (s.1.nextThread stack s.2)) : Orderly x (s.1.perform t stack s.2) := by
  refine ho.perform hf hd (ho.toPosture.passes hp hv) id hending fun hx u c hu => ?_
  have hold := Posture.not_reads hp.made hu
  by_cases hut : u = t
  · subst hut
    exact .inl ⟨rfl, hself hx c (Option.some.inj (hd.made.symm.trans hold))⟩
  · exact .inr (.inl ⟨hut, hd.doomed hold ((ho.stopped hx hold).resolve_right (hnext u))⟩)

/-- Only who is made to read has a reading to do, and the others are as they were. -/
theorem goesOnReading (ho : Orderly x m) (hf : Fits role m .transport) (hd : Deed role role' m t (.readOutput 0 c) called stack s .transport)
    (hrun : x.phase = .running) (hnext : ∀ u, ¬ m.IsNext u) (hr : Passes [] m s.1 ∨ stack = [] ∧ Reads m s)
    (hending : Thread.isEnding (s.1.nextThread stack s.2) = true → x.phase = .stopped) :
    ∃ x', Orderly x' (s.1.perform t stack s.2) := by
  have hne : x.phase ≠ .stopped := by rw [hrun]; exact Phase.noConfusion
  have hpass : ∀ {vs}, Passes vs m s.1 → ∃ x', Orderly x' (s.1.perform t stack s.2) := fun hp =>
    ⟨x, ho.keeps hf hd hp (.inr hne) hnext hending fun hx => absurd hx hne⟩
  rcases hr with hp | ⟨rfl, hp | ⟨hc, hdone⟩⟩
  · exact hpass hp
  · exact hpass hp
  · refine ⟨_, ho.perform hf hd (ho.toPosture.closes hc hrun) (fun _ => rfl) (fun _ => rfl) fun _ u c' hu => ?_⟩
    -- whoever reads is the one that does so now, and is at its end
    have hself := ho.reads hrun (Posture.not_reads hc.made hu)
    rw [ho.reads hrun hd.made] at hself
    cases hself
    refine .inl ⟨rfl, ?_⟩
    rw [hdone]
    exact .inr rfl

end Orderly

/-! ## Starting -/

theorem Passes.addChild (m : Loop) (manner : Manner) : Passes [] m (m.addChild manner).1 :=
  .modify m (fun s => { s with children := s.children ++ [_] }) rfl rfl rfl

theorem Passes.launch (m : Loop) : Passes [] m m.launch.1 := by
  have hnext : ∀ launches e, Passes [] m ((m.modify fun s => { s with launches }).record (.launched e)) := fun launches e =>
    (Passes.modify m _ rfl rfl rfl).trans (.record _ rfl)
  unfold Loop.launch
  dsimp only
  split
  · exact hnext _ _
  · exact (hnext _ _).trans (.addChild _ _)

/-- An idle transport that is told of a child and has it read from runs, and has its one reader. -/
theorem Posture.runs (h : Posture x m) (hidle : x.phase = .idle) (c : ChildId) :
    let m₁ := m.modifyTransport 0 fun x => { x with phase := .running, child := some c }
    let m₂ : Loop := (m₁.spawn (.readOutput 0 c)).1
    let m₃ : Loop := (m₂.spawn (.drainErrors c)).1
    ∃ x', x'.phase = .running ∧
      Posture x' (m₃.modifyTransport 0 fun x => { x with reader := some m₁.tasks.size, drain := some m₂.tasks.size }) := by
  intro m₁ m₂ m₃
  have hd : m₃.state.driven 0 = some { x with phase := .running, child := some c } := by
    rw [show m₃.state.driven 0 = _ from State.driven_modifyChildTransport m.state 0 0 _, if_pos rfl, h.driven]
    rfl
  have hroutine : ∀ {u r}, m₃.routine? u = some r →
      m.routine? u = some r ∨ u = m₁.tasks.size ∧ r = .readOutput 0 c ∨ r = .drainErrors c := by
    intro u r hr
    rw [routine?_spawn] at hr
    split at hr
    · exact .inr (.inr (Option.some.inj hr).symm)
    · rw [routine?_spawn] at hr
      split at hr
      · exact .inr (.inl ⟨‹_›, (Option.some.inj hr).symm⟩)
      · exact .inl hr
  refine ⟨{ x with phase := .running, child := some c, reader := some m₁.tasks.size, drain := some m₂.tasks.size }, rfl, ?_, ?_, ?_,
    ?_, ?_⟩
  · rw [show (m₃.modifyTransport 0 _).state.driven 0 = _ from State.driven_modifyChildTransport m₃.state 0 0 _, if_pos rfl, hd]
    rfl
  · intro u r hr
    rcases hroutine hr with hr | ⟨-, rfl⟩ | rfl
    · exact h.chores hr
    · exact .readOutput c
    · exact .drainErrors c
  · obtain ⟨vs, last, rfl | ⟨hx, -⟩, ht⟩ := h.trace
    · exact ⟨vs, [], .inl rfl, ht⟩
    · rw [hidle] at hx
      cases hx
  · intro hx
    cases hx
  · intro _ u c' hr
    rcases hroutine hr with hr | ⟨rfl, -⟩ | heq
    · exact absurd hr (h.idle hidle)
    · rfl
    · cases heq

/-- To start a transport leaves it alone unless it is idle; then it is stopped with nobody who reads, or it runs and has its
one reader. -/
theorem Posture.startChild (h : Posture x m) : (startChild 0 m).1 = m ∨ x.phase = .idle ∧ ∃ x', Posture x' (startChild 0 m).1 ∧
    (x'.phase = .stopped → ∀ {u c}, (startChild 0 m).1.routine? u ≠ some (.readOutput 0 c)) := by
  unfold Loop.startChild
  dsimp only
  rw [h.childTransport]
  cases hphase : x.phase with
  | running => exact .inl rfl
  | stopped => exact .inl rfl
  | idle =>
    refine .inr ⟨rfl, ?_⟩
    -- a start that fails stops the transport
    have hfails : ∀ m' : Loop, Passes [] m m' → ∃ x', Posture x' (m'.setPhase 0 .stopped) ∧
        (x'.phase = .stopped → ∀ {u c}, (m'.setPhase 0 .stopped).routine? u ≠ some (.readOutput 0 c)) := by
      intro m' hp
      have h' := h.passes hp (.inl rfl)
      exact ⟨_, h'.stops (driven_setPhase h'.driven .stopped) rfl rfl .inl, fun _ _ _ hu => h'.idle hphase hu⟩
    dsimp only
    split
    · exact hfails m (.refl m)
    · have hlaunch := Passes.launch m
      split <;> rename_i hm <;> rw [hm] at hlaunch
      · exact hfails _ hlaunch
      · obtain ⟨x', hx', hruns⟩ := (h.passes hlaunch (.inl rfl)).runs hphase _
        refine ⟨x', hruns.passes (.note _ _ Level.noConfusion) (.inl rfl), fun hstop => ?_⟩
        rw [hx'] at hstop
        cases hstop

theorem not_isNext_of_resume {frames : List Frame} (runs : m.running = some (.resume t o frames)) (u : TaskId) : ¬ m.IsNext u := by
  rintro ⟨v, us, stack', hnext⟩
  cases runs.symm.trans hnext

theorem not_stops_of_resume {frames : List Frame} (runs : m.running = some (.resume t o frames)) : ¬ m.Stops := by
  rintro ⟨v, stack', hstop⟩
  cases runs.symm.trans hstop

/-- Whoever reads while the transport is stopped is at its end, or goes on as cancelled. -/
theorem Orderly.doomedAt (ho : Orderly x m) (hx : x.phase = .stopped) (hread : m.routine? t = some (.readOutput 0 c))
    (hnext : ¬ m.IsNext t) {run : Running Routine Frame Value Failure} (hr : m.running = some run) (ht : run.task = t) :
    m.DoomedAt t run.thread :=
  (ho.stopped hx hread).resolve_right hnext _ (ht ▸ thread?_of_running hr)

/-- Whoever has waited at a gate has done with it. -/
theorem gateResumed_done (m : Loop) (t : TransportId) (call : Call) (fails : Bool) (w : FutureId) (o : Ending) :
    ∃ o', (gateResumed t call fails w o m).2 = .done o' := by
  unfold gateResumed concludeCall
  dsimp only
  split
  · split <;> exact ⟨_, rfl⟩
  · exact ⟨_, rfl⟩

/-- Who ends the tasks of a transport after a wait was at it before. -/
theorem ending_of_isEnding {roots : TaskId → Option Routine} {t : TransportId} (hs : F.Serves roots (.stop t))
    (h : Thread.isEnding (nextThread m' [] (resume F o m).2) = true) : ∃ t tasks, F = .ending t tasks := by
  cases hs with
  | ending => exact ⟨_, _, rfl⟩
  | gatedStop _ fails w =>
    obtain ⟨o', hdone⟩ := gateResumed_done m t .stop fails w o
    rw [show (resume (.gated t .stop fails w) o m).2 = .done o' from hdone] at h
    cases h
  | terminating =>
    unfold resume terminateResumed at h
    dsimp only at h
    split at h <;> cases h
  | killing =>
    unfold resume killResumed at h
    dsimp only at h
    split at h <;> cases h
  | finishing h => cases h
  | introducing h => cases h
  | expecting h => cases h

/-- What goes on keeps a transport orderly. -/
theorem Orderly.resumes (ho : Orderly x m) (hf : Fits role m .transport) (runs : m.running = some (.resume t o (F :: stack)))
    (hs : F.Serves m.routine? called) (hd : Deed role role m t root called stack (resume F o m) .transport) :
    Onward x m ((resume F o m).1.perform t stack (resume F o m).2) := by
  have hnext := not_isNext_of_resume runs
  have hduty := hd.stacked.duty (ho.chores hd.made)
  have hth : m.thread? t = some ⟨.resumes o, F :: stack⟩ := thread?_of_running runs
  have hending : Thread.isEnding (nextThread (resume F o m).1 stack (resume F o m).2) = true → x.phase = .stopped := by
    intro hend
    obtain ⟨t', rfl⟩ := hd.does.move.stop_of_isEnding hduty (hd.stacked.mono hd.does.effect.extends.routine?) hend
    obtain ⟨-, rfl⟩ := hd.stacked.root_of_stop (ho.chores hd.made)
    obtain ⟨_, _, rfl⟩ := ending_of_isEnding hs hend
    exact ho.ending hth rfl
  by_cases hread : ∃ c, root = .readOutput 0 c
  · obtain ⟨c, rfl⟩ := hread
    obtain ⟨_, hroot, hfits⟩ := hf.threads hth
    cases hroot.symm.trans hd.made
    have hreading := hfits.reading
    cases hphase : x.phase with
    | idle => exact absurd hd.made (ho.idle hphase)
    | running =>
      have hruns : m.Runs := ⟨hf.receiver, x, ho.driven, hphase⟩
      obtain ⟨x', ho'⟩ := ho.goesOnReading hf hd hphase hnext (hruns.resumes_reading hreading) hending
      refine ⟨x', ho', fun hstop => ?_⟩
      rcases hstop with hstop | hstop
      · cases hphase.symm.trans hstop
      · exact absurd hstop (not_stops_of_resume runs)
    | stopped =>
      have hdoom : o = .cancelled := by
        rcases ho.doomedAt hphase hd.made (hnext t) runs rfl with h | h
        · exact h
        · cases h
      subst hdoom
      obtain ⟨hp, hdone⟩ := cancelled_reading hreading m
      refine ⟨x, ho.keeps hf hd hp (.inl rfl) hnext hending fun _ c hc => ?_, fun _ => ⟨hphase, hd.silent hp⟩⟩
      rw [hdone]
      exact .inl rfl
  · have hp := Passes.resume m hs hduty (Bool.eq_false_iff.mpr fun hreads => hread ?_) o
    · refine ⟨x, ho.keeps hf hd hp (.inl rfl) hnext hending fun _ c hc => absurd ⟨c, hc⟩ hread, fun hstop => ?_⟩
      exact ⟨hstop.resolve_right (not_stops_of_resume runs), hd.silent hp⟩
    · cases called with
      | readOutput t' c =>
        obtain ⟨rfl, -⟩ := hd.stacked.of_readOutput
        cases ho.chores hd.made
        exact ⟨c, rfl⟩
      | _ => cases hreads

theorem Posture.start_eq (h : Posture x m) : start 0 m = Loop.startChild 0 m := by
  have hd := h.driven
  unfold Loop.start
  split
  · next hr => simp [State.driven, hr] at hd
  · rfl

theorem Posture.stop_eq (h : Posture x m) : stop 0 m = stopChild 0 m := by
  have hd := h.driven
  unfold Loop.stop
  split
  · next hr => simp [State.driven, hr] at hd
  · rfl

namespace Orderly

/-- A start keeps a transport orderly. -/
theorem start (ho : Orderly x m) (hf : Fits role m .transport) (hd : Deed role role' m t root called stack s .transport)
    (hs : s.1 = (startChild 0 m).1) (hnext : ∀ u, ¬ m.IsNext u) (hread : ∀ c, root ≠ .readOutput 0 c)
    (hending : Thread.isEnding (s.1.nextThread stack s.2) = false) :
    ∃ x', Orderly x' (s.1.perform t stack s.2) ∧
      (x.phase = .stopped → x'.phase = .stopped ∧ Silent m (s.1.perform t stack s.2)) := by
  have hend : ∀ {p : Prop}, Thread.isEnding (s.1.nextThread stack s.2) = true → p := fun h => by
    rw [hending] at h
    cases h
  rcases ho.toPosture.startChild with hsame | ⟨hidle, x', hp, hnone⟩
  · have hp : Passes [] m s.1 := by
      rw [hs, hsame]
      exact .refl m
    exact ⟨x, ho.keeps hf hd hp (.inl rfl) hnext hend fun _ c hc => absurd hc (hread c),
      fun hx => ⟨hx, .of_state (hd.switch.state.trans (by rw [hs, hsame]))⟩⟩
  · have hne : x.phase ≠ .stopped := by rw [hidle]; exact Phase.noConfusion
    rw [← hs] at hp hnone
    exact ⟨x', ho.perform hf hd hp (fun hx => absurd hx hne) hend fun hx u c hu => absurd hu (hnone hx),
      fun hx => absurd hx hne⟩

/-- A stop keeps a transport orderly, and stops it. -/
theorem stop (ho : Orderly x m) (hf : Fits role m .transport)
    (hd : Deed role role' m t root called stack (stopChild 0 m) .transport) (hnext : ∀ u, ¬ m.IsNext u)
    (hread : ∀ c, root ≠ .readOutput 0 c) :
    ∃ x', Orderly x' ((stopChild 0 m).1.perform t stack (stopChild 0 m).2) ∧ x'.phase = .stopped ∧
      Silent m ((stopChild 0 m).1.perform t stack (stopChild 0 m).2) := by
  have hs : (stopChild 0 m).1 = m.setPhase 0 .stopped := by
    unfold stopChild
    dsimp only
    split <;> rfl
  refine ⟨{ x with phase := .stopped }, ho.perform hf hd ?_ (fun _ => rfl) (fun _ => rfl) fun _ u c hu => ?_, rfl, ?_⟩
  · rw [hs]
    exact ho.toPosture.stops (driven_setPhase ho.driven .stopped) rfl rfl .inl
  · rw [hs] at hu
    have hu' : m.routine? u = some (.readOutput 0 c) := hu
    cases hphase : x.phase with
    | idle => exact absurd hu' (ho.idle hphase)
    | running =>
      -- the one who reads is the first to be cancelled
      refine .inr (.inr ⟨x.drain.toList, ?_⟩)
      unfold stopChild
      simp only [ho.toPosture.childTransport, hphase, ho.reads hphase hu', reduceCtorEq, if_false, Option.toList_some,
        List.singleton_append]
    | stopped =>
      refine .inr (.inl ⟨?_, hd.doomed hu' ((ho.stopped hphase hu').resolve_right (hnext u))⟩)
      rintro rfl
      exact hread c (Option.some.inj (hd.made.symm.trans hu'))
  · exact ⟨by rw [hd.switch.state, hs]; rfl, by rw [hd.switch.state, hs]; rfl⟩

/-- To end the tasks of a transport keeps it orderly: the next one who reads is cancelled, or has ended. -/
theorem endTasks (ho : Orderly x m) (hf : Fits role m .transport) {us : List TaskId}
    (runs : m.running = some (.begin t (.endTasks 0 us) stack))
    (hd : Deed role role' m t root called stack (endTasks 0 us m) .transport) (hread : ∀ c, root ≠ .readOutput 0 c) :
    ∃ x', Orderly x' ((Loop.endTasks 0 us m).1.perform t stack (Loop.endTasks 0 us m).2) ∧ x'.phase = .stopped ∧
      Silent m ((Loop.endTasks 0 us m).1.perform t stack (Loop.endTasks 0 us m).2) := by
  have hx : x.phase = .stopped := ho.ending (thread?_of_running runs) rfl
  have hstays := endTasks_stays m us
  obtain ⟨x', hp, hx'⟩ := ho.toPosture.stays hstays hx
  refine ⟨x', ho.perform hf hd hp (fun _ => hx') (fun _ => hx') fun _ u c hu => ?_, hx', ?_⟩
  · have hu' := Posture.not_reads hstays.made hu
    have hut : u ≠ t := by
      rintro rfl
      exact hread c (Option.some.inj (hd.made.symm.trans hu'))
    refine .inr (.inl ⟨hut, ?_⟩)
    rcases ho.stopped hx hu' with hdoom | ⟨v, rest, stack', hnext⟩
    · exact hd.doomed hu' hdoom
    · cases runs.symm.trans hnext
      have hidle : ∀ y, m.running = some y → y.task ≠ u := fun y hy => by
        cases runs.symm.trans hy
        exact hut.symm
      cases hended : m.hasEnded u with
      | true =>
        refine hd.doomed hu' fun th hth => ?_
        rw [hasEnded, hf.tidy.sound.taskOutcome?_of_thread? hth] at hended
        cases hended
      | false =>
        obtain ⟨task, htask, -⟩ := Option.map_eq_some_iff.mp hu'
        have hone : (Loop.endTasks 0 (u :: rest) m).1 = (m.cancelTask u).1 := by
          unfold Loop.endTasks
          rw [hended]
          rfl
        rw [hone]
        exact doomed_of_cancelTask hf.tidy.sound (Array.getElem?_eq_some_iff.mp htask).1 hidle
          fun hth => hf.isPlain_of_reading hu' hth
  · exact ⟨by rw [hd.switch.state, hstays.tidings], by rw [hd.switch.state, hstays.writes]⟩

end Orderly

/-- Whoever begins to read keeps a transport orderly. -/
theorem Orderly.begins_reading (ho : Orderly x m) (hf : Fits role m .transport) (runs : m.running = some (.begin t r stack))
    (hd : Deed role role' m t (.readOutput 0 c) called stack (begin r m) .transport) :
    Onward x m ((begin r m).1.perform t stack (begin r m).2) := by
  obtain ⟨_, hroot, hfits⟩ := hf.threads (thread?_of_running runs)
  cases hroot.symm.trans hd.made
  have hreading := hfits.reading
  have hnext : ∀ u, ¬ m.IsNext u := by
    rintro u ⟨v, us, stack', hnext⟩
    cases runs.symm.trans hnext
    cases hreading
  have hstops : ¬ m.Stops := by
    rintro ⟨v, stack', hstop⟩
    cases runs.symm.trans hstop
    cases hreading
  have hcalled : ∀ t', called ≠ .stop t' := by
    rintro t' rfl
    cases (hd.stacked.root_of_stop (ho.chores hd.made)).1
  cases hphase : x.phase with
  | idle => exact absurd hd.made (ho.idle hphase)
  | running =>
    have hruns : m.Runs := ⟨hf.receiver, x, ho.driven, hphase⟩
    obtain ⟨x', ho'⟩ := ho.goesOnReading hf hd hphase hnext (hruns.begins_reading hreading) fun hend => by
      rw [hd.not_isEnding (hd.stacked.duty (ho.chores hd.made)) hcalled] at hend
      cases hend
    refine ⟨x', ho', fun hstop => ?_⟩
    rcases hstop with hstop | hstop
    · cases hphase.symm.trans hstop
    · exact absurd hstop hstops
  | stopped => exact (ho.doomedAt hphase hd.made (hnext t) runs rfl).elim

/-- What begins as it was called, and does not read, keeps a transport orderly. -/
theorem Orderly.begins_duty (ho : Orderly x m) (hf : Fits role m .transport) (runs : m.running = some (.begin t called stack))
    (hd : Deed role role' m t root called stack (begin called m) .transport) (hread : ∀ c, root ≠ .readOutput 0 c) :
    Onward x m ((begin called m).1.perform t stack (begin called m).2) := by
  have hduty := hd.stacked.duty (ho.chores hd.made)
  have hnext : ∀ u, ¬ m.IsNext u := by
    rintro u ⟨v, us, stack', hnext⟩
    cases runs.symm.trans hnext
    cases hduty with | chore h => cases h
  have hstops : called ≠ .stop 0 → ¬ m.Stops := by
    rintro hne ⟨v, stack', hstop⟩
    cases runs.symm.trans hstop
    exact hne rfl
  by_cases hstart : called = .start 0
  · subst hstart
    have hbegin : begin (.start 0) m = Loop.startChild 0 m := ho.toPosture.start_eq
    obtain ⟨x', ho', hx'⟩ := ho.start hf hd (by rw [hbegin]) hnext hread (hd.not_isEnding hduty fun t' h => by cases h)
    exact ⟨x', ho', fun hstop => hx' (hstop.resolve_right (hstops Routine.noConfusion))⟩
  · by_cases hstop : called = .stop 0
    · subst hstop
      have hbegin : begin (.stop 0) m = stopChild 0 m := ho.toPosture.stop_eq
      rw [hbegin] at hd ⊢
      obtain ⟨x', ho', hx'⟩ := ho.stop hf hd hnext hread
      exact ⟨x', ho', fun _ => hx'⟩
    · have hreads : called.isReading = false := by
        cases called with
        | readOutput t' c =>
          obtain ⟨rfl, -⟩ := hd.stacked.of_readOutput
          cases ho.chores hd.made
          exact absurd rfl (hread c)
        | _ => rfl
      have hcalled : ∀ t', called ≠ .stop t' := by
        rintro t' rfl
        obtain ⟨rfl, -⟩ := hd.stacked.root_of_stop (ho.chores hd.made)
        cases ho.chores hd.made
        exact hstop rfl
      have hp := Passes.begin m hduty hstart hstop hreads
      refine ⟨x, ho.keeps hf hd hp (.inl rfl) hnext (fun hend => ?_) fun _ c hc => absurd hc (hread c), fun hor => ?_⟩
      · rw [hd.not_isEnding hduty hcalled] at hend
        cases hend
      · exact ⟨hor.resolve_right (hstops hstop), hd.silent hp⟩

/-- What begins keeps a transport orderly. -/
theorem Orderly.begins (ho : Orderly x m) (hf : Fits role m .transport) (runs : m.running = some (.begin t r stack))
    (stands : r.StandsFor called) (hd : Deed role role' m t root called stack (begin r m) .transport) :
    Onward x m ((begin r m).1.perform t stack (begin r m).2) := by
  by_cases hread : ∃ c, root = .readOutput 0 c
  · obtain ⟨c, rfl⟩ := hread
    exact ho.begins_reading hf runs hd
  · have hne : ∀ c, root ≠ .readOutput 0 c := fun c hc => hread ⟨c, hc⟩
    cases stands with
    | refl => exact ho.begins_duty hf runs hd hne
    | exchange => cases hd.stacked.duty (ho.chores hd.made) with | chore h => cases h
    | endTasks t' us =>
      obtain ⟨rfl, rfl⟩ := hd.stacked.root_of_stop (ho.chores hd.made)
      cases ho.chores hd.made
      obtain ⟨x', ho', hx', hs⟩ := ho.endTasks hf runs hd hne
      exact ⟨x', ho', fun _ => ⟨hx', hs⟩⟩

end Loop

end DiagnosticsClient
