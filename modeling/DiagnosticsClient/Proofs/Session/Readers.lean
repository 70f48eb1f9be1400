import DiagnosticsClient.Proofs.Session.Courses
import DiagnosticsClient.Proofs.Session.Undertakings
import DiagnosticsClient.Proofs.Session.Wards
import DiagnosticsClient.Proofs.Transport.Orderly
/-
Who reads for a transport.

A transport that runs is the current one, but for the moments in which it is about to become that
or to be stopped (`Linked`). While it runs it employs one reader. Whoever else reads is
cancelled, or at its end, or the next that a stop will cancel (`Staffed`). So a reader that
takes anything from its child is employed, and its transport is the current one.
-/
namespace DiagnosticsClient

open Async Async.Machine

/-- The transport whose tasks a thread has ended. -/
def Thread.winds (th : Thread Routine Frame Value Failure) : Option TransportId :=
  match th.top, th.stack with
  | .begins (.endTasks t _), _ => some t
  | _, .ending t _ :: _ => some t
  | _, _ => none

/-! ## Transports that run -/

/-- A transport is the current one, or is told now that it was started, or its stop begins. -/
def Linked (p : TaskId → Option (TransportId × Tie)) (s : State) (t : TransportId) : Prop :=
  s.current = some t ∨ ∃ u k, p u = some (t, k) ∧ (k = .started ∨ k = .stopping)

section linked

variable {p p' : TaskId → Option (TransportId × Tie)} {s s' : State} {t : TransportId}

/-- A transport stays linked, unless its stop has begun or it lapses. -/
theorem Linked.traffic (h : Linked p s t) (ht : Traffic p p' s s') :
    Linked p' s' t ∨ (∃ u, p u = some (t, .stopping)) ∨ ∃ u, p u = none ∧ p' u = some (t, .lapsed) := by
  cases ht with
  | drifts hl _ hd =>
    have hc : s.current = some t := by
      refine h.resolve_right ?_
      rintro ⟨u, k, hu, rfl | rfl⟩ <;> cases hl hu
    cases hd with
    | stays _ hc' => exact .inl (.inl (hc'.trans hc))
    | @lapses u t' hc' _ hu hu' =>
      cases hc.symm.trans hc'
      exact .inr (.inr ⟨u, hu, hu'⟩)
  | @acts u hl hp he =>
    rcases h with hc | ⟨v, k, hv, hk⟩
    · generalize hq : p u = q, hq' : p' u = q' at he
      cases he with
      | builds _ hc' => cases hc.symm.trans hc'
      | proceeds _ _ hc' => exact .inl (.inl (hc'.trans hc))
      | installs _ hc' => cases hc.symm.trans hc'
      | dismisses _ hc' =>
        cases hc.symm.trans hc'
        exact .inl (.inr ⟨u, _, hq', .inr rfl⟩)
      | quits _ _ hc' => exact .inl (.inl (hc'.trans hc))
    · rcases hk with rfl | rfl
      · have hvu : v = u := by
          refine Decidable.byContradiction fun hne => ?_
          cases hl hne hv
        subst hvu
        generalize hq' : p' v = q' at he
        rw [hv] at he
        cases he with
        | proceeds hk => cases hk <;> rename_i hk <;> rcases hk with hk | hk <;> cases hk
        | installs _ _ hc' => exact .inl (.inl hc')
        | quits hk => rcases hk with hk | hk <;> cases hk
      · exact .inr (.inl ⟨v, hv⟩)

end linked

namespace Loop

variable {role role' : FutureId → Role} {m m' m'' : Loop} {u v : TaskId} {t t' : TransportId} {c : ChildId} {root called r : Routine}
  {F : Frame} {stack : List Frame} {s : Loop × Move} {o : Ending} {th th' : Thread Routine Frame Value Failure}

/-! ## Who reads -/

/-- Whoever starts or stops a transport was not made to read. -/
theorem Deed.ne_readOutput (hd : Deed role role' m u root called stack s) (hc : called = .start t ∨ called = .stop t)
    (hv : m.routine? v = some (.readOutput t' c)) : v ≠ u := by
  rintro rfl
  cases hd.made.symm.trans hv
  rcases hd.stacked.of_reading with ⟨rfl, -⟩ | ⟨rfl, -⟩ <;> rcases hc with h | h <;> cases h

/-- A task that is to be cancelled now, for a transport. -/
def IsDue (m : Loop) (t : TransportId) (u : TaskId) : Prop := ∃ v us stack, m.running = some (.begin v (.endTasks t (u :: us)) stack)

theorem not_isDue (h : ∀ v t us stack, m.running ≠ some (.begin v (.endTasks t us) stack)) (t : TransportId) (u : TaskId) : ¬ m.IsDue t u := by
  rintro ⟨v, us, stack, hnext⟩
  exact h v t _ stack hnext

/-- A transport that runs is linked. Only a stopped one has its tasks ended, and whoever reads is employed, or cancelled, or
the next to be cancelled. -/
structure Staffed (m : Loop) : Prop where
  linked : ∀ {t}, (m.state.childTransport t).phase = .running → Linked (m.view Thread.tie) m.state t
  ending : ∀ {u th t}, m.thread? u = some th → Thread.winds th = some t → (m.state.childTransport t).phase = .stopped
  readers : ∀ {u t c}, m.routine? u = some (.readOutput t c) → m.Doomed u ∨ m.IsDue t u ∨ m.state.Employs t u c

theorem winds_of_stack {top : Top Routine Value Failure} (htop : ∀ t us, top ≠ .begins (.endTasks t us))
    (hstack : ∀ t us rest, stack ≠ .ending t us :: rest) : Thread.winds ⟨top, stack⟩ = none := by
  unfold Thread.winds
  split
  · next htop' => exact absurd htop' (htop _ _)
  · next hstack' _ => exact absurd hstack' (hstack _ _ _)
  · rfl

/-- Nobody but a stop has the tasks of a transport ended. -/
theorem MoveFits.winds {n : Nat} {a : Move} {roots : TaskId → Option Routine} (hm : MoveFits role m n called a)
    (hs : Stacked roots root called stack) (hne : ∀ t us, called ≠ .endTasks t us)
    (h : Thread.winds (m.nextThread stack a) = some t) :
    called = .stop t ∧ ((∃ us, a = .become (.endTasks t us)) ∨ ∃ f us, a = .await f (.ending t us)) := by
  have hstack : ∀ t us rest, stack ≠ .ending t us :: rest := by
    rintro t us rest rfl
    cases hs with
    | cons hc => cases hc
  cases hm with
  | done =>
    cases (winds_of_stack (fun t us h => by cases h) hstack).symm.trans h
  | call hc => cases hc <;> cases h
  | @become r hr =>
    by_cases hend : ∃ t us, r = .endTasks t us
    · obtain ⟨t', us, rfl⟩ := hend
      cases h
      cases hr with
      | refl => exact absurd rfl (hne t us)
      | endTasks => exact ⟨rfl, .inl ⟨us, rfl⟩⟩
    · cases (winds_of_stack (fun t us h => hend ⟨t, us, by cases h; rfl⟩) hstack).symm.trans h
  | @await f F hserves =>
    by_cases hend : ∃ t us, F = .ending t us
    · obtain ⟨t', us, rfl⟩ := hend
      have heq : t' = t := by
        unfold nextThread at h
        dsimp only at h
        split at h <;> cases h <;> rfl
      subst heq
      cases hserves with
      | ending => exact ⟨rfl, .inr ⟨f, us, rfl⟩⟩
    · have hnone : Thread.winds (m.nextThread stack (.await f F)) = none := by
        unfold nextThread
        dsimp only
        split <;> exact winds_of_stack (fun t us h => by cases h) fun t us rest h => hend ⟨t, us, by cases h; rfl⟩
      cases hnone.symm.trans h

/-- A thread that is set going ends the tasks of a transport only if it was at it before. -/
theorem Fits.winds_of_awakes (hf : Fits role m) (hth : m.thread? u = some th) (how : m.Awakes u th th') :
    Thread.winds th' = Thread.winds th ∨ Thread.winds th' = none := by
  cases how with
  | begins =>
    obtain ⟨root, hroot, hfits⟩ := hf.threads hth
    cases hfits
    refine .inr (winds_of_stack (fun t us h => ?_) fun t us rest h => by cases h)
    cases h
    cases hf.roots hroot
  | dropped => exact .inr rfl
  | @resumes f o stack => cases stack with
    | nil => exact .inl rfl
    | cons F rest => cases F <;> exact .inl rfl
  | @interrupted f stack => cases stack with
    | nil => exact .inl rfl
    | cons F rest => cases F <;> exact .inl rfl

/-! ## Steps of the running task -/

theorem routine?_eq_none (h : m.tasks.size ≤ v) : m.routine? v = none := by
  simp [Machine.routine?, Array.getElem?_eq_none h]

/-- A task that has come to be tied to a transport, to stop it when its turn comes, is new. -/
theorem Deed.of_lapsed (hd : Deed role role' m u root called stack s) (hf : Fits role m) (hold : m.view Thread.tie v = none)
    (hnew : (s.1.perform u stack s.2).view Thread.tie v = some (t, .lapsed)) :
    m.routine? v = none ∧ s.1.routine? v = some (.stop t) := by
  obtain ⟨⟨top, below⟩, hth, htie⟩ := Option.bind_eq_some_iff.mp hnew
  cases Thread.tie_eq_lapsed.mp htie
  have hv : v ≠ u := by
    rintro rfl
    exact nextThread_ne_fresh (Option.some.inj (hd.switch.self.symm.trans hth))
  rcases hd.thread_other hf hv hth with hth' | ⟨r, -, hge, heq⟩
  · cases hold.symm.trans ((view_tie hth').trans htie)
  · cases heq
    obtain ⟨root', hroot, hfits⟩ := hd.fits.threads ((hd.switch.other hv).symm.trans hth)
    cases hfits
    exact ⟨routine?_eq_none hge, hroot⟩

/-- Whoever has waited for a child to end has done, or waits for it again. -/
theorem terminateResumed_moves (m : Loop) (c : ChildId) (o : Ending) : (∃ o', (terminateResumed c o m).2 = .done o') ∨
    (terminateResumed c o m).2 = .call (.awaitExit c) (.killing c) := by
  unfold terminateResumed
  split
  · exact .inl ⟨_, rfl⟩
  · exact .inr rfl
  · exact .inl ⟨_, rfl⟩

namespace Staffed

/-- **What the running task does leaves the transports staffed** if none runs that did not before, but for one that is told so,
and if whoever reads by then is one of those who may. -/
theorem perform (h : m.Staffed) (hf : Fits role m) (hd : Deed role role' m u root called stack s)
    (ht : Traffics m (s.1.perform u stack s.2)) (hrun : ∀ x, m.running = some x → x.task = u)
    (hruns : ∀ {t}, (s.1.state.childTransport t).phase = .running →
      (m.state.childTransport t).phase = .running ∨ Thread.tie (s.1.nextThread stack s.2) = some (t, .started))
    (hstops : ∀ {t st}, m.running = some (.begin u (.stop t) st) → (s.1.state.childTransport t).phase ≠ .running)
    (hlapses : ∀ {v t}, m.routine? v = none → s.1.routine? v = some (.stop t) → (s.1.state.childTransport t).phase ≠ .running)
    (hstopped : ∀ {t}, (m.state.childTransport t).phase = .stopped → (s.1.state.childTransport t).phase = .stopped)
    (hending : ∀ {t}, Thread.winds (s.1.nextThread stack s.2) = some t → (s.1.state.childTransport t).phase = .stopped)
    (hreads : ∀ {v t c}, s.1.routine? v = some (.readOutput t c) →
      v = u ∧ DoomedAt (s.1.perform u stack s.2) u (s.1.nextThread stack s.2) ∨ v ≠ u ∧ s.1.Doomed v ∨
        (∃ us, s.2 = .become (.endTasks t (v :: us))) ∨ s.1.state.Employs t v c) : Staffed (s.1.perform u stack s.2) where
  linked {t} hphase := by
    rw [hd.state] at hphase
    rcases hruns hphase with hold | hnew
    · rcases (h.linked hold).traffic ht with hstill | ⟨v, hv⟩ | ⟨v, hv, hv'⟩
      · exact hstill
      · obtain ⟨th, hth, htie⟩ := Option.bind_eq_some_iff.mp hv
        have htop := Thread.tie_eq_stopping.mp htie
        obtain ⟨x, hx, rfl, rfl⟩ := running_of_thread? hth (by rw [htop]; rfl)
        cases x with
        | begin w r st =>
          cases htop
          cases hrun _ hx
          exact absurd hphase (hstops hx)
        | resume => cases htop
      · obtain ⟨hnone, hmade⟩ := hd.of_lapsed hf hv hv'
        exact absurd hphase (hlapses hnone hmade)
    · exact .inr ⟨u, _, hd.view_self.trans hnew, .inl rfl⟩
  ending {v th t} hth hw := by
    rw [hd.state]
    by_cases hv : v = u
    · subst hv
      rw [hd.switch.self] at hth
      cases hth
      exact hending hw
    · rcases hd.thread_other hf hv hth with hold | ⟨r, hspawn, -, rfl⟩
      · exact hstopped (h.ending hold hw)
      · cases r <;> cases hw
  readers {v t c} hv := by
    rw [hd.switch.routine] at hv
    rcases hreads hv with ⟨rfl, hdoom⟩ | ⟨hne, hdoom⟩ | ⟨us, hbecome⟩ | hemp
    · refine .inl fun th hth => ?_
      rw [hd.switch.self] at hth
      cases hth
      exact hdoom
    · exact .inl (hdoom.switch hd.switch hne fun hth => hd.fits.isPlain_of_reading hv hth)
    · refine .inr (.inl ⟨u, us, stack, ?_⟩)
      rw [hbecome]
      rfl
    · exact .inr (.inr (by rwa [hd.state]))

/-- What leaves all transports alone keeps them staffed, unless it ends the tasks of one. -/
theorem bypasses (h : m.Staffed) (hf : Fits role m) (hd : Deed role role' m u root called stack s)
    (ht : Traffics m (s.1.perform u stack s.2)) (hrun : ∀ x, m.running = some x → x.task = u) {ms : List Message}
    (hp : BypassesAll ms m s.1) (hstop : ∀ t st, m.running ≠ some (.begin u (.stop t) st)) (hdue : ∀ t v, ¬ m.IsDue t v)
    (hending : ∀ {t}, Thread.winds (s.1.nextThread stack s.2) = some t → (m.state.childTransport t).phase = .stopped)
    (hself : ∀ t c, root = .readOutput t c →
      DoomedAt (s.1.perform u stack s.2) u (s.1.nextThread stack s.2) ∨ m.state.Employs t u c) :
    Staffed (s.1.perform u stack s.2) := by
  have hsame : ∀ t, s.1.state.childTransport t = m.state.childTransport t := fun t => hp.transports id
  refine h.perform hf hd ht hrun (fun {t} hr => .inl (hsame t ▸ hr)) (fun {t st} hr => absurd hr (hstop t st))
    (fun {v t} hnone hr => ?_) (fun {t} hr => (hsame t).symm ▸ hr) (fun {t} hw => (hsame t).symm ▸ hending hw) fun {v t c} hv => ?_
  · cases hnone.symm.trans (hp.made hr rfl)
  · have hold := hp.made hv rfl
    have hemploys : m.state.Employs t v c → s.1.state.Employs t v c := fun hemp => hemp.of_eq (hsame t)
    by_cases hvu : v = u
    · subst hvu
      rcases hself t c (Option.some.inj (hd.made.symm.trans hold)) with hdoom | hemp
      · exact .inl ⟨rfl, hdoom⟩
      · exact .inr (.inr (.inr (hemploys hemp)))
    · rcases h.readers hold with hdoom | hnext | hemp
      · exact .inr (.inl ⟨hvu, hd.doomed hold hdoom⟩)
      · exact absurd hnext (hdue t v)
      · exact .inr (.inr (.inr (hemploys hemp)))

/-- A reader that is employed, passes messages on and is at its end then keeps transports staffed. -/
theorem relays (h : m.Staffed) (hf : Fits role m) (hd : Deed role role' m u (.readOutput t c) called stack s)
    (ht : Traffics m (s.1.perform u stack s.2)) (hrun : ∀ x, m.running = some x → x.task = u) {ms : List Message}
    (hp : Relays t ms m s.1) (hemp : m.state.Employs t u c) (hstop : ∀ t st, m.running ≠ some (.begin u (.stop t) st))
    (hdue : ∀ t v, ¬ m.IsDue t v) (hdone : s.1.nextThread stack s.2 = ⟨.resumes o, []⟩) : Staffed (s.1.perform u stack s.2) := by
  have hsame : ∀ {t'}, t' ≠ t → s.1.state.childTransport t' = m.state.childTransport t' := hp.others
  refine h.perform hf hd ht hrun (fun {t'} hr => .inl ?_) (fun {t st} hr => absurd hr (hstop t st)) (fun {v t'} hnone hr => ?_)
    (fun {t'} hr => ?_) (fun {t'} hw => ?_) fun {v t' c'} hv => ?_
  · by_cases heq : t' = t
    · subst heq
      exact hemp.phase
    · exact hsame heq ▸ hr
  · rcases hp.made hr rfl with hold | ⟨heq, hphase⟩
    · cases hnone.symm.trans hold
    · cases heq
      rw [hphase]
      exact Phase.noConfusion
  · by_cases heq : t' = t
    · subst heq
      cases hr.symm.trans hemp.phase
    · exact (hsame heq).symm ▸ hr
  · rw [hdone] at hw
    cases hw
  · have hold := (hp.made hv rfl).resolve_right fun h => by cases h.1
    by_cases hvu : v = u
    · refine .inl ⟨hvu, ?_⟩
      rw [hdone]
      exact .inr rfl
    · rcases h.readers hold with hdoom | hnext | hemp'
      · exact .inr (.inl ⟨hvu, hd.doomed hold hdoom⟩)
      · exact absurd hnext (hdue t' v)
      · by_cases heq : t' = t
        · subst heq
          cases hemp.reader.symm.trans hemp'.reader
          exact absurd rfl hvu
        · exact .inr (.inr (.inr (hemp'.of_eq (hsame heq))))

/-- A start keeps transports staffed. -/
theorem starts (h : m.Staffed) (hf : Fits role m) (hd : Deed role role' m u root (.start t) stack (startChild t m))
    (ht : Traffics m ((startChild t m).1.perform u stack (startChild t m).2)) (hr : m.running = some (.begin u (.start t) stack))
    (hx : m.state.driven t ≠ none) : Staffed ((startChild t m).1.perform u stack (startChild t m).2) := by
  have hrun : ∀ x, m.running = some x → x.task = u := fun x hx => by cases hr.symm.trans hx; rfl
  have hstop : ∀ t' st, m.running ≠ some (.begin u (.stop t') st) := fun t' st h => by cases hr.symm.trans h
  have hdue : ∀ t' v, ¬ m.IsDue t' v := not_isDue fun v t' us st h => by cases hr.symm.trans h
  have hread : ∀ {v t' c}, m.routine? v = some (.readOutput t' c) → v ≠ u := hd.ne_readOutput (.inl rfl)
  have hwinds : ∀ {t' : TransportId} {p : Prop}, Thread.winds ((startChild t m).1.nextThread stack (startChild t m).2) = some t' → p :=
    fun hw => by cases (hd.does.move.winds hd.stacked (fun _ _ h => by cases h) hw).1
  rcases startChild_cases m hx with hsame | ⟨hidle, hcases⟩
  · have hp : BypassesAll [] m (startChild t m).1 := hsame.symm ▸ Bypasses.refl (T := fun _ => False) m
    exact h.bypasses hf hd ht hrun hp hstop hdue hwinds fun t' c heq => absurd rfl (hread (heq ▸ hd.made))
  have hothers : ∀ {t'}, t' ≠ t → (startChild t m).1.state.childTransport t' = m.state.childTransport t' := fun hne =>
    hcases.elim (fun h => h.1.transports hne) fun h => h.1.others hne
  -- whoever was employed is employed by another transport
  have holds : ∀ {v t' c}, m.routine? v = some (.readOutput t' c) → v ≠ u ∧ (startChild t m).1.Doomed v ∨
      (startChild t m).1.state.Employs t' v c := by
    intro v t' c hv
    rcases h.readers hv with hdoom | hnext | hemp
    · exact .inl ⟨hread hv, hd.doomed hv hdoom⟩
    · exact absurd hnext (hdue t' v)
    · refine .inr (hemp.of_eq (hothers ?_))
      rintro rfl
      cases hidle.symm.trans hemp.phase
  refine h.perform hf hd ht hrun (fun {t'} hrunning => ?_) (fun {t' st} hs => absurd hs (hstop t' st)) (fun {v t'} hnone hmade => ?_)
    (fun {t'} hstopped => ?_) hwinds fun {v t' c} hv => ?_
  · by_cases heq : t' = t
    · subst heq
      rcases hcases with ⟨-, hphase⟩ | ⟨-, hmove⟩
      · exact absurd hrunning hphase
      · obtain ⟨l, rest, rfl, -⟩ := hd.stacked.of_start (hf.roots hd.made)
        rw [hmove]
        exact .inr rfl
    · exact .inl (hothers heq ▸ hrunning)
  · rcases hcases with ⟨hbypass, -⟩ | ⟨hhires, -⟩
    · cases hnone.symm.trans (hbypass.made hmade rfl)
    · obtain ⟨u', -, -, hall⟩ := hhires.employs
      rcases hall hmade rfl with hold | ⟨-, heq⟩
      · cases hnone.symm.trans hold
      · cases heq
  · by_cases heq : t' = t
    · subst heq
      cases hidle.symm.trans hstopped
    · exact (hothers heq).symm ▸ hstopped
  · rcases hcases with ⟨hbypass, -⟩ | ⟨hhires, -⟩
    · exact .inr ((holds (hbypass.made hv rfl)).elim .inl fun h => .inr (.inr h))
    · obtain ⟨u', hemp, -, hall⟩ := hhires.employs
      rcases hall hv rfl with hold | ⟨rfl, heq⟩
      · exact .inr ((holds hold).elim .inl fun h => .inr (.inr h))
      · cases heq
        exact .inr (.inr (.inr hemp))

/-- A stop keeps transports staffed: whoever is employed is the first to be cancelled. -/
theorem stops (h : m.Staffed) (hf : Fits role m) (hd : Deed role role' m u root (.stop t) stack (stopChild t m))
    (ht : Traffics m ((stopChild t m).1.perform u stack (stopChild t m).2)) (hr : m.running = some (.begin u (.stop t) stack)) :
    Staffed ((stopChild t m).1.perform u stack (stopChild t m).2) := by
  have hrun : ∀ x, m.running = some x → x.task = u := fun x hx => by cases hr.symm.trans hx; rfl
  obtain ⟨hset, hmove⟩ := stopChild_cases m t
  obtain ⟨hnot, hstopped⟩ := phase_setPhase m t
  have hbypass := stopChild_bypasses m t
  rw [← hset] at hnot hstopped
  refine h.perform hf hd ht hrun (fun {t'} hrunning => ?_) (fun {t' st} hs => ?_) (fun {v t'} hnone hmade => ?_)
    (fun {t'} hphase => ?_) (fun {t'} hw => ?_) fun {v t' c} hv => ?_
  · by_cases heq : t' = t
    · subst heq
      exact absurd hrunning hnot
    · exact .inl (hbypass.transports heq ▸ hrunning)
  · cases hr.symm.trans hs
    exact hnot
  · cases hnone.symm.trans (hbypass.made hmade rfl)
  · by_cases heq : t' = t
    · subst heq
      exact hstopped (by rw [hphase]; exact Phase.noConfusion)
    · exact (hbypass.transports heq).symm ▸ hphase
  · obtain ⟨heq, hor⟩ := hd.does.move.winds hd.stacked (fun _ _ h => by cases h) hw
    cases heq
    refine hstopped ?_
    rcases hmove with ⟨-, hdone⟩ | ⟨hbegun, -⟩
    · rw [hdone] at hor
      rcases hor with ⟨us, hor⟩ | ⟨f, us, hor⟩ <;> cases hor
    · exact hbegun
  · have hold := hbypass.made hv rfl
    rcases h.readers hold with hdoom | ⟨w, us, st, hnext⟩ | hemp
    · exact .inr (.inl ⟨hd.ne_readOutput (.inr rfl) hold, hd.doomed hold hdoom⟩)
    · cases hr.symm.trans hnext
    · by_cases heq : t' = t
      · subst heq
        rcases hmove with ⟨hidle, -⟩ | ⟨-, hbecome⟩
        · cases hidle.symm.trans hemp.phase
        · exact .inr (.inr (.inl ⟨(m.state.childTransport t').drain.toList, by rw [hbecome, hemp.reader]; rfl⟩))
      · exact .inr (.inr (.inr (hemp.of_eq (hbypass.transports heq))))

/-- To end the tasks of a transport keeps transports staffed: the next one who reads is cancelled, or has ended. -/
theorem winds (h : m.Staffed) (hf : Fits role m) {us : List TaskId}
    (hd : Deed role role' m u root (.stop t) stack (endTasks t us m))
    (ht : Traffics m ((endTasks t us m).1.perform u stack (endTasks t us m).2))
    (hr : m.running = some (.begin u (.endTasks t us) stack)) :
    Staffed ((endTasks t us m).1.perform u stack (endTasks t us m).2) := by
  have hrun : ∀ x, m.running = some x → x.task = u := fun x hx => by cases hr.symm.trans hx; rfl
  have hstopped : (m.state.childTransport t).phase = .stopped := h.ending (thread?_of_running hr) rfl
  have hphase := endTasks_phase m t us
  have hbypass := endTasks_bypasses m t us
  have hread : ∀ {v t' c}, m.routine? v = some (.readOutput t' c) → v ≠ u := hd.ne_readOutput (.inr rfl)
  refine h.perform hf hd ht hrun (fun {t'} hrunning => .inl (hphase t' ▸ hrunning)) (fun {t' st} hs => ?_) (fun {v t'} hnone hmade => ?_)
    (fun {t'} hold => (hphase t').trans hold) (fun {t'} hw => ?_) fun {v t' c} hv => ?_
  · cases hr.symm.trans hs
  · cases hnone.symm.trans (hbypass.made hmade rfl)
  · cases (hd.does.move.winds hd.stacked (fun _ _ h => by cases h) hw).1
    exact (hphase t).trans hstopped
  · have hold := hbypass.made hv rfl
    refine .inr ?_
    rcases h.readers hold with hdoom | ⟨w, rest, st, hnext⟩ | hemp
    · exact .inl ⟨hread hold, hd.doomed hold hdoom⟩
    · cases hr.symm.trans hnext
      refine .inl ⟨hread hold, ?_⟩
      cases hended : m.hasEnded v with
      | true =>
        refine hd.doomed hold fun th hth => ?_
        rw [hasEnded, hf.tidy.sound.taskOutcome?_of_thread? hth] at hended
        cases hended
      | false =>
        have hone : (endTasks t (v :: rest) m).1 = (m.cancelTask v).1 := by
          unfold Loop.endTasks
          rw [hended]
          rfl
        rw [hone]
        exact doomed_of_cancelTask hf.tidy.sound (lt_size_of_routine? hold) (fun x hx heq => hread hold (heq.symm.trans (hrun x hx)))
          fun hth => hf.isPlain_of_reading hold hth
    · refine .inr (.inr (hemp.of_eq (hbypass.transports ?_)))
      rintro rfl
      cases hstopped.symm.trans hemp.phase

/-- Whoever reads and acts is employed, unless it goes on as cancelled. -/
theorem employs (h : m.Staffed) {x : Running Routine Frame Value Failure} (hr : m.running = some x) (hx : x.task = u)
    (hu : m.routine? u = some (.readOutput t c)) (hdoom : ¬ m.DoomedAt u x.thread) (hdue : ¬ m.IsDue t u) : m.state.Employs t u c := by
  rcases h.readers hu with hd | hnext | hemp
  · exact absurd (hd _ (hx ▸ thread?_of_running hr)) hdoom
  · exact absurd hnext hdue
  · exact hemp

/-- **Whoever is employed and acts reads for the current transport.** -/
theorem current (h : m.Staffed) (hf : Fits role m) {x : Running Routine Frame Value Failure} (hr : m.running = some x) (hx : x.task = u)
    (hu : m.routine? u = some (.readOutput t c)) (hemp : m.state.Employs t u c) : m.state.current = some t := by
  refine (h.linked hemp.phase).resolve_right ?_
  rintro ⟨v, k, hv, hk⟩
  have hacts : v = u := by
    refine Decidable.byContradiction fun hne => ?_
    have hlasts := lasts_of_idle hv fun y hy => by
      cases hr.symm.trans hy
      exact fun heq => hne (heq.symm.trans hx)
    rcases hk with rfl | rfl <;> cases hlasts
  subst hacts
  -- no tie binds whoever reads
  obtain ⟨th, hth, htie⟩ := Option.bind_eq_some_iff.mp hv
  obtain ⟨root, hroot, hfits⟩ := hf.threads hth
  cases hroot.symm.trans hu
  have hreading := hfits.reading
  rcases hk with rfl | rfl
  · obtain ⟨v, l, rest, rfl⟩ := Thread.tie_eq_started.mp htie
    cases hreading
  · have htop := Thread.tie_eq_stopping.mp htie
    cases hreading <;> cases htop

/-- A reading keeps transports staffed. -/
theorem reads {d : Decoder} {chunks : List Bytes} (h : m.Staffed) (hf : Fits role m)
    (hd : Deed role role' m u (.readOutput t c) called [] s) (ht : Traffics m (s.1.perform u [] s.2))
    (hrun : ∀ x, m.running = some x → x.task = u) (hstop : ∀ t st, m.running ≠ some (.begin u (.stop t) st))
    (hdue : ∀ t v, ¬ m.IsDue t v) (hemp : m.state.Employs t u c) (hs : ReadsOn t c d chunks m s) :
    Staffed (s.1.perform u [] s.2) := by
  have hbypass : ∀ {ms}, BypassesAll ms m s.1 → Staffed (s.1.perform u [] s.2) := fun hp => by
    refine h.bypasses hf hd ht hrun hp hstop hdue (fun {t'} hw => ?_) fun t' c' heq => .inr (by cases heq; exact hemp)
    have hstops := (hd.does.move.winds hd.stacked (hf.ne_endTasks hd.made hd.stacked) hw).1
    rcases hd.stacked.of_reading with ⟨heq, -⟩ | ⟨heq, -⟩ <;> cases heq.symm.trans hstops
  cases hs with
  | waits hp => exact hbypass hp
  | asks hp => exact hbypass hp
  | concludes hp => exact h.relays hf hd ht hrun hp hemp hstop hdue rfl

/-- Whoever begins something keeps transports staffed. -/
theorem begins (h : m.Staffed) (hf : Fits role m) (hr : m.running = some (.begin u r stack))
    (hstands : r.StandsFor called) (hd : Deed role role' m u root called stack (begin r m))
    (ht : Traffics m ((begin r m).1.perform u stack (begin r m).2)) (hm : m.state.medium = .children ∧ m.state.Uniform)
    (hbuilt : ∀ t, r = .start t → t < m.state.transports.length) : Staffed ((begin r m).1.perform u stack (begin r m).2) := by
  have hrun : ∀ x, m.running = some x → x.task = u := fun x hx => by cases hr.symm.trans hx; rfl
  have hdue : (∀ t us, r ≠ .endTasks t us) → ∀ t v, ¬ m.IsDue t v := fun hne => not_isDue fun v t us st h => by
    cases hr.symm.trans h
    exact hne t us rfl
  have hundertakes := hd.undertakes hf hstands hm
  generalize begin r m = s at hd ht hundertakes ⊢
  cases hundertakes with
  | starts t =>
    cases hstands
    exact h.starts hf hd ht hr (State.driven_ne_none hm (hbuilt t rfl))
  | stops t =>
    cases hstands
    exact h.stops hf hd ht hr
  | winds t us =>
    cases hstands with
    | refl => exact absurd rfl (hf.ne_endTasks hd.made hd.stacked t us)
    | endTasks => exact h.winds hf hd ht hr
  | @reads t c s hreads =>
    cases hstands
    obtain ⟨rfl, rfl⟩ := hd.stacked.of_readOutput
    have hdue := hdue fun t us h => by cases h
    exact h.reads hf hd ht hrun (fun t st h => by cases hr.symm.trans h) hdue (h.employs hr rfl hd.made id (hdue t u)) hreads
  | bypasses hhandles hp =>
    have hdue := hdue fun t us heq => by rw [heq] at hhandles; cases hhandles
    refine h.bypasses hf hd ht hrun hp (fun t st h => ?_) hdue (fun {t} hw => ?_) fun t c heq => .inr ?_
    · cases hr.symm.trans h
      cases hhandles
    · cases (hd.does.move.winds hd.stacked (hf.ne_endTasks hd.made hd.stacked) hw).1
      cases hstands <;> cases hhandles
    · subst heq
      exact h.employs hr rfl hd.made id (hdue t u)

/-- Whoever ends the tasks of a transport from then on has stopped it before. -/
theorem stopped_of_winds (h : m.Staffed) (hr : m.running = some (.resume u o (F :: stack))) (hs : F.Serves m.routine? called)
    (hd : Deed role role' m u root called stack (resume F o m)) (hf : Fits role m)
    (hw : Thread.winds ((resume F o m).1.nextThread stack (resume F o m).2) = some t) : (m.state.childTransport t).phase = .stopped := by
  obtain ⟨heq, hor⟩ := hd.does.move.winds hd.stacked (hf.ne_endTasks hd.made hd.stacked) hw
  cases heq
  have hne : ∀ {o'}, (resume F o m).2 = .done o' → (m.state.childTransport t).phase = .stopped := fun hdone => by
    rw [hdone] at hor
    rcases hor with ⟨us, hor⟩ | ⟨f, us, hor⟩ <;> cases hor
  cases hs with
  | ending => exact h.ending (thread?_of_running hr) rfl
  | gatedStop _ fails w => exact hne (gateResumed_done m t .stop fails w o).choose_spec
  | terminating c =>
    rcases terminateResumed_moves m c o with ⟨o', hmove⟩ | hmove
    · exact hne hmove
    · rw [show (resume (.terminating c) o m).2 = _ from hmove] at hor
      rcases hor with ⟨us, hor⟩ | ⟨f, us, hor⟩ <;> cases hor
  | killing c => cases o <;> exact hne rfl
  | finishing hx => cases hx
  | introducing hx => cases hx
  | expecting hx => cases hx

/-- Whoever goes on keeps transports staffed. -/
theorem resumes (h : m.Staffed) (hf : Fits role m) (hr : m.running = some (.resume u o (F :: stack))) (hs : F.Serves m.routine? called)
    (hd : Deed role role' m u root called stack (resume F o m))
    (ht : Traffics m ((resume F o m).1.perform u stack (resume F o m).2)) :
    Staffed ((resume F o m).1.perform u stack (resume F o m).2) := by
  have hrun : ∀ x, m.running = some x → x.task = u := fun x hx => by cases hr.symm.trans hx; rfl
  have hstop : ∀ t st, m.running ≠ some (.begin u (.stop t) st) := fun t st h => by cases hr.symm.trans h
  have hdue : ∀ t v, ¬ m.IsDue t v := not_isDue fun v t us st h => by cases hr.symm.trans h
  have hwinds : ∀ {t'}, Thread.winds ((resume F o m).1.nextThread stack (resume F o m).2) = some t' →
      (m.state.childTransport t').phase = .stopped := h.stopped_of_winds hr hs hd hf
  -- whoever goes on and is not cancelled is employed
  have hemp : ∀ {t c}, root = .readOutput t c → o ≠ .cancelled → m.state.Employs t u c := fun heq ho => by
    subst heq
    exact h.employs hr rfl hd.made (fun hdoom => hdoom.elim ho fun h => by cases h) (hdue _ u)
  have hself : ∀ t c, root = .readOutput t c →
      DoomedAt ((resume F o m).1.perform u stack (resume F o m).2) u ((resume F o m).1.nextThread stack (resume F o m).2) ∨
        m.state.Employs t u c := fun t c heq => by
    by_cases ho : o = .cancelled
    · subst heq ho
      obtain ⟨_, hroot, hfits⟩ := hf.threads (thread?_of_running hr)
      cases hroot.symm.trans hd.made
      rw [(cancelled_reading hfits.reading m).2]
      exact .inl (.inl rfl)
    · exact .inr (hemp heq ho)
  have hcontinues := resume_continues hf.receiver F o
  generalize resume F o m = s at hd ht hwinds hself hcontinues ⊢
  cases hcontinues with
  | reads hreads =>
    cases hs
    obtain ⟨rfl, rfl⟩ := hd.stacked.of_readOutput
    exact h.reads hf hd ht hrun hstop hdue (hemp rfl fun h => by cases h) hreads
  | drops hp => exact h.bypasses hf hd ht hrun hp hstop hdue hwinds hself
  | breaksOff hp =>
    cases hs
    obtain ⟨rfl, rfl⟩ := hd.stacked.of_readOutput
    exact h.relays hf hd ht hrun hp (hemp rfl fun h => by cases h) hstop hdue (o := .value .nothing) rfl
  | @concludes t c n o o' m' ho hp =>
    cases hs
    obtain ⟨rfl, rfl⟩ := hd.stacked.of_readOutput
    exact h.relays hf hd ht hrun hp (hemp rfl ho) hstop hdue (o := o') rfl
  | bypasses hF hp => exact h.bypasses hf hd ht hrun hp hstop hdue hwinds hself

/-! ## Between turns, and from outside -/

/-- A loop that is extended while no task runs stays staffed, if transports are left alone and no task is made for one. -/
theorem extends_ {may : Licence Routine} {ms : List Message} (h : m.Staffed) (hf : Fits role m)
    (hf' : Fits role' m') (idle : m.running = none) (he : m.Extends may m') (ht : Traffics m m') (hp : BypassesAll ms m m')
    (hheld : ∀ {u}, m.IsHeld u → m'.IsHeld u) : m'.Staffed where
  linked {t} hphase := by
    rw [hp.transports id] at hphase
    rcases (h.linked hphase).traffic ht with hstill | ⟨v, hv⟩ | ⟨v, hv, hv'⟩
    · exact hstill
    · cases lasts_of_idle hv fun x hx => by rw [idle] at hx; cases hx
    · -- nobody is made to stop a transport
      obtain ⟨⟨top, below⟩, hth, htie⟩ := Option.bind_eq_some_iff.mp hv'
      cases Thread.tie_eq_lapsed.mp htie
      rcases he.thread?_cases hf.tidy.sound hf'.tidy.sound hth with hold | ⟨r, -, hge, hroot, heq⟩
      · cases hv.symm.trans ((view_tie hold).trans htie)
      · cases heq
        cases (routine?_eq_none hge).symm.trans (hp.made hroot rfl)
  ending {u th t} hth hw := by
    rw [hp.transports id]
    rcases he.thread?_cases hf.tidy.sound hf'.tidy.sound hth with hold | ⟨r, -, -, hroot, rfl⟩
    · exact h.ending hold hw
    · cases r <;> cases hw
  readers {u t c} hu := by
    have hold := hp.made hu rfl
    rcases h.readers hold with hdoom | ⟨v, us, st, hnext⟩ | hemp
    · exact .inl (hdoom.extends he hf'.tidy.sound hheld (lt_size_of_routine? hold))
    · cases idle.symm.trans hnext
    · exact .inr (.inr (hemp.of_eq (hp.transports id)))

/-- A thread moves, and nothing else changes. -/
theorem switch {x : Option (Thread Routine Frame Value Failure)} (h : m.Staffed) (hf : Fits role m) (ht : Traffics m m')
    (hs : m.Switch u x m') (hlasts : ∀ {v t}, m.view Thread.tie v ≠ some (t, .stopping)) (hdue : ∀ t v, ¬ m.IsDue t v)
    (hfresh : ∀ {t}, x.bind Thread.tie ≠ some (t, .lapsed))
    (hwinds : ∀ {t}, x.bind Thread.winds = some t → (m.state.childTransport t).phase = .stopped)
    (hdoom : m.Doomed u → ∀ {th'}, x = some th' → m'.DoomedAt u th') : m'.Staffed where
  linked {t} hphase := by
    rw [hs.state] at hphase
    rcases (h.linked hphase).traffic ht with hstill | ⟨v, hv⟩ | ⟨v, hv, hv'⟩
    · exact hstill
    · exact absurd hv hlasts
    · by_cases hvu : v = u
      · subst hvu
        exact absurd (hs.view_self.symm.trans hv') hfresh
      · cases hv.symm.trans ((hs.view_other hvu).symm.trans hv')
  ending {v th t} hth hw := by
    rw [hs.state]
    by_cases hvu : v = u
    · subst hvu
      exact hwinds (by rw [← hs.self, hth]; exact hw)
    · exact h.ending ((hs.other hvu).symm.trans hth) hw
  readers {v t c} hv := by
    rw [hs.routine] at hv
    rcases h.readers hv with hd | hnext | hemp
    · refine .inl ?_
      by_cases hvu : v = u
      · subst hvu
        intro th hth
        exact hdoom hd (hs.self.symm.trans hth)
      · exact hd.switch hs hvu fun hth => hf.isPlain_of_reading hv hth
    · exact absurd hnext (hdue t v)
    · exact .inr (.inr (by rwa [hs.state]))

/-- **Every step keeps transports staffed.** -/
theorem tick (h : m.Staffed) (hf : Fits role m) (hf' : Fits role' m') (htick : Tick role m role' m') (ht : Traffics m m')
    (hm : m.state.medium = .children ∧ m.state.Uniform)
    (hbuilt : ∀ {u t k}, m.view Thread.tie u = some (t, k) → t < m.state.transports.length) : m'.Staffed := by
  have hidle : m.running = none → (∀ {v t}, m.view Thread.tie v ≠ some (t, .stopping)) ∧ ∀ t v, ¬ m.IsDue t v := fun idle => by
    refine ⟨fun {v t} hv => ?_, not_isDue fun v t us st h => by cases idle.symm.trans h⟩
    cases lasts_of_idle hv fun x hx => by rw [idle] at hx; cases hx
  cases htick with
  | @awakes _ u th th' idle hth how hs =>
    obtain ⟨hlasts, hdue⟩ := hidle idle
    refine h.switch hf ht hs hlasts hdue (fun {t} htie => ?_) (fun {t} hw => ?_) fun hdoom {x} hx => ?_
    · have htop := Thread.tie_eq_lapsed.mp htie
      cases how <;> cases htop
    · rcases hf.winds_of_awakes hth how with heq | heq
      · exact h.ending hth (heq.symm.trans hw)
      · cases heq.symm.trans hw
    · cases hx
      exact (hdoom th hth).awakes how
  | passes idle he hstate =>
    have hroutine := he.routine?_eq fun _ => id
    refine h.extends_ hf hf' idle he ht (.of_state hstate fun hr _ => hroutine _ ▸ hr) fun {u} hheld => ?_
    obtain ⟨task, htask, hcancel⟩ := hheld
    obtain ⟨held, htask', hor⟩ := he.task htask
    rcases hor with rfl | ⟨hc, -⟩
    · exact ⟨_, htask', hcancel⟩
    · exact hc.elim
  | @ends _ u o runs hs outcome =>
    refine h.switch hf ht hs (fun {v t} hv => ?_) (not_isDue fun v t us st h => by cases runs.symm.trans h)
      (fun htie => by cases htie) (fun hw => by cases hw) fun _ _ hx => by cases hx
    obtain ⟨th, hth, htie⟩ := Option.bind_eq_some_iff.mp hv
    have htop := Thread.tie_eq_stopping.mp htie
    obtain ⟨x, hx, rfl, rfl⟩ := running_of_thread? hth (by rw [htop]; rfl)
    cases runs.symm.trans hx
    cases htop
  | begins runs valid stands _ deed =>
    exact h.begins hf runs stands deed ht hm fun t heq => hbuilt (view_tie (heq ▸ thread?_of_running runs))
  | resumes runs serves _ _ _ deed => exact h.resumes hf runs serves deed ht

/-- Whoever holds a cancellation back does so after whatever reaches the session. -/
theorem isHeld_apply {held : List ListenerId} {i : Stimulus} (hf : Fits role m) (hr : m.running = none)
    (ha : i.Admissible held m) (h : m.IsHeld u) : (m.apply i).1.IsHeld u := by
  refine apply_cases (P := fun m' => m'.IsHeld u) hf hr ha h h (fun hset => ?_) fun hears => hears.works.effect.isHeld h
  obtain ⟨task, htask, hcancel⟩ := h
  obtain ⟨held, htask', hor⟩ := hset.extends_.task htask
  rcases hor with rfl | ⟨hc, -⟩
  · exact ⟨_, htask', hcancel⟩
  · exact hc.elim

/-- **Whatever reaches a session keeps transports staffed**, unless somebody speaks in the place of one. -/
theorem apply {held : List ListenerId} {i : Stimulus} (h : m.Staffed) (hf : Fits role m) (hr : m.running = none)
    (ha : i.Admissible held m) (hi : i.isPrompt = false) : (m.apply i).1.Staffed :=
  h.extends_ hf (hf.apply hr ha) hr (apply_arrives hf hr ha).extends_ (apply_traffic hf hr ha) (apply_bypasses m ha hi)
    (isHeld_apply hf hr ha)

/-- In a new session nobody reads. -/
theorem of_isNew (h : m.IsNew) : m.Staffed where
  linked {t} hphase := by
    obtain ⟨s, rfl⟩ := h
    cases hphase
  ending {u th t} hth := by
    rw [h.isEmpty.thread?] at hth
    cases hth
  readers {u t c} hr := by
    rw [h.isEmpty.routine?] at hr
    cases hr

end Staffed

end Loop

end DiagnosticsClient
