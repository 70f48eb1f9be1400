import DiagnosticsClient.Proofs.Session.Launching
import DiagnosticsClient.Proofs.Session.Invariants
/-
What ties tasks to transports.

A task that starts or stops a transport is tied to it: it calls the start, waits for
it, has just been told that it was started, is to stop it as soon as its turn comes,
or calls the stop (`Thread.tie`). A step leaves ties and the current transport as
they are, lets the current one lapse, or has the running task do an `Errand`; every
step and whatever reaches the session is one of these (`Goes.traffic`).
-/
namespace DiagnosticsClient

open Async Async.Machine

/-- What a task has to do with a transport. -/
inductive Tie where
  /-- It calls the start, now. -/
  | calling
  /-- It waits for the start, or was told that it failed. -/
  | starting
  /-- It is told that the transport was started, now. -/
  | started
  /-- It is to stop the transport, which reported its end, and its turn has not come. -/
  | lapsed
  /-- It calls the stop, now. -/
  | stopping
deriving DecidableEq

/-- Only the running task can be tied in the other ways, and it is not for more than a step. -/
def Tie.lasts : Tie → Bool
  | .starting => true
  | .lapsed => true
  | _ => false

/-- The transport whose start a stack waits for. -/
def startOf : List Frame → Option TransportId
  | .starting _ t :: _ => some t
  | .gated .. :: .starting _ t :: _ => some t
  | _ => none

/-- What ties a task to a transport. -/
def Thread.tie (th : Thread Routine Frame Value Failure) : Option (TransportId × Tie) :=
  match th.top, th.stack with
  | .fresh (.stop t), _ => some (t, .lapsed)
  | .begins (.start t), _ => some (t, .calling)
  | .begins (.stop t), _ => some (t, .stopping)
  | .resumes (.value _), .starting _ t :: _ => some (t, .started)
  | _, stack => (startOf stack).map (·, .starting)

/-! ## How ties may change -/

/-- How a task goes on with a transport it is tied to. -/
inductive Tie.Proceeds : Tie → Tie → Prop
  | waits {k : Tie} (hk : k = .calling ∨ k = .starting) : Proceeds k .starting
  | returns {k : Tie} (hk : k = .calling ∨ k = .starting) : Proceeds k .started
  | comes : Proceeds .lapsed .stopping

/-- How the tie of the running task changes, with the current transport. -/
inductive Errand (s s' : State) : Option (TransportId × Tie) → Option (TransportId × Tie) → Prop
  | builds (hb : s'.transports.length = s.transports.length + 1) (hc : s.current = none) (hc' : s'.current = none) :
      Errand s s' none (some (s.transports.length, .calling))
  | proceeds {t : TransportId} {k k' : Tie} (hk : k.Proceeds k') (hb : s'.transports.length = s.transports.length)
      (hc : s'.current = s.current) : Errand s s' (some (t, k)) (some (t, k'))
  | installs {t : TransportId} (hb : s'.transports.length = s.transports.length) (hc : s.current = none)
      (hc' : s'.current = some t) : Errand s s' (some (t, .started)) none
  | dismisses {t : TransportId} (hb : s'.transports.length = s.transports.length) (hc : s.current = some t)
      (hc' : s'.current = none) : Errand s s' none (some (t, .stopping))
  | quits {t : TransportId} {k : Tie} (hk : k = .starting ∨ k = .stopping)
      (hb : s'.transports.length = s.transports.length) (hc : s'.current = s.current) : Errand s s' (some (t, k)) none

/-- Ties and the current transport stay, or the current transport lapses: a new task is to stop it. -/
inductive Drift (p p' : TaskId → Option (TransportId × Tie)) (s s' : State) : Prop
  | stays (hp : ∀ u, p' u = p u) (hc : s'.current = s.current)
  | lapses {u : TaskId} {t : TransportId} (hc : s.current = some t) (hc' : s'.current = none) (hu : p u = none)
      (hu' : p' u = some (t, .lapsed)) (hp : ∀ {v}, v ≠ u → p' v = p v)

/-- How ties, and the current transport, may change. -/
inductive Traffic (p p' : TaskId → Option (TransportId × Tie)) (s s' : State) : Prop
  | drifts (hl : ∀ {u t k}, p u = some (t, k) → k.lasts = true) (hb : s'.transports.length = s.transports.length)
      (h : Drift p p' s s')
  | acts {u : TaskId} (hl : ∀ {v t k}, v ≠ u → p v = some (t, k) → k.lasts = true) (hp : ∀ {v}, v ≠ u → p' v = p v)
      (h : Errand s s' (p u) (p' u))

/-! ## Ties and stacks -/

section stack

variable {roots : TaskId → Option Routine} {root called r : Routine} {F : Frame} {stack : List Frame} {o : Ending}
  {t : TransportId}

/-- A stack waits for a start only if that was called. -/
theorem Stacked.startOf_eq_none (h : Stacked roots root called stack) (hn : ∀ t, called ≠ .start t) : startOf stack = none := by
  cases h with
  | nil => rfl
  | cons hc => cases hc <;> first | rfl | exact absurd rfl (hn _)

theorem Stacked.startOf_cons (h : Stacked roots root called stack) (hn : ∀ t, called ≠ .start t)
    (hF : ∀ l t, F ≠ .starting l t) : startOf (F :: stack) = none := by
  cases F with
  | starting l t => exact absurd rfl (hF l t)
  | gated =>
    cases h with
    | nil => rfl
    | cons hc => cases hc <;> first | rfl | exact absurd rfl (hn _)
  | _ => rfl

/-- Who calls a start registers a listener. -/
theorem Stacked.of_start (h : Stacked roots root (.start t) stack) (hr : root.isRoot = true) :
    ∃ l rest, stack = .starting l t :: rest ∧ Stacked roots root (.register l) rest := by
  cases h with
  | nil => cases hr
  | cons hc hs _ h =>
    cases hc
    cases hs with
    | starting => exact ⟨_, _, rfl, h⟩

theorem Thread.tie_begins (hn : ∀ t, r ≠ .start t) (hn' : ∀ t, r ≠ .stop t) :
    Thread.tie ⟨.begins r, stack⟩ = (startOf stack).map (·, .starting) := by
  cases r <;> first | rfl | exact absurd rfl (hn _) | exact absurd rfl (hn' _)

theorem Thread.tie_fresh (hn : ∀ t, r ≠ .stop t) : Thread.tie ⟨.fresh r, []⟩ = none := by
  cases r <;> first | rfl | exact absurd rfl (hn _)

theorem Thread.tie_resumes (hn : ∀ l t rest, stack ≠ .starting l t :: rest) :
    Thread.tie ⟨.resumes o, stack⟩ = (startOf stack).map (·, .starting) := by
  cases o with
  | value v =>
    cases stack with
    | nil => rfl
    | cons F rest => cases F <;> first | rfl | exact absurd rfl (hn _ _ _)
  | _ => rfl

/-- What does not wait for a start is not tied when it goes on. -/
theorem Thread.tie_resumes_of_none (h : startOf stack = none) : Thread.tie ⟨.resumes o, stack⟩ = none := by
  rw [Thread.tie_resumes, h]
  · rfl
  · rintro l t rest rfl
    cases h

theorem Thread.tie_eq_calling {th : Thread Routine Frame Value Failure} :
    Thread.tie th = some (t, .calling) ↔ th.top = .begins (.start t) := by
  obtain ⟨top, stack⟩ := th
  unfold Thread.tie
  split <;> simp_all

theorem Thread.tie_eq_stopping {th : Thread Routine Frame Value Failure} :
    Thread.tie th = some (t, .stopping) ↔ th.top = .begins (.stop t) := by
  obtain ⟨top, stack⟩ := th
  unfold Thread.tie
  split <;> simp_all

theorem Thread.tie_eq_started {th : Thread Routine Frame Value Failure} :
    Thread.tie th = some (t, .started) ↔ ∃ v l rest, th = ⟨.resumes (.value v), .starting l t :: rest⟩ := by
  obtain ⟨top, stack⟩ := th
  unfold Thread.tie
  split <;> simp_all

theorem Thread.tie_eq_lapsed {th : Thread Routine Frame Value Failure} :
    Thread.tie th = some (t, .lapsed) ↔ th.top = .fresh (.stop t) := by
  obtain ⟨top, stack⟩ := th
  unfold Thread.tie
  split <;> simp_all

end stack

/-! ## What is done next -/

namespace Loop

variable {role role' : FutureId → Role} {K : TaskId → Prop} {S : Routine → Prop} {roots : TaskId → Option Routine}
  {m m' : Loop} {u : TaskId} {t : TransportId} {root called r : Routine} {F : Frame} {stack : List Frame} {o : Ending}
  {a : Move} {size : Nat} {th : Thread Routine Frame Value Failure} {s : Loop × Move} {held : List ListenerId}

/-- What is done next ties nobody, unless it has to do with a start or calls a stop. -/
theorem MoveFits.tie (hm : MoveFits role m size called a) (hs : Stacked roots root called stack)
    (hn : ∀ t, called ≠ .start t) (hc : ∀ r F, a = .call r F → F.hold = none) (hb : ∀ t, a ≠ .become (.stop t)) :
    Thread.tie (m.nextThread stack a) = none := by
  have hrest := hs.startOf_eq_none hn
  cases hm with
  | done => exact Thread.tie_resumes_of_none hrest
  | @call r F hcalls =>
    have hhold := hc r F rfl
    have hnone : startOf (F :: stack) = none := by cases hcalls <;> first | rfl | cases hhold
    refine (Thread.tie_begins ?_ ?_).trans (by rw [hnone]; rfl)
    · rintro t rfl
      cases hcalls
      cases hhold
    · rintro t rfl
      cases hcalls
      cases hhold
  | @become r hr =>
    refine (Thread.tie_begins (fun t h => ?_) fun t h => hb t (by rw [h])).trans (by rw [hrest]; rfl)
    subst h
    cases hr
    exact hn t rfl
  | @await f F hserves hawaits =>
    have hnone : startOf (F :: stack) = none := hs.startOf_cons hn fun l t h => by
      subst h
      cases hawaits
    unfold nextThread
    dsimp only
    split
    · exact Thread.tie_resumes_of_none hnone
    · exact (congrArg (Option.map (·, Tie.starting)) hnone)

/-- Who called a start waits for it, or is told how it ended. -/
theorem MoveFits.tie_start (hm : MoveFits role m size (.start t) a) (hs : Stacked roots root (.start t) stack)
    (hr : root.isRoot = true) (hb : a ≠ .become (.start t)) :
    ∃ k, (k = .starting ∨ k = .started) ∧ Thread.tie (m.nextThread stack a) = some (t, k) := by
  obtain ⟨l, rest, rfl, -⟩ := hs.of_start hr
  cases hm with
  | @done o =>
    cases o with
    | value v => exact ⟨_, .inr rfl, rfl⟩
    | _ => exact ⟨_, .inl rfl, rfl⟩
  | call hc hserves =>
    obtain ⟨fails, w, rfl⟩ := hserves.of_start
    cases hc
  | become hr' =>
    cases hr'
    exact absurd rfl hb
  | @await f F hserves hawaits =>
    obtain ⟨fails, w, rfl⟩ := hserves.of_start
    refine ⟨_, .inl rfl, ?_⟩
    unfold nextThread
    dsimp only
    split
    · exact Thread.tie_resumes fun _ _ _ h => by cases h
    · rfl

/-! ## Nobody starts or stops a transport in the place of another -/

theorem concludeCall_ne_become (m : Loop) (t : TransportId) (call : Call) (fails : Bool) (r : Routine) :
    (m.concludeCall t call fails).2 ≠ .become r := by
  unfold concludeCall
  split <;> exact fun h => by cases h

theorem rehearse_ne_become (m : Loop) (t : TransportId) (call : Call) (conduct : Conduct) (r : Routine) :
    (m.rehearse t call conduct).2 ≠ .become r := by
  have hpass : ∀ fails, (m.passGate t call fails).2 ≠ .become r := fun fails => by
    unfold passGate
    split
    · exact concludeCall_ne_become m t call fails r
    · exact fun h => by cases h
  cases conduct with
  | succeeds => exact concludeCall_ne_become m t call false r
  | fails => exact concludeCall_ne_become m t call true r
  | timesOut => exact fun h => by cases h
  | waits => exact hpass false
  | waitsAndFails => exact hpass true

theorem start_ne_become (m : Loop) (t : TransportId) (r : Routine) : (start t m).2 ≠ .become r := by
  unfold start
  split
  · exact rehearse_ne_become _ t .start _ r
  · unfold startChild
    dsimp only
    split
    · split
      · exact fun h => by cases h
      · split <;> exact fun h => by cases h
    · exact fun h => by cases h

theorem stop_ne_become (m : Loop) (t t' : TransportId) : (stop t m).2 ≠ .become (.stop t') := by
  unfold stop
  split
  · exact rehearse_ne_become _ t .stop _ _
  · unfold stopChild
    dsimp only
    split <;> exact fun h => by cases h

theorem begin_ne_become (hr : r.StandsFor (.stop t)) : (begin r m).2 ≠ .become (.stop t) := by
  cases hr with
  | refl => exact stop_ne_become m t t
  | endTasks t tasks =>
    have hwinds := endTasks_winds m t tasks
    intro h
    rw [show begin (.endTasks t tasks) m = endTasks t tasks m from rfl] at h
    cases hw : endTasks t tasks m with
    | mk m' a =>
      rw [hw] at h hwinds
      subst h
      cases hwinds

theorem gateResumed_ne_become (m : Loop) (t : TransportId) (call : Call) (fails : Bool) (w : FutureId) (o : Ending)
    (r : Routine) : (gateResumed t call fails w o m).2 ≠ .become r := by
  unfold gateResumed
  dsimp only
  split
  · exact concludeCall_ne_become _ t call fails r
  · exact fun h => by cases h

theorem resume_ne_become_start (hs : F.Serves roots (.start t)) : (resume F o m).2 ≠ .become (.start t) := by
  obtain ⟨fails, w, rfl⟩ := hs.of_start
  exact gateResumed_ne_become m t .start fails w o _

theorem resume_ne_become_stop (hs : F.Serves roots (.stop t)) : (resume F o m).2 ≠ .become (.stop t) := by
  cases hs with
  | gatedStop => exact gateResumed_ne_become m t .stop _ _ o _
  | ending =>
    simp only [resume, endResumed]
    split <;> exact fun h => by cases h
  | terminating =>
    simp only [resume, terminateResumed]
    split <;> exact fun h => by cases h
  | killing =>
    simp only [resume, killResumed]
    split <;> exact fun h => by cases h
  | finishing hx => cases hx
  | introducing hx => cases hx
  | expecting hx => cases hx

theorem MoveFits.ne_become_stop (hm : MoveFits role m size called a) (h : ∀ t, called = .stop t → a ≠ .become (.stop t))
    (t : TransportId) : a ≠ .become (.stop t) := by
  rintro rfl
  cases hm with
  | become hr =>
    cases hr
    exact h t rfl rfl

/-- Nobody goes on to hold the lock but from the frames for that. -/
theorem resume_hold {roots' : TaskId → Option Routine} {G : Frame} (hs : F.Serves roots called) (hF : F.isDesk = false)
    (h : (resume F o m).2 = .call r G) (hs' : G.Serves roots' called) : G.hold = none := by
  cases hs' with
  | starting =>
    cases hs with
    | registering => cases hF
    | starting => cases hF
    | finishing hx => cases hx
    | introducing hx => cases hx
    | expecting hx => cases hx
  | releasingListener =>
    cases hs with
    | leaving => cases hF
    | releasingListener =>
      simp only [resume, stopResumed] at h
      split at h <;> cases h
    | finishing hx => cases hx
    | introducing hx => cases hx
    | expecting hx => cases hx
  | releasingSession =>
    cases hs with
    | closing => cases hF
    | releasingSession =>
      simp only [resume, stopResumed] at h
      split at h <;> cases h
    | finishing hx => cases hx
    | introducing hx => cases hx
    | expecting hx => cases hx
  | _ => rfl

/-! ## A task that is to stop a transport is not cancelled -/

/-- No cancellation of a task that is to stop a transport is held back. -/
def SparesStops (m : Loop) : Prop := ∀ {u t}, m.routine? u = some (.stop t) → ¬ m.IsHeld u

theorem SparesStops.extends {may : Licence Routine} (h : m.SparesStops) (he : m.Extends may m')
    (hc : ∀ {u}, may.cancel u → ∃ r, m.routine? u = some r ∧ ∀ t, r ≠ .stop t) : m'.SparesStops := by
  rintro u t hroutine ⟨task, htask, hheld⟩
  have hno : ¬ may.cancel u := fun hcancel => by
    obtain ⟨r, hr, hne⟩ := hc hcancel
    have hr' := he.routine? hr
    rw [hroutine] at hr'
    exact hne t (Option.some.inj hr').symm
  rcases he.task_cases htask with ⟨task', held, htask', rfl, hor⟩ | ⟨-, -, -, -, hcancel⟩
  · rcases hor with rfl | ⟨hcancel, -⟩
    · refine h (u := u) (t := t) ?_ ⟨task', htask', hheld⟩
      simpa [Machine.routine?, htask, htask'] using hroutine
    · exact hno hcancel
  · exact hno (hcancel hheld)

theorem SparesStops.switch {th : Option (Thread Routine Frame Value Failure)} (h : m.SparesStops) (hs : m.Switch u th m') :
    m'.SparesStops :=
  fun hr hheld => h ((hs.routine _).symm.trans hr) (hs.held hheld)

theorem Cancellable.not_stop (h : m.Cancellable u) : ∃ r, m.routine? u = some r ∧ ∀ t, r ≠ .stop t := by
  obtain ⟨r, hr, hinner, -⟩ := h.1
  exact ⟨r, hr, fun t heq => by rw [heq] at hinner; cases hinner⟩

theorem SparesStops.tick (h : m.SparesStops) (ht : Tick role m role' m') : m'.SparesStops := by
  cases ht with
  | awakes _ _ _ switch => exact h.switch switch
  | passes _ he _ => exact h.extends he fun hc => hc.elim
  | ends _ switch _ => exact h.switch switch
  | begins _ _ _ _ deed => exact SparesStops.switch (h.extends deed.does.effect.extends Cancellable.not_stop) deed.switch
  | resumes _ _ _ _ _ deed =>
    exact SparesStops.switch (h.extends deed.does.effect.extends Cancellable.not_stop) deed.switch

theorem SparesStops.apply {i : Stimulus} (h : m.SparesStops) (hf : Fits role m) (hr : m.running = none)
    (ha : i.Admissible held m) : SparesStops (m.apply i).1 := by
  refine h.extends (apply_arrives hf hr ha).extends_ ?_
  rintro u (rfl | hc)
  · obtain ⟨r, hroot, hasked⟩ := ha
    exact ⟨r, hroot, fun t heq => by rw [heq] at hasked; cases hasked⟩
  · exact hc.not_stop

/-! ## What is done at once -/

theorem tie_extends {may : Licence Routine} {T T' : FutureId → Prop} (he : m.Extends may m') (hs : m.Sound T)
    (hs' : m'.Sound T') (hn : ∀ t, m'.routine? u = some (.stop t) → m.routine? u = some (.stop t)) :
    m'.view Thread.tie u = m.view Thread.tie u := by
  unfold Machine.view
  rcases Nat.lt_or_ge u m.tasks.size with hlt | hge
  · rw [he.thread? hs'.owned hlt]
  · have hnone : m.thread? u = none := by
      cases hth : m.thread? u with
      | none => rfl
      | some th => exact absurd (lt_size_of_thread? hs hth) (Nat.not_lt_of_le hge)
    cases hth : m'.thread? u with
    | none => rw [hnone]
    | some th =>
      rcases he.thread?_cases hs hs' hth with hold | ⟨r, -, -, hroot, rfl⟩
      · rw [hold]
      · rw [hnone]
        refine Thread.tie_fresh ?_
        rintro t rfl
        exact Nat.not_lt_of_le hge (lt_size_of_routine? (hn t hroot))

/-- Ties drift as the current transport does. -/
theorem Succession.drift {may : Licence Routine} {T T' : FutureId → Prop} (h : Succession m m') (he : m.Extends may m')
    (hs : m.Sound T) (hs' : m'.Sound T') : Drift (m.view Thread.tie) (m'.view Thread.tie) m.state m'.state := by
  cases h with
  | stays hc hn => exact .stays (fun u => tie_extends he hs hs' fun t => hn) hc
  | @lapses t u hc hc' _ hu hu' hn =>
    have hge : m.tasks.size ≤ u := by
      refine Nat.le_of_not_lt fun hlt => ?_
      simp [Machine.routine?, Array.getElem?_eq_getElem hlt] at hu
    obtain ⟨task, htask, hroutine⟩ := Option.map_eq_some_iff.mp hu'
    have hfresh := he.thread?_new hs.owned hs' hge htask fun x hx => (hs.running hx).lt_size
    refine .lapses hc hc' ?_ ?_ fun {v} hv => tie_extends he hs hs' fun t' ht' => (hn ht').resolve_right hv
    · unfold Machine.view
      cases hth : m.thread? u with
      | none => rfl
      | some th => exact absurd (lt_size_of_thread? hs hth) (Nat.not_lt_of_le hge)
    · rw [Machine.view, hfresh, hroutine]
      rfl

/-- While there is no current transport, or it stays, nobody is made to stop one. -/
theorem Succession.quiet (h : Succession m m') (hc : m.state.current = none ∨ m'.state.current = m.state.current) :
    m'.state.current = m.state.current ∧ ∀ {u t}, m'.routine? u = some (.stop t) → m.routine? u = some (.stop t) := by
  cases h with
  | stays hc' hn => exact ⟨hc', hn⟩
  | lapses hsome hnone =>
    rcases hc with hc | hc
    · rw [hc] at hsome
      cases hsome
    · rw [hnone, hsome] at hc
      cases hc

/-- A task that does not run is tied for more than a step. -/
theorem lasts_of_idle {k : Tie} (h : m.view Thread.tie u = some (t, k)) (hr : ∀ x, m.running = some x → x.task ≠ u) :
    k.lasts = true := by
  obtain ⟨⟨top, stack⟩, hth, htie⟩ := Option.bind_eq_some_iff.mp h
  have hidle : top.isIdle = true := by
    refine Bool.not_eq_false _ ▸ fun hbusy => ?_
    obtain ⟨x, hx, htask, -⟩ := running_of_thread? hth hbusy
    exact hr x hx htask
  have hmap : ∀ {x : Option TransportId}, x.map (·, Tie.starting) = some (t, k) → k.lasts = true := by
    intro x hx
    obtain ⟨_, -, heq⟩ := Option.map_eq_some_iff.mp hx
    cases heq
    rfl
  cases top with
  | fresh r =>
    cases r <;> first | exact hmap htie | (cases htie; rfl)
  | waits f => exact hmap htie
  | begins r => cases hidle
  | resumes o => cases hidle

/-! ## Every step is traffic -/

/-- What a step does to ties and the current transport. -/
abbrev Traffics (m m' : Loop) : Prop := Traffic (m.view Thread.tie) (m'.view Thread.tie) m.state m'.state

theorem view_tie (h : m.thread? u = some th) : m.view Thread.tie u = Thread.tie th := by
  rw [Machine.view, h]
  rfl

/-- The running task is tied to no transport. -/
theorem Deed.drifts (hd : Deed role role' m u root called stack s) (hf : Fits role m) (hth : m.thread? u = some th)
    (hrun : ∀ x, m.running = some x → x.task = u) (htie : Thread.tie th = none)
    (hnext : Thread.tie (s.1.nextThread stack s.2) = none) (hb : s.1.state.transports.length = m.state.transports.length)
    (hs : Succession m s.1) : Traffics m (s.1.perform u stack s.2) := by
  have hnone : m.view Thread.tie u = none := (view_tie hth).trans htie
  have hself : s.1.view Thread.tie u = none := by
    rw [Machine.view, hd.does.effect.extends.thread? hd.does.tidy.sound.owned (lt_size_of_thread? hf.tidy.sound hth), hth]
    exact htie
  refine .drifts (fun {v t k} hv => lasts_of_idle hv fun x hx heq => ?_) (by rw [hd.state]; exact hb) ?_
  · rw [← heq, hrun x hx, hnone] at hv
    cases hv
  · have hview : ∀ v, Machine.view (s.1.perform u stack s.2) Thread.tie v = s.1.view Thread.tie v := fun v => by
      by_cases hv : v = u
      · subst hv
        exact hd.view_self.trans (hnext.trans hself.symm)
      · exact hd.switch.view_other hv
    rw [hd.state]
    cases hs.drift hd.does.effect.extends hf.tidy.sound hd.does.tidy.sound with
    | stays hp hc => exact .stays (fun v => (hview v).trans (hp v)) hc
    | lapses hc hc' hu hu' hp => exact .lapses hc hc' hu ((hview _).trans hu') fun hv => (hview _).trans (hp hv)

/-- The running task does an errand. -/
theorem Deed.acts (hd : Deed role role' m u root called stack s) (hf : Fits role m) (hth : m.thread? u = some th)
    (hrun : ∀ x, m.running = some x → x.task = u)
    (hn : ∀ {v t}, s.1.routine? v = some (.stop t) → m.routine? v = some (.stop t))
    (h : Errand m.state s.1.state (Thread.tie th) (Thread.tie (s.1.nextThread stack s.2))) :
    Traffics m (s.1.perform u stack s.2) := by
  refine .acts (u := u) (fun hv hp => lasts_of_idle hp fun x hx heq => hv (heq.symm.trans (hrun x hx))) (fun hv => ?_) ?_
  · exact (hd.switch.view_other hv).trans (tie_extends hd.does.effect.extends hf.tidy.sound hd.does.tidy.sound fun t => hn)
  · rw [hd.state, view_tie hth, hd.view_self]
    exact h

/-- Who starts a transport goes on with it. -/
theorem Deed.starts {k : Tie} (hd : Deed role role' m u root (.start t) stack s) (hf : Fits role m)
    (hth : m.thread? u = some th) (hrun : ∀ x, m.running = some x → x.task = u) (hidle : m.state.current = none)
    (htie : Thread.tie th = some (t, k)) (hk : k = .calling ∨ k = .starting) (hmove : s.2 ≠ .become (.start t))
    (hb : s.1.state.transports.length = m.state.transports.length) (hs : Succession m s.1) :
    Traffics m (s.1.perform u stack s.2) := by
  obtain ⟨hc, hn⟩ := hs.quiet (.inl hidle)
  obtain ⟨k', hk', hnext⟩ := hd.does.move.tie_start hd.stacked (hf.roots hd.made) hmove
  refine hd.acts hf hth hrun hn ?_
  rw [htie, hnext]
  rcases hk' with rfl | rfl
  · exact .proceeds (.waits hk) hb hc
  · exact .proceeds (.returns hk) hb hc

/-- There is no current transport while one is started. -/
def StartsAlone (m : Loop) : Prop :=
  ∀ {u th l t}, m.thread? u = some th → .starting l t ∈ th.stack → m.state.current = none

theorem Begins.traffic (hf : Fits role m) (hidle : m.StartsAlone) (hr : m.running = some (.begin u r stack))
    (hv : r.Valid m.routine?) (hstands : r.StandsFor called) (hd : Deed role role' m u root called stack (begin r m)) :
    Traffics m ((begin r m).1.perform u stack (begin r m).2) := by
  have hth : m.thread? u = some ⟨.begins r, stack⟩ := thread?_of_running hr
  have hrun : ∀ x, m.running = some x → x.task = u := fun x hx => by
    rw [hr] at hx
    cases hx
    rfl
  have hages := begin_ages hv (m := m)
  by_cases hstart : ∃ t, r = .start t
  · obtain ⟨t, rfl⟩ := hstart
    cases hstands
    obtain ⟨l, rest, rfl, -⟩ := hd.stacked.of_start (hf.roots hd.made)
    exact hd.starts hf hth hrun (hidle hth List.mem_cons_self) rfl (.inl rfl) (start_ne_become m t _) hages.built
      hages.succession
  · have hn : ∀ t, called ≠ .start t := by
      rintro t rfl
      cases hstands
      exact hstart ⟨t, rfl⟩
    have hnext : Thread.tie ((begin r m).1.nextThread stack (begin r m).2) = none := by
      refine hd.does.move.tie hd.stacked hn (fun r' G ha => begin_hold hstands ha (hd.does.move.serves ha)) ?_
      refine hd.does.move.ne_become_stop ?_
      rintro t rfl
      exact begin_ne_become hstands
    by_cases hstop : ∃ t, r = .stop t
    · obtain ⟨t, rfl⟩ := hstop
      cases hstands
      have hcurrent : (begin (.stop t) m).1.state.current = m.state.current :=
        congrArg Core.current (stop_beside (K := m.Cancellable) (S := (·.isOwn = true)) hf.tidy t).aside.core
      obtain ⟨hc, hquiet⟩ := hages.succession.quiet (.inr hcurrent)
      refine hd.acts hf hth hrun hquiet ?_
      rw [hnext]
      exact .quits (.inr rfl) hages.built hc
    · refine hd.drifts hf hth hrun ?_ hnext hages.built hages.succession
      rw [Thread.tie_begins (fun t h => hstart ⟨t, h⟩) fun t h => hstop ⟨t, h⟩, hd.stacked.startOf_eq_none hn]
      rfl

theorem Resumes.traffic (hf : Fits role m) (hidle : m.StartsAlone) (hr : m.running = some (.resume u o (F :: stack)))
    (hs : F.Serves m.routine? called) (hd : Deed role role' m u root called stack (resume F o m)) :
    Traffics m ((resume F o m).1.perform u stack (resume F o m).2) := by
  have hth : m.thread? u = some ⟨.resumes o, F :: stack⟩ := thread?_of_running hr
  have hrun : ∀ x, m.running = some x → x.task = u := fun x hx => by
    rw [hr] at hx
    cases hx
    rfl
  cases hF : F.isDesk with
  | false =>
    have hlasts := resume_lasts o hF (m := m)
    by_cases hstart : ∃ t, called = .start t
    · obtain ⟨t, rfl⟩ := hstart
      obtain ⟨l, rest, rfl, -⟩ := hd.stacked.of_start (hf.roots hd.made)
      obtain ⟨fails, w, rfl⟩ := hs.of_start
      refine hd.starts hf hth hrun (hidle hth (List.mem_cons_of_mem _ List.mem_cons_self)) ?_ (.inr rfl)
        (resume_ne_become_start hs) hlasts.built hlasts.succession
      exact Thread.tie_resumes fun _ _ _ h => by cases h
    · have hn : ∀ t, called ≠ .start t := fun t h => hstart ⟨t, h⟩
      refine hd.drifts hf hth hrun ?_ ?_ hlasts.built hlasts.succession
      · refine Thread.tie_resumes_of_none (hd.stacked.startOf_cons hn ?_)
        rintro l t rfl
        cases hF
      · refine hd.does.move.tie hd.stacked hn (fun r' G ha => resume_hold hs hF ha (hd.does.move.serves ha)) ?_
        refine hd.does.move.ne_become_stop ?_
        rintro t rfl
        exact resume_ne_become_stop hs
  | true =>
    have hn : ∀ t, called ≠ .start t := by
      rintro t rfl
      obtain ⟨fails, w, rfl⟩ := hs.of_start
      cases hF
    have hdone : ∀ {m' : Loop} {o'}, Thread.tie (m'.nextThread stack (.done o' : Move)) = none :=
      Thread.tie_resumes_of_none (hd.stacked.startOf_eq_none hn)
    -- the holder of the lock is tied to no transport until he calls it
    have hlasts : Thread.tie ⟨.resumes o, F :: stack⟩ = none →
        (Lasts m (resume F o m).1 ∧ ∃ o', (resume F o m).2 = .done o') →
        Traffics m ((resume F o m).1.perform u stack (resume F o m).2) := by
      rintro htie ⟨h, o', ho'⟩
      exact hd.drifts hf hth hrun htie (by rw [ho']; exact hdone) h.built h.succession
    have hdismisses : ∀ t, Thread.tie ⟨.resumes o, F :: stack⟩ = none → Dismisses m t (resume F o m) →
        Traffics m ((resume F o m).1.perform u stack (resume F o m).2) := fun t htie h => by
      refine hd.acts hf hth hrun h.quits ?_
      rw [htie, h.move]
      exact .dismisses h.rests.built h.was h.gone
    cases F with
    | registering l =>
      rcases registerLocked_cases m l o with h | ⟨hbuilds, hnone, hmove⟩
      · exact hlasts (Thread.tie_resumes fun _ _ _ h => by cases h) h
      · obtain ⟨hc, hquiet⟩ := hbuilds.succession.quiet (.inl hnone)
        refine hd.acts hf hth hrun hquiet ?_
        rw [show resume (.registering l) o m = registerLocked l o m from rfl, hmove,
          show Thread.tie ⟨.resumes o, .registering l :: stack⟩ = none from
            Thread.tie_resumes fun _ _ _ h => by cases h]
        exact .builds hbuilds.built hnone (hc.trans hnone)
    | starting l t =>
      obtain ⟨o', ho', hcases⟩ := startResumed_cases m l t o
      have hnone := hidle hth List.mem_cons_self
      have hnext : Thread.tie ((resume (.starting l t) o m).1.nextThread stack (resume (.starting l t) o m).2) = none := by
        rw [show (resume (.starting l t) o m).2 = .done o' from ho']
        exact hdone
      rcases hcases with ⟨⟨v, rfl⟩, hrests, hcurrent, hquiet⟩ | ⟨hfailed, hlasts⟩
      · refine hd.acts hf hth hrun hquiet ?_
        rw [hnext]
        exact .installs hrests.built hnone hcurrent
      · obtain ⟨hc, hquiet⟩ := hlasts.succession.quiet (.inl hnone)
        refine hd.acts hf hth hrun hquiet ?_
        rw [hnext]
        cases o with
        | value v => exact absurd rfl (hfailed v)
        | _ => exact .quits (.inl rfl) hlasts.built hc
    | leaving l =>
      have htie : Thread.tie ⟨.resumes o, .leaving l :: stack⟩ = none := Thread.tie_resumes fun _ _ _ h => by cases h
      rcases leaveLocked_cases m l o with h | ⟨t, h⟩
      · exact hlasts htie h
      · exact hdismisses t htie h
    | closing =>
      have htie : Thread.tie ⟨.resumes o, .closing :: stack⟩ = none := Thread.tie_resumes fun _ _ _ h => by cases h
      rcases closeLocked_cases m o with h | ⟨t, h⟩
      · exact hlasts htie h
      · exact hdismisses t htie h
    | _ => cases hF

/-- **Every step is traffic.** -/
theorem Tick.traffic (ht : Tick role m role' m') (hf : Fits role m) (hf' : Fits role' m') (hidle : m.StartsAlone)
    (hs : m.SparesStops) : Traffics m m' := by
  cases ht with
  | @awakes _ u th th' idle hth how switch =>
    have hlasts : ∀ {v t k}, m.view Thread.tie v = some (t, k) → k.lasts = true := fun hv =>
      lasts_of_idle hv fun x hx => by rw [idle] at hx; cases hx
    have hdrifts : Thread.tie th' = Thread.tie th → Traffics m m' := fun heq => by
      refine .drifts hlasts (by rw [switch.state]) (.stays (fun v => ?_) (by rw [switch.state]))
      by_cases hv : v = u
      · subst hv
        exact switch.view_self.trans (heq.trans (view_tie hth).symm)
      · exact switch.view_other hv
    obtain ⟨root, hroot, hfits⟩ := hf.threads hth
    cases how with
    | begins hheld =>
      cases hfits with
      | fresh =>
        by_cases hstop : ∃ t, root = .stop t
        · obtain ⟨t, rfl⟩ := hstop
          refine .acts (u := u) (fun _ => hlasts) (fun hv => switch.view_other hv) ?_
          rw [view_tie hth, switch.view_self, switch.state]
          exact .proceeds .comes rfl rfl
        · refine hdrifts ((Thread.tie_begins ?_ fun t h => hstop ⟨t, h⟩).trans
            (Thread.tie_fresh fun t h => hstop ⟨t, h⟩).symm)
          rintro t rfl
          cases hf.roots hroot
    | dropped hheld =>
      cases hfits with
      | fresh =>
        refine hdrifts (Eq.trans rfl (Thread.tie_fresh ?_).symm)
        rintro t rfl
        exact hs hroot hheld
    | resumes _ _ =>
      cases hfits with
      | waits hserves hawaits =>
        refine hdrifts (Thread.tie_resumes ?_)
        rintro l t rest heq
        cases heq
        cases hawaits
    | interrupted _ _ =>
      cases hfits with
      | waits hserves hawaits => exact hdrifts rfl
  | passes idle he hstate =>
    refine .drifts (fun hv => lasts_of_idle hv fun x hx => by rw [idle] at hx; cases hx) (by rw [hstate]) ?_
    refine .stays (fun v => tie_extends he hf.tidy.sound hf'.tidy.sound fun t hroutine => ?_) (by rw [hstate])
    obtain ⟨task, htask, heq⟩ := Option.map_eq_some_iff.mp hroutine
    rcases he.task_cases htask with ⟨task', held, htask', rfl, -⟩ | ⟨-, hspawn, -⟩
    · simpa [Machine.routine?, htask'] using heq
    · exact hspawn.elim
  | @ends _ u o runs switch outcome =>
    have hth : m.thread? u = some ⟨.resumes o, []⟩ := thread?_of_running runs
    have hnone : Thread.tie ⟨.resumes o, []⟩ = none := Thread.tie_resumes fun _ _ _ h => by cases h
    refine .drifts (fun {v t k} hv => lasts_of_idle hv fun x hx heq => ?_) (by rw [switch.state])
      (.stays (fun v => ?_) (by rw [switch.state]))
    · rw [runs] at hx
      cases hx
      rw [← heq, show Running.task _ = u from rfl, view_tie hth, hnone] at hv
      cases hv
    · by_cases hv : v = u
      · subst hv
        exact switch.view_self.trans ((view_tie hth).trans hnone).symm
      · exact switch.view_other hv
  | begins runs valid stands how deed => exact Begins.traffic hf hidle runs valid stands deed
  | resumes runs serves gets woke how deed => exact Resumes.traffic hf hidle runs serves deed

/-- **Whatever reaches a session is traffic, too.** -/
theorem apply_traffic {i : Stimulus} (hf : Fits role m) (hr : m.running = none) (ha : i.Admissible held m) :
    Traffics m (m.apply i).1 := by
  have hlasts := apply_lasts ha
  have hworks := apply_arrives hf hr ha
  exact .drifts (fun hv => lasts_of_idle hv fun x hx => by rw [hr] at hx; cases hx) hlasts.built
    (hlasts.succession.drift hworks.extends_ hf.tidy.sound hworks.tidy.sound)

theorem IsNew.sparesStops (h : m.IsNew) : m.SparesStops := fun hr => by
  rw [h.isEmpty.routine?] at hr
  cases hr

end Loop

section goes

variable {role role' : FutureId → Role} {a b : Moment}

/-- There is no current transport while one is started. -/
theorem Moment.Holds.startsAlone (h : a.Holds role) : a.loop.StartsAlone := fun hth hF =>
  (h.coherent.suits ((Loop.view_station hth).trans (h.station_of_mem hth hF rfl))).1

theorem Goes.sparesStops (hg : Goes role a role' b) (h : a.Holds role) (hs : a.loop.SparesStops) : b.loop.SparesStops := by
  cases hg with
  | tick hq ht => exact hs.tick ht
  | stimulus hr ha => exact hs.apply h.fits hr ha

/-- **A step of a run is traffic.** -/
theorem Goes.traffic (hg : Goes role a role' b) (h : a.Holds role) (h' : b.Holds role') (hs : a.loop.SparesStops) :
    Loop.Traffics a.loop b.loop := by
  cases hg with
  | tick hq ht => exact ht.traffic h.fits h'.fits h.startsAlone hs
  | stimulus hr ha => exact Loop.apply_traffic h.fits hr ha

end goes

end DiagnosticsClient
