import DiagnosticsClient.Proofs.Session.Introductions
/-
Runs in which the session is left to go on by itself.

Callers often wait until nothing can go on before they do something more (`IsPaced`). Such
runs are runs, and what was proved of those holds of them. What they add is that nobody is
cancelled from outside while he is about to unregister his listener: whoever has to wait for
the lock with a listener that is still registered (`Exposed`) has his turn before nothing can
go on (`IsRun.not_exposed_of_quiet`). And he has to wait at all only if somebody else is in
the queue (`Uncontested`).
-/
namespace DiagnosticsClient

open Async Async.Machine

/-- The moments of a run in which nothing reaches the session while it can still go on by itself, newest first. -/
inductive IsPaced : List Moment → Prop
  | new {m : Loop} (h : m.IsNew) : IsPaced [{ loop := m }]
  | tick {a : Moment} {past : List Moment} (h : IsPaced (a :: past)) (hq : a.loop.isQuiet = false) :
      IsPaced ({ a with loop := a.loop.tick Loop.program } :: a :: past)
  | stimulus {a : Moment} {past : List Moment} {s : Stimulus} (h : IsPaced (a :: past)) (hq : a.loop.isQuiet = true)
      (ha : s.Admissible a.held a.loop) : IsPaced (a.after s :: a :: past)

/-- What a step of such a run does. -/
inductive Paces (role : FutureId → Role) (a : Moment) : (FutureId → Role) → Moment → Prop
  | tick {role' : FutureId → Role} (hq : a.loop.isQuiet = false) (h : Loop.Tick role a.loop role' (a.loop.tick Loop.program)) :
      Paces role a role' { a with loop := a.loop.tick Loop.program }
  | stimulus {s : Stimulus} (hq : a.loop.isQuiet = true) (ha : s.Admissible a.held a.loop) : Paces role a role (a.after s)

/-- A task waits for the lock to unregister a listener that is registered: if it is cancelled now, the listener stays. -/
def Moment.Exposed (a : Moment) (v : TaskId) : Prop :=
  ∃ w l rest, a.loop.thread? v = some ⟨.waits w, .locking w :: .leaving l :: rest⟩ ∧ l ∈ a.loop.state.registered

/-- Nobody else queues for the lock, or somebody else has it. -/
def Loop.Uncontested (m : Loop) (v : TaskId) : Prop :=
  (∀ t w, t ≠ v → m.view Thread.station t ≠ some (.queued w)) ∨
    ∃ t p, t ≠ v ∧ m.view Thread.station t = some p ∧ p.holds = true

namespace Async.Machine

variable {σ ρ φ ν ε : Type} {m : Machine σ ρ φ ν ε}

theorem isQuiet_iff : m.isQuiet = true ↔ m.running = none ∧ m.ready = [] := by
  simp [isQuiet]

theorem isQuiet_of_running {x : Running ρ φ ν ε} (h : m.running = some x) : m.isQuiet = false := by
  simp [isQuiet, h]

end Async.Machine

section runs

variable {role role' : FutureId → Role} {a b : Moment} {past : List Moment} {s : Stimulus} {t u v : TaskId} {l : ListenerId}
  {root : Routine} {th : Thread Routine Frame Value Failure}

/-! ## Runs -/

theorem Paces.goes (h : Paces role a role' b) : Goes role a role' b := by
  cases h with
  | tick hq ht => exact .tick hq ht
  | stimulus hq ha => exact .stimulus (isQuiet_iff.mp hq).1 ha

/-- While the session can go on by itself, that is what it does. -/
theorem Paces.ticks (h : Paces role a role' b) (hq : a.loop.isQuiet = false) : b.loop = a.loop.tick Loop.program := by
  cases h with
  | tick => rfl
  | stimulus hquiet => cases hq.symm.trans hquiet

theorem IsPaced.isRun (h : IsPaced past) : IsRun past := by
  induction h with
  | new h => exact .new h
  | tick _ hq ih => exact .step ih (.tick hq)
  | stimulus _ hq ha ih => exact .step ih (.stimulus (isQuiet_iff.mp hq).1 ha)

/-- The last step of such a run, and what is known of the moments on both sides of it. -/
theorem IsPaced.lastStep (h : IsPaced (b :: a :: past)) :
    IsPaced (a :: past) ∧ ∃ role role', a.Holds role ∧ b.Holds role' ∧ Paces role a role' b := by
  cases h with
  | tick h hq =>
    obtain ⟨role, hholds⟩ := h.isRun.holds
    obtain ⟨role', hholds', ht⟩ := hholds.tick hq
    exact ⟨h, role, role', hholds, hholds', .tick hq ht⟩
  | stimulus h hq ha =>
    obtain ⟨role, hholds⟩ := h.isRun.holds
    exact ⟨h, role, role, hholds, hholds.after (isQuiet_iff.mp hq).1 ha, .stimulus hq ha⟩

/-- Such a run up to one of its moments is such a run. -/
theorem IsPaced.upTo {newer older : List Moment} (h : IsPaced (newer ++ a :: older)) : IsPaced (a :: older) := by
  induction newer with
  | nil => exact h
  | cons c newer ih =>
    cases hms : newer ++ a :: older with
    | nil => simp at hms
    | cons d past =>
      rw [List.cons_append, hms] at h
      exact ih (hms ▸ h.lastStep.1)

theorem IsPaced.onward (h : IsPaced (a :: past)) (fuel : Nat) : IsPaced ((a.onward fuel past).1 :: (a.onward fuel past).2) := by
  induction fuel generalizing a past with
  | zero => exact h
  | succ fuel ih =>
    unfold Moment.onward
    split
    · exact h
    · next hq => exact ih (.tick h (Bool.eq_false_iff.mpr hq))

/-- The moments after a stimulus are part of such a run. -/
theorem IsPaced.pursue {moments : Moment × List Moment} (h : IsPaced (moments.1 :: moments.2))
    (hq : moments.1.loop.isQuiet = true) (ha : s.Admissible moments.1.held moments.1.loop) (fuel : Nat) :
    IsPaced ((Moment.pursue fuel s moments).1 :: (Moment.pursue fuel s moments).2) :=
  (h.stimulus hq ha).onward fuel

/-- Nobody checks files in a session that callers use by themselves. -/
theorem IsRun.not_checks (h : IsRun (a :: past)) (hroot : a.loop.routine? u = some root) :
    root.isMember = false ∧ root.gathers = false := by
  refine (h.induction (P := fun a _ => ∀ u root, a.loop.routine? u = some root → root.isMember = false ∧ root.gathers = false)
    (fun hm u root hroot => ?_) fun {_ _ a b past} ha hb hg hp u root hroot => ?_).2 u root hroot
  · cases hm.isEmpty.routine?.symm.trans hroot
  · cases hbefore : a.loop.routine? u with
    | some r =>
      cases ((hg.keeps ha).routine hbefore).symm.trans hroot
      exact hp u root hbefore
    | none =>
      rcases hg.born ha hbefore hroot with hkind | hkind | ⟨hkind, -⟩ | ⟨-, t, r, hr, hgathers⟩
      · cases root <;> first | exact ⟨rfl, rfl⟩ | cases hkind
      · cases root <;> first | exact ⟨rfl, rfl⟩ | cases hkind
      · cases root <;> first | exact ⟨rfl, rfl⟩ | cases hkind
      · cases (hp t r hr).2.symm.trans hgathers

/-! ## Who has to wait to leave -/

/-- Who has to do with a listener of his own, and does not hold the lock, finds it free while only he runs and the listener
is registered. -/
theorem Moment.Holds.lock_free (h : a.Holds role) (hth : a.loop.thread? v = some th) (huses : Thread.Uses th l)
    (hheld : l ∉ a.held) (hl : l ∈ a.loop.state.registered) (hr : ∀ x, a.loop.running = some x → x.task = v)
    (hstation : ∀ p, Thread.station th = some p → p.holds = false) : a.loop.state.lock.held = false := by
  refine Bool.eq_false_iff.mpr fun hlock => ?_
  obtain ⟨t, p, hp, hholds⟩ := h.coherent.held.mp hlock
  obtain ⟨th', hth', hplace⟩ := Option.bind_eq_some_iff.mp hp
  have hne : t ≠ v := by
    rintro rfl
    cases hth.symm.trans hth'
    cases (hstation p hplace).symm.trans hholds
  have hsuits := h.coherent.suits hp
  cases p with
  | queued w => cases hholds
  | taken =>
    rcases exists_of_station hplace rfl with ⟨v', htop⟩ | ⟨F, -, hF⟩
    · obtain ⟨x, hx, htask, -⟩ := running_of_thread? hth' (by rw [htop]; rfl)
      exact hne (htask.symm.trans (hr x hx))
    · cases F <;> cases hF
  | starting l' =>
    -- who starts a transport has registered his own listener, and no other is registered
    rcases exists_of_station hplace rfl with ⟨v', htop⟩ | ⟨F, hF, hhold⟩
    · obtain ⟨x, hx, htask, -⟩ := running_of_thread? hth' (by rw [htop]; rfl)
      exact hne (htask.symm.trans (hr x hx))
    · cases F <;> cases hhold
      rw [hsuits.2] at hl
      cases List.mem_singleton.mp hl
      exact hne (h.known.alone hth' hth (.inr ⟨_, hF, rfl⟩) huses hheld)
  | releasing =>
    rw [hsuits.2] at hl
    cases hl

/-- What a task has to do with whose routine is about no listener is its own. -/
theorem Moment.Holds.not_held_of_about (h : a.Holds role) (hth : a.loop.thread? v = some th) (hroot : a.loop.routine? v = some root)
    (habout : root.about = none) (huses : Thread.Uses th l) : l ∉ a.held := fun hmem => by
  have habout' := (h.known.kind hth hroot huses).mp hmem
  rw [habout] at habout'
  cases habout'

theorem Thread.uses_leaving {top : Top Routine Value Failure} {G : Frame} {rest : List Frame} :
    Thread.Uses ⟨top, G :: .leaving l :: rest⟩ l :=
  .inr ⟨_, List.mem_cons_of_mem _ List.mem_cons_self, rfl⟩

/-- **Nobody waits to leave when nothing can go on.** -/
theorem IsRun.not_exposed_of_quiet (h : IsRun (a :: past)) (hq : a.loop.isQuiet = true) (hroot : a.loop.routine? v = some root)
    (habout : root.about = none) : ¬ a.Exposed v := by
  rintro ⟨w, l, rest, hth, hl⟩
  obtain ⟨role, hholds⟩ := h.holds
  have hplace := (Loop.view_station hth).trans (by rfl : _ = some (Station.queued w))
  have hfree : a.loop.state.lock.held = false := by
    refine hholds.lock_free hth Thread.uses_leaving (hholds.not_held_of_about hth hroot habout Thread.uses_leaving) hl
      (fun x hx => ?_) fun p hp => ?_
    · cases (isQuiet_iff.mp hq).1.symm.trans hx
    · cases (Loop.view_station hth).symm.trans hplace |>.symm.trans hp
      rfl
  have hsuits := hholds.coherent.suits hplace
  rw [Station.Suits, h.nobody_queues hq hfree] at hsuits
  cases hsuits

/-- A listener that a task has alone, and may not register now, is not registered by others. -/
theorem Goes.registered_before (hg : Goes role a role' b) (ha : a.Holds role) (hb : b.Holds role')
    (hth : a.loop.thread? v = some th) (huses : Thread.Uses th l) (hheld : l ∉ a.held) (hright : Thread.right th ≠ some l)
    (hl : l ∈ b.loop.state.registered) : l ∈ a.loop.state.registered := by
  have hmine : ∀ {t}, a.loop.view Thread.right t = some l → False := fun {t} ht => by
    obtain ⟨th', hth', hright'⟩ := Option.bind_eq_some_iff.mp ht
    cases ha.known.alone hth' hth (Thread.uses_of_right hright') huses hheld
    cases hth.symm.trans hth'
    exact hright hright'
  cases hg.shifts ha hb with
  | keeps _ _ hr => exact hr.subset hl
  | allots _ _ _ _ _ hr => exact hr ▸ hl
  | enters hp _ _ _ hr =>
    rcases List.mem_append.mp (hr ▸ hl) with hl | hl
    · exact hl
    · cases List.mem_singleton.mp hl
      exact (hmine hp).elim

/-- Whoever waits for the lock did so before, or has just begun to, and the lock is not free. -/
theorem Loop.Turn.queues {m m' : Loop} {w : FutureId} {rest : List Frame} (ht : Loop.Turn role m u th role' m')
    (hf' : Loop.Fits role' m') (hth : m'.thread? u = some ⟨.waits w, .locking w :: rest⟩) :
    th = ⟨.waits w, .locking w :: rest⟩ ∨ m.running = some (.begin u .acquireLock rest) ∧ m.lockIsFree = false := by
  cases ht with
  | rests _ _ hsame => exact .inl (Option.some.inj (hsame.symm.trans hth))
  | awakes how switch =>
    cases switch.self.symm.trans hth
    cases how
  | ends outcome => cases (hf'.tidy.sound.taskOutcome?_of_thread? hth).symm.trans outcome
  | begins runs valid stands how deed =>
    obtain ⟨hmove, rfl⟩ := Loop.await_of_nextThread (Option.some.inj (deed.switch.self.symm.trans hth))
    have hfits := deed.does.move
    rw [hmove] at hfits
    cases hfits with
    | await hs =>
      cases hs with
      | locking =>
        cases stands with
        | refl =>
          refine .inr ⟨runs, Bool.eq_false_iff.mpr fun hfree => ?_⟩
          simp only [Loop.begin, Loop.acquire, hfree, if_true] at hmove
          cases hmove
  | resumes runs serves gets how deed =>
    obtain ⟨hmove, -⟩ := Loop.await_of_nextThread (Option.some.inj (deed.switch.self.symm.trans hth))
    have hfits := deed.does.move
    rw [hmove] at hfits
    cases hfits with
    | await hs =>
      cases hs with
      | locking =>
        cases serves with
        | locking =>
          simp only [Loop.resume, Loop.acquireResumed] at hmove
          split at hmove <;> cases hmove
        | finishing hx => cases hx
        | introducing hx => cases hx
        | expecting hx => cases hx

/-- **Whoever waits to leave did so before**, or has just come to the lock, and it is not free. -/
theorem Goes.exposed (hg : Goes role a role' b) (ha : a.Holds role) (hb : b.Holds role') (hroot : a.loop.routine? v = some root)
    (habout : root.about = none) (hexp : b.Exposed v) : a.Exposed v ∨ ∃ l rest,
      a.loop.running = some (.begin v .acquireLock (.leaving l :: rest)) ∧ l ∈ a.loop.state.registered ∧
        a.loop.lockIsFree = false := by
  obtain ⟨w, l, rest, hth', hl⟩ := hexp
  obtain hnil | ⟨th, hth⟩ := hg.was ha hb hth'
  · cases hnil
  rcases (hg.turn ha hb hth).queues hb.fits hth' with rfl | ⟨hr, hfree⟩
  · have huses : Thread.Uses (⟨.waits w, .locking w :: .leaving l :: rest⟩ : Thread Routine Frame Value Failure) l := Thread.uses_leaving
    exact .inl ⟨w, l, rest, hth, hg.registered_before ha hb hth huses (ha.not_held_of_about hth hroot habout huses)
      (fun h => by cases h) hl⟩
  · have hth₀ := thread?_of_running hr
    have huses : Thread.Uses (Running.thread (.begin v .acquireLock (.leaving l :: rest) : Running Routine Frame Value Failure)) l :=
      .inr ⟨_, List.mem_cons_self, rfl⟩
    exact .inr ⟨l, rest, hr, hg.registered_before ha hb hth₀ huses (ha.not_held_of_about hth₀ hroot habout huses)
      (fun h => by cases h) hl, hfree⟩

/-- Others do not make anybody wait to leave. -/
theorem Goes.not_exposed_of_idle (hg : Goes role a role' b) (ha : a.Holds role) (hb : b.Holds role') (hroot : a.loop.routine? v = some root) (habout : root.about = none) (hr : ∀ x, a.loop.running = some x → x.task ≠ v)
    (hexp : ¬ a.Exposed v) : ¬ b.Exposed v := fun h => by
  rcases hg.exposed ha hb hroot habout h with hold | ⟨l, rest, hrun, -⟩
  · exact hexp hold
  · exact hr _ hrun rfl

/-! ## Who finds nobody in the queue -/

/-- When nothing can go on, whoever has no place at the lock finds nobody else there, unless somebody has it. -/
theorem IsRun.uncontested_of_quiet (h : IsRun (a :: past)) (hq : a.loop.isQuiet = true)
    (hnone : a.loop.view Thread.station v = none) : a.loop.Uncontested v := by
  obtain ⟨role, hholds⟩ := h.holds
  cases hheld : a.loop.state.lock.held with
  | true =>
    obtain ⟨t, p, hp, hp'⟩ := hholds.coherent.held.mp hheld
    refine .inr ⟨t, p, ?_, hp, hp'⟩
    rintro rfl
    cases hnone.symm.trans hp
  | false =>
    refine .inl fun t w _ ht => ?_
    have hsuits := hholds.coherent.suits ht
    rw [Station.Suits, h.nobody_queues hq hheld] at hsuits
    cases hsuits

/-- What happens to nobody else keeps this. -/
theorem Loop.Uncontested.mono {m m' : Loop} (h : m.Uncontested v)
    (hview : ∀ t, t ≠ v → m'.view Thread.station t = m.view Thread.station t) : m'.Uncontested v := by
  rcases h with hnone | ⟨t, p, hne, hp, hheld⟩
  · exact .inl fun t w hne => by rw [hview t hne]; exact hnone t w hne
  · exact .inr ⟨t, p, hne, (hview t hne).trans hp, hheld⟩

/-- A new task is in nobody's way. -/
theorem Loop.Uncontested.of_none {m : Loop} (h : m.Uncontested u) (hu : m.view Thread.station u = none)
    (hv : m.view Thread.station v = none) : m.Uncontested v := by
  rcases h with hnone | ⟨t, p, hne, hp, hheld⟩
  · refine .inl fun t w _ ht => ?_
    by_cases htu : t = u
    · cases hu.symm.trans (htu ▸ ht)
    · exact hnone t w htu ht
  · refine .inr ⟨t, p, ?_, hp, hheld⟩
    rintro rfl
    cases hv.symm.trans hp

/-- No other task takes another place at the lock while one runs. -/
theorem Loop.Tick.view_other {m m' : Loop} {x : Running Routine Frame Value Failure} (ht : Loop.Tick role m role' m')
    (hf : Loop.Fits role m) (hr : m.running = some x) (hu : u ≠ x.task) : m'.view Thread.station u = m.view Thread.station u := by
  cases ht with
  | awakes idle => cases idle.symm.trans hr
  | passes idle => cases idle.symm.trans hr
  | ends runs switch =>
    cases runs.symm.trans hr
    exact switch.view_other hu
  | begins runs _ _ _ deed =>
    cases runs.symm.trans hr
    exact deed.view_other hf (fun _ => rfl) hu
  | resumes runs _ _ _ _ deed =>
    cases runs.symm.trans hr
    exact deed.view_other hf (fun _ => rfl) hu

/-- **Whoever finds nobody else in the queue does not wait to leave** after his step. -/
theorem IsRun.not_exposed_of_uncontested {x : Running Routine Frame Value Failure} (h : IsRun (a :: past)) (ha : a.Holds role)
    (hb : b.Holds role') (hg : Goes role a role' b) (hr : a.loop.running = some x) (hx : x.task = v)
    (hroot : a.loop.routine? v = some root) (habout : root.about = none) (hun : a.loop.Uncontested v) : ¬ b.Exposed v := fun hexp => by
  have hth : a.loop.thread? v = some x.thread := hx ▸ thread?_of_running hr
  rcases hg.exposed ha hb hroot habout hexp with ⟨w, l, rest, hth', -⟩ | ⟨l, rest, hrun, hl, hfree⟩
  · have hidle := x.thread_isIdle
    cases Option.some.inj (hth.symm.trans hth') ▸ hidle
  · cases hr.symm.trans hrun
    have huses : Thread.Uses (⟨.begins .acquireLock, .leaving l :: rest⟩ : Thread Routine Frame Value Failure) l :=
      .inr ⟨_, List.mem_cons_self, rfl⟩
    obtain ⟨_, -, hfits⟩ := ha.fits.threads hth
    have hnone : Thread.station ⟨.begins .acquireLock, .leaving l :: rest⟩ = none := by
      cases hfits with
      | begins _ hstands hstack =>
        cases hstands
        rw [hstack.station_begins]
        exact hstack.holdOf_eq_none rfl
    have hlock : a.loop.state.lock.held = false := by
      refine ha.lock_free hth huses (ha.not_held_of_about hth hroot habout huses) hl (fun x hx => ?_) fun p hp => ?_
      · cases hr.symm.trans hx
        rfl
      · cases hnone.symm.trans hp
    have hwaiters : a.loop.state.lock.waiters = [] := by
      refine List.eq_nil_iff_forall_not_mem.mpr fun w hw => ?_
      obtain ⟨t, ht⟩ := h.prompt.manned w hw
      rcases hun with hqueued | ⟨t', p, -, hp, hheld⟩
      · refine hqueued t w ?_ ht
        rintro rfl
        cases ((Loop.view_station hth).trans hnone).symm.trans ht
      · cases hlock.symm.trans (ha.coherent.held_of_holds hp hheld)
    simp [Loop.lockIsFree, hlock, hwaiters] at hfree

end runs

end DiagnosticsClient
