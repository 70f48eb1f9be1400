import DiagnosticsClient.Proofs.Session.Wards
/-
Which children live.

At every moment of a run in which no stop has ended before it was through, a living
child is driven by the current transport, or it is in the hands of the one task that
holds the lock, or of one that stops a transport in the background (`Loop.Reaps`).
So two children that nobody stops in the background are the same (`one_child`), and
none lives once nobody is registered and no stop is running (`no_child_left`).
-/
namespace DiagnosticsClient

open Async Async.Machine

section stack

variable {roots : TaskId → Option Routine} {root called : Routine} {stack : List Frame} {c : ChildId} {t : TransportId}

/-- Who calls a stop is a task of its own, or has the lock. -/
theorem Stacked.releasing_of_stop (h : Stacked roots root (.stop t) stack) : (∃ t, root = .stop t) ∨ .releasing ∈ stack := by
  rcases h.of_stop with ⟨-, hroot⟩ | ⟨rest, rfl⟩
  · exact .inl ⟨t, hroot⟩
  · exact .inr List.mem_cons_self

/-- And so is who waits for a child that was asked to end. -/
theorem Stacked.releasing_of_doomed (h : Stacked roots root called stack) (hc : doomedOf stack = some c) :
    (∃ t, root = .stop t) ∨ .releasing ∈ stack := by
  induction h with
  | nil => cases hc
  | @cons F called r stack _ hs _ h ih =>
    cases hrest : doomedOf stack with
    | some c' =>
      rw [doomedOf_cons hrest] at hc
      exact (ih (hrest.trans hc)).imp_right (List.mem_cons_of_mem _)
    | none =>
      rw [doomedOf_cons_none hrest] at hc
      cases F with
      | terminating =>
        cases hs with
        | terminating => exact h.releasing_of_stop.imp_right (List.mem_cons_of_mem _)
      | _ => cases hc

end stack

namespace Loop

variable {role : FutureId → Role} {m : Loop} {u : TaskId} {c : ChildId} {th : Thread Routine Frame Value Failure}

/-- A task that stops a transport in the background looks after a child. -/
def Reaps (m : Loop) (c : ChildId) : Prop :=
  ∃ u t th, m.routine? u = some (.stop t) ∧ m.thread? u = some th ∧ Thread.ward m.state.drives th = some c

/-- A task stops a transport: it holds the lock for that, or was made for it. -/
def StopsBy (m : Loop) (u : TaskId) : Prop :=
  ∃ th, m.thread? u = some th ∧ (.releasing ∈ th.stack ∨ ∃ t, m.routine? u = some (.stop t))

/-- Who looks after a child stops a transport in the background, or starts or stops one and has the lock. -/
theorem Fits.reaps_or_holds (hf : Fits role m) (hth : m.thread? u = some th) (hc : Thread.ward m.state.drives th = some c) :
    m.Reaps c ∨ (∃ l t, .starting l t ∈ th.stack) ∨ .releasing ∈ th.stack := by
  obtain ⟨root, hroot, hfits⟩ := hf.threads hth
  have hstops : (∃ t, root = .stop t) ∨ .releasing ∈ th.stack →
      m.Reaps c ∨ (∃ l t, .starting l t ∈ th.stack) ∨ .releasing ∈ th.stack := by
    rintro (⟨t, rfl⟩ | hmem)
    · exact .inl ⟨u, t, th, hroot, hth, hc⟩
    · exact .inr (.inr hmem)
  have hframe : ∀ {top F stack called}, th = ⟨top, F :: stack⟩ → F.Serves m.routine? called → Stacked m.routine? root called stack →
      F.charge top ≠ none ∨ doomedOf (F :: stack) ≠ none →
      m.Reaps c ∨ (∃ l t, .starting l t ∈ th.stack) ∨ .releasing ∈ th.stack := by
    rintro top F stack called rfl hs hstack hor
    by_cases hrest : doomedOf stack = none
    · rw [doomedOf_cons_none hrest] at hor
      cases F with
      | starting l t => exact .inr (.inl ⟨l, t, List.mem_cons_self⟩)
      | ending t us =>
        cases hs with
        | ending => exact hstops (hstack.releasing_of_stop.imp_right (List.mem_cons_of_mem _))
      | terminating =>
        cases hs with
        | terminating => exact hstops (hstack.releasing_of_stop.imp_right (List.mem_cons_of_mem _))
      | _ => rcases hor with h | h <;> exact absurd rfl h
    · obtain ⟨c', hc'⟩ := Option.ne_none_iff_exists'.mp hrest
      exact hstops ((hstack.releasing_of_doomed hc').imp_right (List.mem_cons_of_mem _))
  have hsome : doomedOf th.stack ≠ none ∨ Thread.charge th ≠ none := by
    by_cases hdoomed : doomedOf th.stack = none
    · refine .inr fun hcharge => ?_
      rw [Thread.ward, hdoomed, hcharge] at hc
      cases hc
    · exact .inl hdoomed
  cases hfits with
  | fresh =>
    refine hstops (.inl ?_)
    rcases hsome with h | h
    · exact absurd rfl h
    · cases root <;> first | exact ⟨_, rfl⟩ | exact absurd rfl h
  | @begins r called stack hv hr hstack =>
    cases hdoomed : doomedOf stack with
    | some c' => exact hstops (hstack.releasing_of_doomed hdoomed)
    | none =>
      by_cases hs : ∃ t, called = .stop t
      · obtain ⟨t, rfl⟩ := hs
        exact hstops hstack.releasing_of_stop
      · rw [hstack.ward_begins, hdoomed] at hc
        · cases hc
        · rintro t rfl
          cases hr
          exact hs ⟨t, rfl⟩
        · rintro t us rfl
          cases hr with
          | refl => exact hf.ne_endTasks hroot hstack t us rfl
          | endTasks => exact hs ⟨t, rfl⟩
  | @ends o =>
    cases o <;> cases hc
  | resumes hs _ _ hstack => exact hframe rfl hs hstack (hsome.symm.imp_left fun h => by rwa [Thread.charge_resumes] at h)
  | waits hs _ hstack => exact hframe rfl hs hstack (hsome.symm.imp_left fun h => by rwa [Thread.charge_waits] at h)

end Loop

/-! ## Stops with the lock -/

namespace Loop

variable {role role' : FutureId → Role} {m m' : Loop} {t u : TaskId} {root called r : Routine} {F : Frame} {stack : List Frame}
  {o : Ending} {s : Loop × Move} {v : Value} {th : Thread Routine Frame Value Failure}

/-- Who goes on without a stop has not gone on to hold the lock for one. -/
theorem Deed.releasing {th₀ : Thread Routine Frame Value Failure} (hd : Deed role role' m t root called stack s) (hf : Fits role m)
    (hth₀ : m.thread? t = some th₀) (hsub : ∀ F ∈ stack, F ∈ th₀.stack) (hcall : ∀ r G, s.2 = .call r G → G ≠ .releasing)
    (hth : (s.1.perform t stack s.2).thread? u = some th) (hmem : .releasing ∈ th.stack) :
    ∃ th', m.thread? u = some th' ∧ .releasing ∈ th'.stack := by
  by_cases hu : u = t
  · subst hu
    rw [hd.switch.self] at hth
    cases hth
    refine ⟨th₀, hth₀, hsub _ ?_⟩
    have hmove := hd.does.move
    cases hs : s.2 with
    | done o => rwa [hs] at hmem
    | become r => rwa [hs] at hmem
    | call r G =>
      rw [hs] at hmem
      exact (List.mem_cons.mp hmem).resolve_left (hcall r G hs).symm
    | await f G =>
      rw [hs] at hmem hmove
      rw [stack_nextThread_await] at hmem
      refine (List.mem_cons.mp hmem).resolve_left ?_
      rintro rfl
      cases hmove with
      | await _ ha => cases ha
  · rcases hd.thread_other hf hu hth with hold | ⟨r, -, -, rfl⟩
    · exact ⟨th, hold, hmem⟩
    · cases hmem

/-- **Nobody comes to hold the lock for a stop while there is no current transport.** -/
theorem Tick.releasing (ht : Tick role m role' m') (hf : Fits role m) (hf' : Fits role' m') (hnone : m.state.current = none)
    (hth : m'.thread? u = some th) (hmem : .releasing ∈ th.stack) : ∃ th', m.thread? u = some th' ∧ .releasing ∈ th'.stack := by
  cases ht with
  | @awakes _ t th₀ th₁ idle hth₀ how switch =>
    by_cases hu : u = t
    · subst hu
      rw [switch.self] at hth
      cases hth
      exact ⟨th₀, hth₀, by cases how <;> exact hmem⟩
    · exact ⟨th, (switch.other hu).symm.trans hth, hmem⟩
  | passes idle he _ =>
    rcases he.thread?_cases hf.tidy.sound hf'.tidy.sound hth with hold | ⟨_, -, -, -, rfl⟩
    · exact ⟨th, hold, hmem⟩
    · cases hmem
  | @ends _ t o runs switch _ =>
    have hu : u ≠ t := by
      rintro rfl
      rw [switch.self] at hth
      cases hth
    exact ⟨th, (switch.other hu).symm.trans hth, hmem⟩
  | begins runs _ stands _ deed =>
    refine deed.releasing hf (thread?_of_running runs) (fun _ h => h) (fun r' G ha => ?_) hth hmem
    rintro rfl
    cases begin_hold stands ha (deed.does.move.serves ha)
  | @resumes t o F called root stack runs serves _ _ _ deed =>
    refine deed.releasing hf (thread?_of_running runs) (fun _ h => List.mem_cons_of_mem _ h) (fun r' G ha => ?_) hth hmem
    rintro rfl
    cases hF : F.isDesk with
    | false => cases resume_hold serves hF ha (deed.does.move.serves ha)
    | true =>
      have hdismisses : ∀ t, ¬ Dismisses m t (resume F o m) := fun t h => by
        cases h.was.symm.trans hnone
      have hdone : (∃ o', (resume F o m).2 = .done o') → False := by
        rintro ⟨o', ho'⟩
        cases ho'.symm.trans ha
      cases F with
      | registering l =>
        rcases registerLocked_cases m l o with ⟨-, h⟩ | ⟨-, -, h⟩
        · exact hdone h
        · cases h.symm.trans ha
      | starting l c =>
        obtain ⟨o', h, -⟩ := startResumed_cases m l c o
        exact hdone ⟨o', h⟩
      | leaving l =>
        rcases leaveLocked_cases m l o with ⟨-, h⟩ | ⟨c, h⟩
        · exact hdone h
        · exact hdismisses c h
      | closing =>
        rcases closeLocked_cases m o with ⟨-, h⟩ | ⟨c, h⟩
        · exact hdone h
        · exact hdismisses c h
      | _ => cases hF

/-- Who is about to end with a value has been told so by what his task was made for. -/
theorem Tick.returned (ht : Tick role m role' m') (hf : Fits role m) (hf' : Fits role' m')
    (hr : m'.running = some (.resume u (.value v) [])) :
    ∃ root s, m'.routine? u = some root ∧ m'.state = s.1.state ∧ s.2 = .done (.value v) ∧
      ((∃ r, r.StandsFor root ∧ s = begin r m) ∨
        ∃ F o, F.Serves m.routine? root ∧ m.thread? u = some ⟨.resumes o, [F]⟩ ∧ s = resume F o m) := by
  have hth : m'.thread? u = some ⟨.resumes (.value v), []⟩ := thread?_of_running hr
  have hbusy : ∀ {x : Running Routine Frame Value Failure}, m.running = some x →
      m.thread? u = some ⟨.resumes (.value v), []⟩ → x = .resume u (.value v) [] := by
    intro x hx h
    obtain ⟨y, hy, htask, hthread⟩ := running_of_thread? h rfl
    cases hx.symm.trans hy
    cases x <;> cases hthread
    cases htask
    rfl
  have hidle : m.running = none → m.thread? u ≠ some ⟨.resumes (.value v), []⟩ := fun hnone h => by
    obtain ⟨y, hy, -⟩ := running_of_thread? h rfl
    cases hnone.symm.trans hy
  have hdeed : ∀ {t root called stack s} {x : Running Routine Frame Value Failure}, Deed role role' m t root called stack s →
      m' = s.1.perform t stack s.2 → m.running = some x → x.task = t → x ≠ .resume t (.value v) [] →
      u = t ∧ stack = [] ∧ called = root ∧ s.2 = .done (.value v) := by
    rintro t root called stack s x hd rfl hx rfl hne
    by_cases hu : u = x.task
    · subst hu
      rw [hd.switch.self] at hth
      have hmove : stack = [] ∧ s.2 = .done (.value v) := by
        generalize s.2 = a at hth
        cases a with
        | done o =>
          cases hth
          exact ⟨rfl, rfl⟩
        | call => cases hth
        | become => cases hth
        | await f G =>
          have hstack := congrArg (Thread.stack <$> ·) hth
          simp [stack_nextThread_await] at hstack
      obtain ⟨rfl, hmove⟩ := hmove
      refine ⟨rfl, rfl, ?_, hmove⟩
      have hstacked := hd.stacked
      cases hstacked
      rfl
    · rcases hd.thread_other hf hu hth with hold | ⟨_, -, -, heq⟩
      · have hx' := hbusy hx hold
        subst hx'
        exact absurd rfl hu
      · cases heq
  cases ht with
  | @awakes _ t th₀ th₁ idle hth₀ how switch =>
    by_cases hu : u = t
    · subst hu
      rw [switch.self] at hth
      cases hth
      obtain ⟨root, -, hfits⟩ := hf.threads hth₀
      cases how
      cases hfits
    · exact absurd ((switch.other hu).symm.trans hth) (hidle idle)
  | passes idle he _ =>
    rcases he.thread?_cases hf.tidy.sound hf'.tidy.sound hth with hold | ⟨_, -, -, -, heq⟩
    · exact absurd hold (hidle idle)
    · cases heq
  | @ends _ t o runs switch _ =>
    have hu : u ≠ t := by
      rintro rfl
      rw [switch.self] at hth
      cases hth
    cases hbusy runs ((switch.other hu).symm.trans hth)
    exact absurd rfl hu
  | begins runs _ stands _ deed =>
    obtain ⟨rfl, rfl, rfl, hmove⟩ := hdeed deed rfl runs rfl fun h => by cases h
    exact ⟨_, _, deed.keeps.routine deed.made, deed.state, hmove, .inl ⟨_, stands, rfl⟩⟩
  | resumes runs serves _ _ _ deed =>
    obtain ⟨rfl, rfl, rfl, hmove⟩ := hdeed deed rfl runs rfl fun h => by cases h
    exact ⟨_, _, deed.keeps.routine deed.made, deed.state, hmove, .inr ⟨_, _, serves, thread?_of_running runs, rfl⟩⟩

end Loop

/-! ## Whoever has the lock -/

section holds

variable {role : FutureId → Role} {a : Moment} {u : TaskId} {th : Thread Routine Frame Value Failure}

/-- Who starts or stops a transport with the lock has it, and there is no current transport. -/
theorem Moment.Holds.place (h : a.Holds role) (hth : a.loop.thread? u = some th)
    (hF : (∃ l t, .starting l t ∈ th.stack) ∨ .releasing ∈ th.stack) :
    ∃ p, a.loop.view Thread.station u = some p ∧ p.holds = true ∧ a.loop.state.current = none := by
  rcases hF with ⟨l, t, hmem⟩ | hmem
  · have hplace := (Loop.view_station hth).trans (h.station_of_mem hth hmem rfl)
    exact ⟨_, hplace, rfl, (h.coherent.suits hplace).1⟩
  · have hplace := (Loop.view_station hth).trans (h.station_of_mem hth hmem rfl)
    exact ⟨_, hplace, rfl, (h.coherent.suits hplace).1⟩

/-- Without a listener there is no transport. -/
theorem Moment.Holds.current_eq_none (h : a.Holds role) (hr : a.loop.state.registered = []) : a.loop.state.current = none := by
  have hbalanced : a.loop.state.Balanced → a.loop.state.current = none := fun hb => by
    rw [State.Balanced, hr] at hb
    exact Option.not_isSome_iff_eq_none.mp fun hsome => hb.mp hsome rfl
  cases hheld : a.loop.state.lock.held with
  | false => exact hbalanced (h.coherent.balanced hheld)
  | true =>
    obtain ⟨u, p, hp, hholds⟩ := h.coherent.held.mp hheld
    have hsuits := h.coherent.suits hp
    cases p with
    | queued w => cases hholds
    | taken => exact hbalanced hsuits
    | starting l => exact hsuits.1
    | releasing => exact hsuits.1

end holds

/-! ## Which children live -/

section runs

variable {a b : Moment} {past newer older : List Moment} {c c' : ChildId}

/-- **One child at a time.** At every moment of a run in which no stop has ended before it was through, two living
children that nobody stops in the background are the same. -/
theorem one_child (h : IsRun (a :: past)) (hcut : ∀ b ∈ a :: past, b.loop.cutsStop = false) :
    ∀ c c', c < a.loop.state.children.length → c' < a.loop.state.children.length →
      ¬ a.loop.state.IsDead c → ¬ a.loop.state.IsDead c' → ¬ a.loop.Reaps c → ¬ a.loop.Reaps c' → c = c' := by
  intro c c' hc hc' hlive hlive' hfree hfree'
  obtain ⟨role, hholds⟩ := h.holds
  have hattended := h.attended hcut
  rcases hattended c hc hlive with ⟨t, ht, hd⟩ | ⟨u, th, hth, hward⟩ <;>
    rcases hattended c' hc' hlive' with ⟨t', ht', hd'⟩ | ⟨v, th', hth', hward'⟩
  · cases ht.symm.trans ht'
    exact Option.some.inj (hd.symm.trans hd')
  · obtain ⟨-, -, -, hnone⟩ := hholds.place hth' ((hholds.fits.reaps_or_holds hth' hward').resolve_left hfree')
    cases ht.symm.trans hnone
  · obtain ⟨-, -, -, hnone⟩ := hholds.place hth ((hholds.fits.reaps_or_holds hth hward).resolve_left hfree)
    cases ht'.symm.trans hnone
  · obtain ⟨p, hp, hholds₁, -⟩ := hholds.place hth ((hholds.fits.reaps_or_holds hth hward).resolve_left hfree)
    obtain ⟨q, hq, hholds₂, -⟩ := hholds.place hth' ((hholds.fits.reaps_or_holds hth' hward').resolve_left hfree')
    cases hholds.coherent.one hp hq hholds₁ hholds₂
    cases hth.symm.trans hth'
    exact Option.some.inj (hward.symm.trans hward')

end runs

/-- A session over children when somebody has opened its first listener, and the moments before. -/
def childSession (launches : List Launch) : Moment × List Moment :=
  Moment.pursue 60 (.ask (.openListener 0)) (Moment.pursue 0 .listen ({ loop := { state := { launches } } }, []))

theorem isRun_childSession (launches : List Launch) : IsRun ((childSession launches).1 :: (childSession launches).2) := by
  have hlisten : IsRun ((Moment.pursue 0 .listen ({ loop := { state := { launches } } }, [])).1 ::
      (Moment.pursue 0 .listen ({ loop := { state := { launches } } }, [])).2) :=
    IsRun.pursue (s := .listen) (.new ⟨{ launches }, rfl⟩) rfl trivial 0
  exact hlisten.pursue (s := .ask (.openListener 0)) rfl ⟨rfl, fun l hl => by cases hl; exact List.mem_singleton.mpr rfl⟩ 60

/-- The same session when the listener was closed and another one opened. -/
def reopenedSession : Moment × List Moment :=
  Moment.pursue 60 (.ask (.openListener 1))
    (Moment.pursue 0 .listen (Moment.pursue 60 (.ask (.closeListener 0)) (childSession [])))

theorem one_child_when_reopened : ∃ a past, IsRun (a :: past) ∧ (∀ b ∈ a :: past, b.loop.cutsStop = false) ∧
    a.loop.state.children.length = 2 ∧ a.loop.state.IsDead 0 ∧ ¬ a.loop.state.IsDead 1 ∧
    ∀ c c', c < a.loop.state.children.length → c' < a.loop.state.children.length →
      ¬ a.loop.state.IsDead c → ¬ a.loop.state.IsDead c' → ¬ a.loop.Reaps c → ¬ a.loop.Reaps c' → c = c' := by
  have hheld : (0 : ListenerId) ∈ (childSession []).1.held := by decide +kernel
  have hclose := (isRun_childSession []).pursue (s := .ask (.closeListener 0)) (by decide +kernel)
    ⟨rfl, fun l hl => by cases hl; exact hheld⟩ 60
  have hlisten := hclose.pursue (s := .listen) (by decide +kernel) trivial 0
  have hnew : (1 : ListenerId) ∈ (Moment.pursue 0 .listen (Moment.pursue 60 (.ask (.closeListener 0)) (childSession []))).1.held := by
    decide +kernel
  have hrun : IsRun (reopenedSession.1 :: reopenedSession.2) := hlisten.pursue (s := .ask (.openListener 1)) (by decide +kernel)
    ⟨rfl, fun l hl => by cases hl; exact hnew⟩ 60
  have hcut : ∀ b ∈ reopenedSession.1 :: reopenedSession.2, b.loop.cutsStop = false := by decide +kernel
  refine ⟨_, _, hrun, hcut, ?_, ?_, ?_, one_child hrun hcut⟩
  · decide +kernel
  · exact (by decide +kernel : (reopenedSession.1.loop.state.child 0).isAlive = false)
  · exact (by decide +kernel : ¬ (reopenedSession.1.loop.state.child 1).isAlive = false)

/-- A session whose child ignores the request to end, when its output broke and another listener was opened. -/
def brokenSession : Moment × List Moment :=
  Moment.pursue 60 (.ask (.openListener 1))
    (Moment.pursue 60 (.breakOutput 0 (lit "boom")) (Moment.pursue 0 .listen (childSession [.child .ignores])))

/-- Both its children live: the first one is still being stopped in the background. -/
theorem two_children_when_broken : ∃ a past, IsRun (a :: past) ∧ a.loop.state.children.length = 2 ∧
    ¬ a.loop.state.IsDead 0 ∧ ¬ a.loop.state.IsDead 1 := by
  have hlisten := (isRun_childSession [.child .ignores]).pursue (s := .listen) (by decide +kernel) trivial 0
  have hbreak := hlisten.pursue (s := .breakOutput 0 (lit "boom")) (by decide +kernel) trivial 60
  have hheld : (1 : ListenerId) ∈ (Moment.pursue 60 (.breakOutput 0 (lit "boom"))
      (Moment.pursue 0 .listen (childSession [.child .ignores]))).1.held := by decide +kernel
  have hrun : IsRun (brokenSession.1 :: brokenSession.2) := hbreak.pursue (s := .ask (.openListener 1)) (by decide +kernel)
    ⟨rfl, fun l hl => by cases hl; exact hheld⟩ 60
  refine ⟨_, _, hrun, ?_, ?_, ?_⟩
  · decide +kernel
  · exact (by decide +kernel : ¬ (brokenSession.1.loop.state.child 0).isAlive = false)
  · exact (by decide +kernel : ¬ (brokenSession.1.loop.state.child 1).isAlive = false)

section runs

variable {a b : Moment} {past newer older : List Moment} {c c' : ChildId}

/-! ## Closing -/

/-- A call that closes the session has returned, now. -/
def Moment.closed (a : Moment) : Bool :=
  match a.loop.running with
  | some (.resume u (.value _) []) =>
    match a.loop.routine? u with
    | some .closeSession => true
    | _ => false
  | _ => false

theorem Moment.closed_iff : a.closed = true ↔
    ∃ u v, a.loop.running = some (.resume u (.value v) []) ∧ a.loop.routine? u = some .closeSession := by
  unfold closed
  constructor
  · intro h
    split at h
    · next u v hr =>
      split at h
      · next hroot => exact ⟨u, v, hr, hroot⟩
      · cases h
    · cases h
  · rintro ⟨u, v, hr, hroot⟩
    simp only [hr, hroot]

/-- Whoever has closed the session has left nobody registered, and the lock free. -/
theorem Loop.free_of_closeSession {role : FutureId → Role} {roots : TaskId → Option Routine} {m : Loop} {u : TaskId} {F : Frame}
    {o : Ending} {v : Value} (hf : Loop.Fits role m) (hcoherent : m.Coherent) (hth : m.thread? u = some ⟨.resumes o, [F]⟩)
    (hs : F.Serves roots .closeSession) (hmove : (Loop.resume F o m).2 = .done (.value v)) :
    (Loop.resume F o m).1.state.registered = [] ∧ (Loop.resume F o m).1.state.lock.held = false := by
  cases hs with
  | closing =>
    have hall := Loop.detachAll_delivers (K := fun _ => True) (S := fun _ => True) hf.tidy none
    simp only [Loop.resume, Loop.closeLocked] at hmove ⊢
    split at hmove
    · split at hmove
      · cases hmove
      · simp only [Loop.releaseLock_state]
        exact ⟨hall.registered, trivial⟩
    · next hne =>
      cases hmove
      exact absurd rfl (hne v)
  | releasingSession =>
    have hsuits := hcoherent.suits ((Loop.view_station hth).trans (by rfl : _ = some Station.releasing))
    simp only [Loop.resume, Loop.stopResumed, Loop.releaseLock_state]
    exact ⟨hsuits.2, trivial⟩
  | finishing hx => cases hx
  | introducing hx => cases hx
  | expecting hx => cases hx

/-- Once the session has been closed nobody is registered, and nobody has the lock. -/
theorem IsRun.free_of_closed (h : IsRun (a :: past)) (hc : a.closed = true) :
    a.loop.state.registered = [] ∧ a.loop.state.lock.held = false := by
  obtain ⟨u, v, hr, hroot⟩ := Moment.closed_iff.mp hc
  cases past with
  | nil =>
    cases h with
    | new hm => cases hm.isEmpty.running.symm.trans hr
  | cons d past =>
    obtain ⟨-, role, role', hholds, hholds', hgoes⟩ := h.lastStep
    cases hgoes with
    | stimulus hidle ha =>
      have hrun := (Loop.apply_arrives hholds.fits hidle ha).extends_.running
      cases hidle.symm.trans (hrun.symm.trans hr)
    | tick hq ht =>
      obtain ⟨root, s, hmade, hstate, hmove, hor⟩ := ht.returned hholds.fits hholds'.fits hr
      cases hmade.symm.trans hroot
      rcases hor with ⟨r, hstands, rfl⟩ | ⟨F, o, hserves, hth, rfl⟩
      · cases hstands
        cases hmove
      · rw [hstate]
        exact Loop.free_of_closeSession hholds.fits hholds.coherent hth hserves hmove

/-- **Nobody stops a transport with the lock after the session was closed**, until somebody is registered. -/
theorem IsRun.not_releasing (h : IsRun (a :: past)) (heq : a :: past = newer ++ b :: older) (hb : b.closed = true)
    (hn : ∀ d ∈ newer, d.loop.state.registered = []) {u : TaskId} {th : Thread Routine Frame Value Failure}
    (hth : a.loop.thread? u = some th) : .releasing ∉ th.stack := by
  induction newer generalizing a past u th with
  | nil =>
    cases heq
    intro hmem
    obtain ⟨role, hholds⟩ := h.holds
    have hplace := (Loop.view_station hth).trans (hholds.station_of_mem hth hmem rfl)
    have hheld := hholds.coherent.held_of_holds hplace rfl
    rw [(h.free_of_closed hb).2] at hheld
    cases hheld
  | cons d newer ih =>
    obtain ⟨rfl, hpast⟩ := List.cons.inj heq
    cases past with
    | nil => simp at hpast
    | cons e past =>
      obtain ⟨he, role, role', hholds, hholds', hgoes⟩ := h.lastStep
      have hnone : e.loop.state.registered = [] := by
        cases newer with
        | nil =>
          cases hpast
          exact (he.free_of_closed hb).1
        | cons e' newer =>
          obtain ⟨rfl, -⟩ := List.cons.inj hpast
          exact hn e (List.mem_cons_of_mem _ List.mem_cons_self)
      have ih' : ∀ {u : TaskId} {th : Thread Routine Frame Value Failure}, e.loop.thread? u = some th → .releasing ∉ th.stack :=
        ih he hpast fun d hd => hn d (List.mem_cons_of_mem _ hd)
      intro hmem
      cases hgoes with
      | tick hq ht =>
        obtain ⟨th', hth', hmem'⟩ := ht.releasing hholds.fits hholds'.fits (hholds.current_eq_none hnone) hth hmem
        exact ih' hth' hmem'
      | stimulus hidle ha =>
        have hext := (Loop.apply_arrives hholds.fits hidle ha).extends_
        rcases hext.thread?_cases hholds.fits.tidy.sound hholds'.fits.tidy.sound hth with hold | ⟨_, -, -, -, rfl⟩
        · exact ih' hold hmem
        · cases hmem

/-- **No child is left without a listener.** At every moment of a run in which no stop has ended before it was through:
if nobody is registered and no task stops a transport, every child has ended; and if the session was closed and nobody
has been registered since, every child has ended, or is being stopped in the background. -/
theorem no_child_left (h : IsRun (a :: past)) (hcut : ∀ b ∈ a :: past, b.loop.cutsStop = false) :
    (a.loop.state.registered = [] → (∀ u, ¬ a.loop.StopsBy u) → ∀ c < a.loop.state.children.length, a.loop.state.IsDead c) ∧
    ∀ newer b older, a :: past = newer ++ b :: older → b.closed = true → (∀ d ∈ newer, d.loop.state.registered = []) →
      ∀ c < a.loop.state.children.length, a.loop.state.IsDead c ∨ a.loop.Reaps c := by
  obtain ⟨role, hholds⟩ := h.holds
  -- while nobody is registered, a child that lives is in the hands of a task that stops a transport
  have hstopped : a.loop.state.registered = [] → ∀ c < a.loop.state.children.length, a.loop.state.IsDead c ∨ a.loop.Reaps c ∨
      ∃ u th, a.loop.thread? u = some th ∧ .releasing ∈ th.stack := by
    intro hnone c hc
    by_cases hdead : a.loop.state.IsDead c
    · exact .inl hdead
    refine .inr ?_
    rcases h.attended hcut c hc hdead with ⟨t, ht, -⟩ | ⟨u, th, hth, hward⟩
    · cases ht.symm.trans (hholds.current_eq_none hnone)
    · rcases hholds.fits.reaps_or_holds hth hward with hreaps | ⟨l, t, hmem⟩ | hmem
      · exact .inl hreaps
      · have hsuits := hholds.coherent.suits ((Loop.view_station hth).trans (hholds.station_of_mem hth hmem rfl))
        cases hnone.symm.trans hsuits.2
      · exact .inr ⟨u, th, hth, hmem⟩
  constructor
  · intro hnone hstops c hc
    rcases hstopped hnone c hc with hdead | ⟨u, t, th, hroot, hth, -⟩ | ⟨u, th, hth, hmem⟩
    · exact hdead
    · exact absurd ⟨th, hth, .inr ⟨t, hroot⟩⟩ (hstops u)
    · exact absurd ⟨th, hth, .inl hmem⟩ (hstops u)
  · intro newer b older heq hb hn c hc
    have hnone : a.loop.state.registered = [] := by
      cases newer with
      | nil =>
        cases heq
        exact (h.free_of_closed hb).1
      | cons d newer =>
        obtain ⟨rfl, -⟩ := List.cons.inj heq
        exact hn a List.mem_cons_self
    rcases hstopped hnone c hc with hdead | hreaps | ⟨u, th, hth, hmem⟩
    · exact .inl hdead
    · exact .inr hreaps
    · exact absurd hmem (h.not_releasing heq hb hn hth)

end runs

/-- The session over one child when the call that closes it returns. -/
def closingSession : Moment × List Moment := Moment.pursue 27 (.ask .closeSession) (childSession [])

theorem no_child_left_when_closed : ∃ a past, IsRun (a :: past) ∧ (∀ b ∈ a :: past, b.loop.cutsStop = false) ∧
    a.closed = true ∧ a.loop.state.children.length = 1 ∧ (a.loop.state.IsDead 0 ∨ a.loop.Reaps 0) := by
  have hrun : IsRun (closingSession.1 :: closingSession.2) := (isRun_childSession []).pursue (s := .ask .closeSession)
    (by decide +kernel) ⟨rfl, fun l hl => by cases hl⟩ 27
  have hcut : ∀ b ∈ closingSession.1 :: closingSession.2, b.loop.cutsStop = false := by decide +kernel
  have hclosed : closingSession.1.closed = true := by decide +kernel
  have hlength : closingSession.1.loop.state.children.length = 1 := by decide +kernel
  refine ⟨_, _, hrun, hcut, hclosed, hlength, ?_⟩
  exact (no_child_left hrun hcut).2 [] _ _ rfl hclosed (fun d hd => by cases hd) 0 (hlength ▸ Nat.zero_lt_one)

/-- A session whose child ignores the request to end, when the call that closes its only listener was cancelled. -/
def abandonedSession : Moment × List Moment :=
  Moment.pursue 60 (.cancel 3) (Moment.pursue 60 (.ask (.closeListener 0)) (childSession [.child .ignores]))

/-- Nothing goes on in it, nobody is registered, and its child lives. -/
theorem child_left_when_cancelled : ∃ a past, IsRun (a :: past) ∧ a.loop.isQuiet = true ∧ a.loop.state.registered = [] ∧
    (∀ u < a.loop.tasks.size, a.loop.hasEnded u = true) ∧ a.loop.state.children.length = 1 ∧ ¬ a.loop.state.IsDead 0 := by
  have hheld : (0 : ListenerId) ∈ (childSession [.child .ignores]).1.held := by decide +kernel
  have hclose := (isRun_childSession [.child .ignores]).pursue (s := .ask (.closeListener 0)) (by decide +kernel)
    ⟨rfl, fun l hl => by cases hl; exact hheld⟩ 60
  have hasked : ((Moment.pursue 60 (.ask (.closeListener 0)) (childSession [.child .ignores])).1.loop.routine? 3).map
      Routine.isAsked = some true := by decide +kernel
  obtain ⟨r, hroot, hr⟩ := Option.map_eq_some_iff.mp hasked
  have hrun : IsRun (abandonedSession.1 :: abandonedSession.2) := hclose.pursue (s := .cancel 3) (by decide +kernel)
    ⟨r, hroot, hr⟩ 60
  refine ⟨_, _, hrun, ?_, ?_, ?_, ?_, ?_⟩
  · decide +kernel
  · decide +kernel
  · decide +kernel
  · decide +kernel
  · exact (by decide +kernel : ¬ (abandonedSession.1.loop.state.child 0).isAlive = false)

end DiagnosticsClient
