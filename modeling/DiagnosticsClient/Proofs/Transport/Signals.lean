import DiagnosticsClient.Proofs.Transport.Custody
import DiagnosticsClient.Proofs.Transport.Overdue
/-
The signals that a transport sends to its child.

A stop takes the child from its transport, so there is one that asks the child to end, and it
alone may kill it (`Stage`). It goes on to do so only when the wait for the child has run out
of time (`Halting`): the limit leaves no time at all, or the child lived when its time had come
(`signals_disciplined`). A child that ends after that moment is killed all the same, and so
is one that has ended if there was no time at all (`killed_when_dead`).
-/
namespace DiagnosticsClient

open Async Async.Machine

/-- A child did not end within a limit. -/
def Overstays (c : ChildId) (limit : Seconds) (moments : List Watch) : Prop :=
  limit.isOver = true ∨
    ∃ seconds d, limit.toBinary? = some seconds ∧ AskedAt d moments ∧ Late c (d.loop.now.add seconds) moments

/-- How far a stop has got that has asked a child to end. -/
inductive Halting (c : ChildId) (limit : Seconds) (a : Watch) (past : List Watch) : Thread Routine Frame Value Failure → Prop
  | limits (hasked : AskedAt a (a :: past)) : Halting c limit a past ⟨.begins (.within limit (.awaitExit c)), [.terminating c]⟩
  | waits {v : TaskId} {w : FutureId} {seconds : Binary64} {d : Watch} {top : Top Routine Value Failure}
      (hseconds : limit.toBinary? = some seconds) (hasked : AskedAt d (a :: past))
      (htop : top = .waits w ∨ ∃ o, top = .resumes o ∧ (a.loop.outcome? w = some o ∨ o = .cancelled))
      (h : Clocked v w c (d.loop.now.add seconds) a past) : Halting c limit a past ⟨top, [.timing v w, .terminating c]⟩
  | overstays {th : Thread Routine Frame Value Failure} (h : Overstays c limit (a :: past)) (hs : [.terminating c] <:+ th.stack) :
      Halting c limit a past th
  | abandons {v : TaskId} {w : FutureId} : Halting c limit a past ⟨.begins (.cancelAndWait v), [.abandoned w, .terminating c]⟩
  | cancels {v : TaskId} {w x f : FutureId} {d : Binary64} (h : Loop.Tended x f d True a.loop) :
      Halting c limit a past ⟨.waits x, [.cancelWaiting v x, .abandoned w, .terminating c]⟩
  | cancelled {v : TaskId} {w x : FutureId} {o : Ending} (ho : ∀ e, o ≠ .failed e) :
      Halting c limit a past ⟨.resumes o, [.cancelWaiting v x, .abandoned w, .terminating c]⟩
  | abandoned {w : FutureId} {o : Ending} (ho : ∀ e, o ≠ .failed e) :
      Halting c limit a past ⟨.resumes o, [.abandoned w, .terminating c]⟩
  | ends {o : Ending} (ho : ∀ text, o ≠ .failed (.timedOut text)) : Halting c limit a past ⟨.resumes o, [.terminating c]⟩

section goes

variable {role role' : FutureId → Role} {a b d : Watch} {past : List Watch} {u v : TaskId} {c : ChildId} {w f : FutureId}
  {limit : Seconds} {th : Thread Routine Frame Value Failure} {o : Ending}

open Loop

theorem Overstays.cons (h : Overstays c limit past) : Overstays c limit (a :: past) :=
  h.imp_right fun ⟨seconds, d, hseconds, hasked, hlate⟩ => ⟨seconds, d, hseconds, hasked.cons, hlate.cons⟩

/-- A stop that has come to the end of its wait without time fails for a reason. -/
theorem Halting.overstays_of_timedOut {text : Text} (h : Halting c limit a past ⟨.resumes (.failed (.timedOut text)), [.terminating c]⟩) :
    Overstays c limit (a :: past) := by
  cases h with
  | overstays h => exact h
  | ends ho => exact absurd rfl (ho text)

theorem Halting.suffix (h : Halting c limit a past th) : [.terminating c] <:+ th.stack := by
  cases h with
  | overstays _ hs => exact hs
  | limits => exact List.suffix_refl _
  | ends => exact List.suffix_refl _
  | waits => exact List.suffix_cons _ _
  | abandons => exact List.suffix_cons _ _
  | abandoned => exact List.suffix_cons _ _
  | cancels => exact (List.suffix_cons _ _).trans (List.suffix_cons _ _)
  | cancelled => exact (List.suffix_cons _ _).trans (List.suffix_cons _ _)

/-- A stop that has asked a child to end waits for it to end. -/
def Halts (c : ChildId) (limit : Seconds) (u : TaskId) (b : Watch) (past : List Watch) : Prop :=
  ∃ th, b.loop.thread? u = some th ∧ Halting c limit b past th

/-- **A limit is set** for the end of the child. -/
theorem halts_of_limits (hrun : IsWatched (b :: a :: past)) (hf : Fits role a.loop .transport)
    (hasked : AskedAt a (a :: past)) (hlt : c < b.loop.state.children.length)
    (hc : Loop.Course .transport role a.loop u ⟨.begins (.within limit (.awaitExit c)), [.terminating c]⟩ role' b.loop) :
    Halts c limit u b (a :: past) := by
  obtain ⟨ha, -⟩ := hrun.lastStep
  obtain ⟨hr, ⟨called, root, -, hd⟩, hloop⟩ := hc.of_begins
  by_cases hover : limit.isOver = true
  · exact ⟨_, by rw [hloop]; exact hd.switch.self, .overstays (.inl hover) (suffix_nextThread _ _ _)⟩
  rw [Bool.not_eq_true] at hover
  cases htime : limit.toBinary? with
  | none =>
    have hbegin : begin (.within limit (.awaitExit c)) a.loop = (a.loop, .done (.failed .limitTooLong)) := by
      simp [begin, within, hover, htime]
    obtain ⟨-, hth⟩ := hc.begun hbegin
    exact ⟨_, hth, .ends fun text h => by cases h⟩
  | some seconds =>
    have hlimits := hd.limits hf hr hover htime
    rw [← hloop] at hlimits
    have hbuilt : Built a.loop.tasks.size c (b :: a :: past) := by
      intro e he hroutine
      rcases List.mem_cons.mp he with rfl | he
      · exact hlt
      · cases (routine?_size a.loop).symm.trans (ha.routine_of_mem he hroutine)
    refine ⟨_, hlimits.thread, .waits htime hasked.cons (.inl rfl) ⟨hlimits.made, hbuilt, _, hlimits.owner, .inl (hlimits.timed ?_ ?_)⟩⟩
    · obtain ⟨older, hsuffix, hne, -⟩ := hasked
      exact fun hdue => .inr (.inr ⟨HasCome.cons ⟨a, List.mem_cons_self, hne, hdue⟩, .inr ⟨_, rfl, hlimits.starts⟩⟩)
    · obtain ⟨role', hf'⟩ := hrun.fits
      exact fun hset => .inl (hasEnded_of_owner hf'.tidy.sound.owned hlimits.owner hset)

/-- **The wait for the child is over**: the child has ended, or there is a reason, or the stop is cancelled. -/
theorem halts_of_waited {seconds : Binary64} (hrun : IsWatched (a :: past)) (hf : Fits role a.loop .transport)
    (hroot : a.loop.routine? u = some (.stop 0)) (hseconds : limit.toBinary? = some seconds) (hasked : AskedAt d (a :: past))
    (ho : a.loop.outcome? w = some o ∨ o = .cancelled) (h : Clocked v w c (d.loop.now.add seconds) a past)
    (hc : Loop.Course .transport role a.loop u ⟨.resumes o, [.timing v w, .terminating c]⟩ role' b.loop) : Halts c limit u b (a :: past) := by
  obtain ⟨-, hr, -⟩ := hc.of_resumes
  obtain ⟨-, hth⟩ := hc.resumed (Prod.eta _).symm
  simp only [resume, timeResumed] at hth
  split at hth
  · next hended =>
    obtain ⟨o', ho'⟩ := Option.isSome_iff_exists.mp hended
    have hending : a.loop.taskEnding v = o' := by rw [taskEnding, ho']; rfl
    rcases hrun.awaitsExit h.made h.built with ⟨th', hthv, -⟩ | ⟨o'', ho'', hne⟩
    · cases (hf.tidy.sound.taskOutcome?_of_thread? hthv).symm.trans ho'
    · cases ho'.symm.trans ho''
      exact ⟨_, hth, .ends fun text heq => hne _ (hending.symm.trans heq)⟩
  · next hnot =>
    cases o with
    | value x =>
      have ho := ho.resolve_right fun h => by cases h
      obtain ⟨f, -, htimed | hcancelled⟩ := h.tended
      · refine ⟨_, hth, .overstays (.inr ⟨seconds, d, hseconds, hasked.cons, Late.cons ?_⟩) (List.suffix_cons _ _)⟩
        rcases (htimed.outcome ho).2 with hended | hlate | ⟨-, ⟨y, hy, heq⟩ | ⟨k, -, hsoon⟩⟩
        · exact absurd hended hnot
        · exact hlate
        · cases hr.symm.trans hy
          obtain rfl : u = v := heq
          cases hroot.symm.trans h.made
        · cases (isSettled_eq_false.mp hsoon.1).symm.trans ho
      · cases hcancelled.symm.trans ho
    | _ => exact ⟨_, hth, .abandons⟩

/-- A stop that was cancelled has its wait cancelled, too. -/
theorem halts_of_abandons (hf : Fits role a.loop .transport)
    (hc : Loop.Course .transport role a.loop u ⟨.begins (.cancelAndWait v), [.abandoned w, .terminating c]⟩ role' b.loop) :
    Halts c limit u b (a :: past) := by
  obtain ⟨hr, ⟨called, root, -, hd⟩, hloop⟩ := hc.of_begins
  have htended := hd.awaitsEnd hf hr a.loop.now hloop
  have hmove := hd.does.move
  have hself := hd.switch.self
  have houtcome := fun {f} => hd.switch.outcome (f := f)
  rw [← hloop] at hself houtcome
  rw [show (begin (.cancelAndWait v) a.loop).2 = .await a.loop.futures.size (.cancelWaiting v a.loop.futures.size) from rfl] at hmove hself
  cases hmove with
  | await _ hawaits =>
    cases hawaits with
    | cancelWaiting _ _ hrole =>
      cases ho : (begin (.cancelAndWait v) a.loop).1.outcome? a.loop.futures.size with
      | none =>
        simp only [nextThread, ho] at hself
        exact ⟨_, hself, .cancels htended⟩
      | some o =>
        simp only [nextThread, ho] at hself
        exact ⟨_, hself, .cancelled (Tended.not_failed htended ((houtcome hrole.1).trans ho))⟩

/-- Whoever waits is woken by nothing but what tends his future, or he is cancelled. -/
theorem halts_of_cancels {x f : FutureId} {time : Binary64} (hg : Watch.Goes role a role' b) (hf : Fits role a.loop .transport)
    (hth : a.loop.thread? u = some ⟨.waits x, [.cancelWaiting v x, .abandoned w, .terminating c]⟩)
    (hroot : a.loop.routine? u = some (.stop 0)) (h : Tended x f time True a.loop)
    (hc : Loop.Course .transport role a.loop u ⟨.waits x, [.cancelWaiting v x, .abandoned w, .terminating c]⟩ role' b.loop) :
    Halts c limit u b (a :: past) := by
  have hrole : a.loop.HasRole role .reserved x := by
    obtain ⟨_, -, hfits⟩ := hf.threads hth
    cases hfits with
    | waits _ hawaits _ => cases hawaits with | cancelWaiting _ _ h => exact h
  have htended : Tended x f time True b.loop :=
    hg.tended hf hrole.2 hth hroot rfl h (fun _ => id) (fun _ _ _ _ _ _ => id) (fun _ _ _ _ => ⟨id, fun _ => trivial⟩) fun _ => trivial
  cases hc with
  | rests _ _ hth' => exact ⟨_, hth', .cancels htended⟩
  | awakes how switch =>
    cases how with
    | resumes _ ho => exact ⟨_, switch.self, .cancelled (h.not_failed ho)⟩
    | interrupted => exact ⟨_, switch.self, .cancelled fun e h => by cases h⟩

/-- **A stop that has asked a child to end goes on as it should**, until its wait is over. -/
theorem Halting.step (h : Halting c limit a past th) (hrun : IsWatched (b :: a :: past)) (hg : Watch.Goes role a role' b)
    (hf : Fits role a.loop .transport) (hf' : Fits role' b.loop .transport) (hth : a.loop.thread? u = some th)
    (hroot : a.loop.routine? u = some (.stop 0)) (hlt : c < b.loop.state.children.length) (hasked' : b.loop.state.signals ≠ []) :
    Halts c limit u b (a :: past) ∨ ∃ o, th = ⟨.resumes o, [.terminating c]⟩ := by
  have hc := hg.course hf hf' hth
  cases h with
  | limits hasked => exact .inl (halts_of_limits hrun hf hasked hlt hc)
  | @waits v w seconds d top hseconds hasked htop h =>
    refine .inl ?_
    rcases htop with rfl | ⟨o, rfl, ho⟩
    · have hrole : a.loop.HasRole role .reserved w := by
        obtain ⟨_, -, hfits⟩ := hf.threads hth
        cases hfits with
        | waits _ hawaits _ => cases hawaits with | timing _ h => exact h
      have hclocked := h.step hrun hg hf hf' hrole.2 hth hroot rfl hlt hasked'
      cases hc with
      | rests _ _ hth' => exact ⟨_, hth', .waits hseconds hasked.cons (.inl rfl) hclocked⟩
      | awakes how switch =>
        cases how with
        | resumes _ ho =>
          exact ⟨_, switch.self, .waits hseconds hasked.cons (.inr ⟨_, rfl, .inl ((switch.outcome hrole.1).trans ho)⟩) hclocked⟩
        | interrupted => exact ⟨_, switch.self, .waits hseconds hasked.cons (.inr ⟨_, rfl, .inr rfl⟩) hclocked⟩
    · exact halts_of_waited hrun.lastStep.1 hf hroot hseconds hasked ho h hc
  | overstays h hs =>
    rcases hc.beneath hs with ⟨o, rfl⟩ | ⟨th', hth', hs'⟩
    · exact .inr ⟨o, rfl⟩
    · exact .inl ⟨th', hth', .overstays h.cons hs'⟩
  | abandons => exact .inl (halts_of_abandons hf hc)
  | cancels h => exact .inl (halts_of_cancels hg hf hth hroot h hc)
  | cancelled ho =>
    obtain ⟨-, hth'⟩ := hc.resumed (Prod.eta _).symm
    exact .inl ⟨_, hth', .abandoned ho⟩
  | @abandoned w o ho =>
    obtain ⟨-, hth'⟩ := hc.resumed (Prod.eta _).symm
    refine .inl ⟨_, hth', ?_⟩
    cases o with
    | failed e => exact absurd rfl (ho e)
    | value v => exact .ends fun text h => by cases h
    | cancelled => exact .ends fun text h => by cases h
  | ends ho => exact .inr ⟨_, rfl⟩

/-! ## One child, one stop -/

/-- Before its transport was begun there is no child, and the transport drives none but the first. -/
theorem IsWatched.sole (h : IsWatched (a :: past)) :
    ((a.loop.state.childTransport 0).phase = .idle → a.loop.state.children.length = 0) ∧
      ∀ c, a.loop.state.drives 0 = some c → c = 0 ∧ 0 < a.loop.state.children.length := by
  induction past generalizing a with
  | nil =>
    cases h with
    | new hm =>
      obtain ⟨s, rfl⟩ := hm
      exact ⟨fun _ => rfl, fun c hc => by cases hc⟩
  | cons b past ih =>
    obtain ⟨hb, hdealing, hendures⟩ := h.lastDealing
    obtain ⟨hnone, hfirst⟩ := ih hb
    have hkept : a.loop.state.children.length = b.loop.state.children.length → (a.loop.state.childTransport 0).phase = .idle →
        a.loop.state.children.length = 0 := fun hl hidle => hl.trans (hnone (hendures.begun hidle))
    cases hdealing with
    | keeps hd hl => exact ⟨hkept hl, fun c hc => hl ▸ hfirst c (hd.symm.trans hc)⟩
    | launches hidle hd hbegun hl =>
      refine ⟨fun hidle => absurd hidle hbegun, fun c hc => ?_⟩
      rw [hnone hidle] at hd hl
      cases hd.symm.trans hc
      exact ⟨rfl, by rw [hl]; exact Nat.zero_lt_one⟩
    | clears hd _ hl => exact ⟨hkept hl, fun c hc => by cases hd.symm.trans hc⟩
    | terminates _ _ _ _ hd hl => exact ⟨hkept hl, fun c hc => by cases hd.symm.trans hc⟩
    | kills _ _ hd hl => exact ⟨hkept hl, fun c hc => hl ▸ hfirst c (hd.symm.trans hc)⟩

/-- A stop that has come to the tasks of its transport has begun. -/
theorem IsWatched.stops (h : IsWatched (a :: past)) (hroot : a.loop.routine? u = some (.stop 0)) {us : List TaskId}
    (hth : a.loop.thread? u = some ⟨.begins (.endTasks 0 us), []⟩) : ∃ e ∈ a :: past, e.loop.Stops := by
  have hfollow := h.follow
    (P := fun a past th => th = ⟨.fresh (.stop 0), []⟩ ∨ (∃ o, th = ⟨.resumes o, []⟩) ∨ ∃ e ∈ a :: past, e.loop.Stops)
    (Q := fun _ _ _ => True) (.inl rfl) ?_ (fun _ _ _ _ _ _ => trivial) hroot
  · rcases hfollow with ⟨th, hth', rfl | ⟨o, rfl⟩ | hstops⟩ | ⟨o, ho, -⟩
    · cases hth.symm.trans hth'
    · cases hth.symm.trans hth'
    · exact hstops
    · obtain ⟨role, hf⟩ := h.fits
      cases (hf.tidy.sound.taskOutcome?_of_thread? hth).symm.trans ho
  · rintro role role' a b past th - - - - - - hc (rfl | ⟨o, rfl⟩ | ⟨e, he, hstops⟩)
    · refine .inl ?_
      cases hc with
      | rests _ _ hth' => exact ⟨_, hth', .inl rfl⟩
      | awakes how switch =>
        cases how with
        | begins =>
          obtain ⟨x, hx, htask, hthread⟩ := running_of_thread? switch.self rfl
          refine ⟨_, switch.self, .inr (.inr ⟨b, List.mem_cons_self, ?_⟩)⟩
          cases x <;> cases hthread
          exact ⟨_, _, hx⟩
        | dropped => exact ⟨_, switch.self, .inr (.inl ⟨_, rfl⟩)⟩
    · exact .inr ⟨o, hc.of_ends, trivial⟩
    · exact hc.proceeds.imp (fun ⟨th', hth'⟩ => ⟨th', hth', .inr (.inr ⟨e, List.mem_cons_of_mem _ he, hstops⟩)⟩)
        fun ⟨o, ho⟩ => ⟨o, ho, trivial⟩

/-! ## What is signalled -/

theorem State.signals_of_errands {s s' : State} (h : s'.errands = s.errands) : s'.signals = s.signals := by
  rw [State.signals, h, State.signals]

theorem State.signals_of_signalled {s s' : State} {signal : Signal} (h : s'.errands = s.errands ++ [.signalled c signal]) :
    s'.signals = s.signals ++ [(c, signal)] := by
  simp [State.signals, h, List.filterMap_append]

/-- How far a transport has got with its signals, and who may send the next one. -/
inductive Discipline (limit : Seconds) (a : Watch) (past : List Watch) : Prop
  | before (hs : ∀ e ∈ a :: past, e.loop.state.signals = []) (hnone : ∀ {c u}, ¬ a.loop.TakenBy c u)
  | asked {u : TaskId} {th : Thread Routine Frame Value Failure} (hs : a.loop.state.signals = [(0, .terminate)])
      (hletgo : a.loop.LetGo) (hlt : 0 < a.loop.state.children.length) (hroot : a.loop.routine? u = some (.stop 0))
      (hth : a.loop.thread? u = some th) (h : Halting 0 limit a past th) (hone : ∀ {c w}, a.loop.TakenBy c w → w = u)
  | ended (hs : a.loop.state.signals = [(0, .terminate)] ∨ a.loop.state.signals = [(0, .terminate), (0, .kill)])
      (hletgo : a.loop.LetGo) (hnone : ∀ {c u}, ¬ a.loop.TakenBy c u)

/-- What a step signals. -/
inductive Signals (limit : Seconds) (a : Watch) (past : List Watch) (b : Watch) : Prop
  | nothing (h : b.loop.state.signals = a.loop.state.signals)
  | terminates (h : a.loop.state.signals = []) (h' : b.loop.state.signals = [(0, .terminate)]) (hlive : ¬ a.loop.state.IsDead 0)
      (hstop : ∃ e ∈ a :: past, e.loop.Stops)
  | kills (h : a.loop.state.signals = [(0, .terminate)]) (h' : b.loop.state.signals = [(0, .terminate), (0, .kill)])
      (hover : Overstays 0 limit (a :: past))

/-- Who is to kill a child has taken it. -/
theorem Loop.takenBy_of_terminating {m : Loop} (hr : m.running = some (.resume u o [.terminating c])) : m.TakenBy c u :=
  ⟨_, thread?_of_running hr, List.suffix_refl _⟩

/-- Before a child was taken there are no signals but the first. -/
theorem Discipline.step_before (hs : ∀ e ∈ a :: past, e.loop.state.signals = []) (hnone : ∀ {c u}, ¬ a.loop.TakenBy c u)
    (hrun : IsWatched (b :: a :: past)) :
    Discipline a.loop.state.settings.shutdownLimit b (a :: past) ∧ Signals a.loop.state.settings.shutdownLimit a past b := by
  obtain ⟨ha, hdealing, hendures⟩ := hrun.lastDealing
  have hnow := hs a List.mem_cons_self
  have hrest : b.loop.state.errands = a.loop.state.errands → TakesNone a.loop b.loop →
      Discipline a.loop.state.settings.shutdownLimit b (a :: past) ∧ Signals a.loop.state.settings.shutdownLimit a past b := by
    intro he hk
    have hsame := State.signals_of_errands he
    refine ⟨.before (fun e hmem => ?_) fun h => hnone (hk h), .nothing hsame⟩
    rcases List.mem_cons.mp hmem with rfl | hmem
    · exact hsame.trans hnow
    · exact hs e hmem
  cases hdealing with
  | keeps _ _ he hk => exact hrest he hk
  | launches _ _ _ _ he hk => exact hrest he hk
  | clears _ _ _ he hk => exact hrest he hk
  | @terminates u us c hr hroot hd hlive hd' hl hth he hk =>
    obtain ⟨rfl, hlt⟩ := ha.sole.2 c hd
    have hb : b.loop.state.signals = [(0, .terminate)] := by rw [State.signals_of_signalled he, hnow]; rfl
    have hasked : AskedAt b (b :: a :: past) := ⟨_, List.suffix_refl _, by rw [hb]; exact List.cons_ne_nil _ _, hs⟩
    have hletgo : b.loop.LetGo := ⟨fun hidle => ha.begun hd (hendures.begun hidle), hd'⟩
    refine ⟨.asked hb hletgo (hl ▸ hlt) (hendures.routine hroot) hth (.limits hasked) fun h => (hk h).resolve_right hnone,
      .terminates hnow hb hlive (ha.stops hroot (thread?_of_running hr))⟩
  | kills hr => exact absurd (takenBy_of_terminating hr) hnone

/-- The stop that asked the child to end alone may kill it. -/
theorem Discipline.step_asked (hs : a.loop.state.signals = [(0, .terminate)]) (hletgo : a.loop.LetGo)
    (hlt : 0 < a.loop.state.children.length) (hroot : a.loop.routine? u = some (.stop 0)) (hth : a.loop.thread? u = some th)
    (h : Halting 0 limit a past th) (hone : ∀ {c w}, a.loop.TakenBy c w → w = u) (hrun : IsWatched (b :: a :: past)) :
    Discipline limit b (a :: past) ∧ Signals limit a past b := by
  obtain ⟨-, -, role, role', hf, hf', hgoes⟩ := hrun.lastStep
  obtain ⟨-, hdealing, hendures⟩ := hrun.lastDealing
  have hletgo' := hletgo.step hdealing hendures
  have hlt' := Nat.lt_of_lt_of_le hlt hendures.launched
  -- whoever has come to the end of the wait for the child has it in hand no more
  have hnone : TakesNone a.loop b.loop → (∃ o, th = ⟨.resumes o, [.terminating 0]⟩) → ∀ {c w}, ¬ b.loop.TakenBy c w := by
    rintro hk ⟨o, rfl⟩ c w htaken
    obtain rfl := hone (hk htaken)
    obtain ⟨th, hth', hsuffix⟩ := htaken
    obtain ⟨-, hself⟩ := (hgoes.course hf hf' hth).resumed (Prod.eta _).symm
    cases hself.symm.trans hth'
    have hnil : ∀ {c}, ¬ [Frame.terminating c] <:+ [] := fun h => by cases h.subset List.mem_cons_self
    have hkilling : ¬ [Frame.terminating c] <:+ [.killing 0] := fun h => by
      cases List.mem_singleton.mp (h.subset List.mem_cons_self)
    simp only [resume, terminateResumed] at hsuffix
    split at hsuffix
    · exact hnil hsuffix
    · exact hkilling hsuffix
    · exact hnil hsuffix
  have hrest : b.loop.state.errands = a.loop.state.errands → TakesNone a.loop b.loop →
      Discipline limit b (a :: past) ∧ Signals limit a past b := by
    intro he hk
    have hsame := State.signals_of_errands he
    have hb := hsame.trans hs
    refine ⟨?_, .nothing hsame⟩
    rcases h.step hrun hgoes hf hf' hth hroot hlt' (by rw [hb]; exact List.cons_ne_nil _ _) with ⟨th', hth', h'⟩ | hend
    · exact .asked hb hletgo' hlt' (hendures.routine hroot) hth' h' fun h => hone (hk h)
    · exact .ended (.inl hb) hletgo' (hnone hk hend)
  cases hdealing with
  | keeps _ _ he hk => exact hrest he hk
  | launches hidle => exact absurd hidle hletgo.1
  | clears _ _ _ he hk => exact hrest he hk
  | terminates _ _ hd => cases hletgo.2.symm.trans hd
  | kills hr hroot' hd hl he hk =>
    obtain rfl := hone (takenBy_of_terminating hr)
    cases hth.symm.trans (thread?_of_running hr)
    have hsuffix : [Frame.terminating 0] <:+ [Frame.terminating _] := h.suffix
    cases hsuffix.eq_of_length rfl
    have hb : b.loop.state.signals = [(0, .terminate), (0, .kill)] := by rw [State.signals_of_signalled he, hs]; rfl
    exact ⟨.ended (.inr hb) hletgo' (hnone hk ⟨_, rfl⟩), .kills hs hb h.overstays_of_timedOut⟩

/-- Once nobody has the child in hand there are no signals any more. -/
theorem Discipline.step_ended (hs : a.loop.state.signals = [(0, .terminate)] ∨ a.loop.state.signals = [(0, .terminate), (0, .kill)])
    (hletgo : a.loop.LetGo) (hnone : ∀ {c u}, ¬ a.loop.TakenBy c u) (hrun : IsWatched (b :: a :: past)) :
    Discipline limit b (a :: past) ∧ Signals limit a past b := by
  obtain ⟨-, hdealing, hendures⟩ := hrun.lastDealing
  have hletgo' := hletgo.step hdealing hendures
  have hrest : b.loop.state.errands = a.loop.state.errands → TakesNone a.loop b.loop →
      Discipline limit b (a :: past) ∧ Signals limit a past b := by
    intro he hk
    have hsame := State.signals_of_errands he
    exact ⟨.ended (by rwa [hsame]) hletgo' fun h => hnone (hk h), .nothing hsame⟩
  cases hdealing with
  | keeps _ _ he hk => exact hrest he hk
  | launches hidle => exact absurd hidle hletgo.1
  | clears _ _ _ he hk => exact hrest he hk
  | terminates _ _ hd => cases hletgo.2.symm.trans hd
  | kills hr => exact absurd (takenBy_of_terminating hr) hnone

/-- **A transport stays disciplined.** -/
theorem Discipline.step (h : Discipline a.loop.state.settings.shutdownLimit a past) (hrun : IsWatched (b :: a :: past)) :
    Discipline a.loop.state.settings.shutdownLimit b (a :: past) ∧ Signals a.loop.state.settings.shutdownLimit a past b := by
  cases h with
  | before hs hnone => exact step_before hs hnone hrun
  | asked hs hletgo hlt hroot hth h hone => exact step_asked hs hletgo hlt hroot hth h hone hrun
  | ended hs hletgo hnone => exact step_ended hs hletgo hnone hrun

end goes

end DiagnosticsClient
