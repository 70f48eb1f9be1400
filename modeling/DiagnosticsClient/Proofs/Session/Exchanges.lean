import DiagnosticsClient.Proofs.Session.Answers
import DiagnosticsClient.Proofs.Session.Guards
/-
How an exchange goes whose time is limited.

The exchange is a task of its own. As long as nobody cancels it, it goes on as every
exchange does (`Inquiry`), but for a transport that cannot be started or stopped and for
requests that cannot be written: then it leaves or ends whatever its listener is given
(`Departure`). Either way it ends because time has run out only if it has for the start or
the stop of a transport (`IsRun.pursuit`). And while it waits for anything else than the
lock or a transport, it waits for its listener, and no answer was given to that
(`Pursuit.silent`).
-/
namespace DiagnosticsClient

open Async Async.Machine

/-- A failure of one who has run out of time. -/
def Failure.isTimeout : Failure → Bool
  | .timedOut _ => true
  | .noDiagnostics .. => true
  | _ => false

/-- Somebody has run out of time. -/
def Ending.isTimeout : Ending → Bool
  | .failed e => e.isTimeout
  | _ => false

/-- The transport that a task starts or stops has run out of time. -/
def Loop.lags (m : Loop) (u : TaskId) : Bool :=
  match m.running with
  | some (.resume t o (F :: _)) => t = u && F.hold.isSome && Ending.isTimeout o
  | _ => false

/-- A transport that a task started or stopped has run out of time. -/
def Lagged (u : TaskId) (moments : List Moment) : Prop := ∃ b ∈ moments, b.loop.lags u = true

/-- No response that answers a request was given to the listeners that a task has made for it. -/
def Unanswered (u : TaskId) (asking : Request) (moments : List Moment) : Prop :=
  ∀ l ∈ enlisted u moments, ∀ r, .message (.response r) ∈ offered l moments → r.answers asking = false

/-- An exchange ends whatever its listener is given: it has failed, or it leaves. Time has run out for it only if it has
for a transport. -/
inductive Departure (late : Prop) (l : ListenerId) : Thread Routine Frame Value Failure → Prop
  | fails {o : Ending} (ho : Ending.isTimeout o = true → late) (hv : o.isValue = false) {opening asking : Request} :
      Departure late l ⟨.resumes o, [.opening l, .introducing l opening asking]⟩
  | failed {o : Ending} (ho : Ending.isTimeout o = true → late) (hv : o.isValue = false) {opening asking : Request} :
      Departure late l ⟨.resumes o, [.introducing l opening asking]⟩
  | leaves {e : Ending} (he : Ending.isTimeout e = true → late) : Departure late l ⟨.begins (.closeListener l), [.finishing e]⟩
  | exits {th : Thread Routine Frame Value Failure} {e : Ending} (he : Ending.isTimeout e = true → late)
      (ht : Locks [.leaving l, .finishing e] th) : Departure late l th
  | stops {th : Thread Routine Frame Value Failure} {e : Ending} (he : Ending.isTimeout e = true → late)
      (ht : [.releasing, .finishing e] <:+ th.stack) : Departure late l th
  | left {e o : Ending} (he : Ending.isTimeout e = true → late) (ho : Ending.isTimeout o = true → late) :
      Departure late l ⟨.resumes o, [.finishing e]⟩
  | finished {e : Ending} (he : Ending.isTimeout e = true → late) : Departure late l ⟨.resumes e, []⟩

/-- How far an exchange has got that nobody has cancelled. -/
inductive Pursuit (u : TaskId) (opening asking : Request) (a : Moment) (past : List Moment) :
    Thread Routine Frame Value Failure → Prop
  | fresh (hl : enlisted u (a :: past) = []) : Pursuit u opening asking a past ⟨.fresh (.exchange opening asking), []⟩
  | begins (hl : enlisted u past = []) : Pursuit u opening asking a past ⟨.begins (.exchange opening asking), []⟩
  | goes {l : ListenerId} {th : Thread Routine Frame Value Failure} (hl : enlisted u (a :: past) = [l])
      (h : Inquiry asking l [] a.loop (taken l (a :: past)) th) : Pursuit u opening asking a past th
  | departs {l : ListenerId} {th : Thread Routine Frame Value Failure} (hl : enlisted u (a :: past) = [l])
      (h : Departure (Lagged u past) l th) : Pursuit u opening asking a past th

/-- Where an exchange that departs is after a step. -/
def Departure.Next (late : Prop) (l : ListenerId) (u : TaskId) (m : Loop) : Prop :=
  (∃ th, m.thread? u = some th ∧ Departure late l th) ∨
    ∃ o, m.taskOutcome? u = some o ∧ (Ending.isTimeout o = true → late)

section steps

variable {role role' : FutureId → Role} {m m' : Loop} {u : TaskId} {l : ListenerId} {asking opening : Request}
  {ds : List Delivery} {e o : Ending} {th : Thread Routine Frame Value Failure} {late late' : Prop} {v : Value}

theorem Departure.Next.reached (h : Departure late l th) (hth : m.thread? u = some th) : Departure.Next late l u m :=
  .inl ⟨th, hth, h⟩

/-- What decides an exchange is no lack of time. -/
theorem isTimeout_of_verdict (h : verdict asking ds = some e) : Ending.isTimeout e = false := by
  obtain ⟨d, -, hd⟩ := List.exists_of_findSome?_eq_some h
  cases d with
  | message message =>
    cases message with
    | response r =>
      simp only [Delivery.decides] at hd
      split at hd <;> cases hd
      rfl
    | _ => cases hd
  | ended error => cases error <;> cases hd <;> rfl

/-- An item that is undecided is no answer. -/
theorem not_answers_of_verdict (h : verdict asking ds = none) {r : Response} (hr : .message (.response r) ∈ ds) :
    r.answers asking = false := by
  have hd := List.findSome?_eq_none_iff.mp h _ hr
  simp only [Delivery.decides] at hd
  split at hd
  · cases hd
  · next hne => exact Bool.eq_false_iff.mpr hne

namespace Loop

/-- What cannot be written cannot be encoded. -/
theorem sendAll_failure {rs : List Request} {failure : Failure} (h : (m.sendAll rs).2 = some failure) : ∃ e, failure = .encode e := by
  have hsend : ∀ {m : Loop} {r : Request} {failure : Failure}, (m.send r).2 = some failure → ∃ e, failure = .encode e := by
    intro m r failure h
    unfold send at h
    dsimp only at h
    split at h
    · cases h
    · unfold write at h
      split at h
      · cases h
      · split at h
        · next hline =>
          cases h
          unfold writeLine at hline
          dsimp only at hline
          split at hline
          · split at hline
            · cases hline
            · split at hline <;> cases hline
              exact ⟨_, rfl⟩
          · cases hline
        · cases h
        · cases h
  induction rs generalizing m with
  | nil => cases h
  | cons r rest ih =>
    unfold sendAll at h
    split at h
    · exact ih h
    · next hm =>
      cases h
      exact hsend (congrArg Prod.snd hm)

/-- Whoever leaves with the lock stops the transport if he was the last. -/
theorem leaveLocked_move (l : ListenerId) (v : Value) (m : Loop) :
    (∃ t, (resume (.leaving l) (.value v) m).2 = .call (.stop t) .releasing) ∨
      (resume (.leaving l) (.value v) m).2 = .done (.value .nothing) := by
  simp only [resume, leaveLocked]
  split
  · split
    · exact .inl ⟨_, rfl⟩
    · exact .inr rfl
  · exact .inr rfl

theorem lags_of_running {F : Frame} {stack : List Frame} (hr : m.running = some (.resume u o (F :: stack)))
    (hF : F.hold.isSome = true) (ho : Ending.isTimeout o = true) : m.lags u = true := by
  simp [lags, hr, hF, ho]

end Loop

/-! ## Who departs -/

open Loop in
/-- **An exchange that departs departs**, with no lack of time but that of a transport. -/
theorem Departure.turn (h : Departure late l th) (ht : Turn role m u th role' m') (hf : Fits role m)
    (hth : m.thread? u = some th) (hsp : m.Spares u) (hlate : late → late') (hlags : m.lags u = true → late') :
    Departure.Next late' l u m' := by
  cases h with
  | @fails o ho hv opening asking =>
    cases o with
    | value v => cases hv
    | _ =>
      obtain ⟨-, hth'⟩ := ht.resumed rfl
      exact .reached (.failed (fun h => hlate (ho h)) rfl) hth'
  | @failed o ho hv opening asking =>
    cases o with
    | value v => cases hv
    | _ =>
      obtain ⟨-, hth'⟩ := ht.resumed rfl
      exact .reached (.finished fun h => hlate (ho h)) hth'
  | leaves he =>
    obtain ⟨-, hth'⟩ := ht.begun rfl
    exact .reached (.exits (fun h => hlate (he h)) .begins) hth'
  | @exits _ e he hlocks =>
    rcases hlocks.turn ht hth hsp with ⟨v, rfl⟩ | ⟨th', hth', hlocks', -⟩
    · obtain ⟨-, hth'⟩ := ht.resumed (Prod.eta _).symm
      rcases leaveLocked_move l v m with ⟨t, hmove⟩ | hmove <;> rw [hmove] at hth'
      · exact .reached (.stops (fun h => hlate (he h)) (List.suffix_refl _)) hth'
      · exact .reached (.left (fun h => hlate (he h)) fun h => by cases h) hth'
    · exact .reached (.exits (fun h => hlate (he h)) hlocks') hth'
  | @stops _ e he hsuffix =>
    rcases ht.below hf hth (fun h => by cases h) hsuffix with ⟨o, rfl⟩ | ⟨th', hth', hsuffix', -, -⟩
    · obtain ⟨-, hr, -⟩ := ht.of_resumes
      have ho : Ending.isTimeout o = true → late' := fun h => hlags (lags_of_running hr rfl h)
      cases o with
      | value v =>
        obtain ⟨-, hth'⟩ := ht.resumed rfl
        exact .reached (.left (fun h => hlate (he h)) fun h => by cases h) hth'
      | _ =>
        obtain ⟨-, hth'⟩ := ht.resumed rfl
        exact .reached (.left (fun h => hlate (he h)) ho) hth'
    · exact .reached (.stops (fun h => hlate (he h)) hsuffix') hth'
  | @left e o he ho =>
    cases o with
    | value v =>
      obtain ⟨-, hth'⟩ := ht.resumed rfl
      exact .reached (.finished fun h => hlate (he h)) hth'
    | _ =>
      obtain ⟨-, hth'⟩ := ht.resumed rfl
      exact .reached (.finished fun h => hlate (ho h)) hth'
  | finished he =>
    cases ht with
    | rests idle => cases idle
    | awakes how => cases how
    | ends outcome => exact .inr ⟨_, outcome, fun h => hlate (he h)⟩

/-! ## Who comes to depart -/

open Loop in
/-- An exchange whose transport fails it departs. -/
theorem Inquiry.departs_of_balks (h : Inquiry asking l [] m ds th) (ht : Turn role m u th role' m') (hf : Fits role m)
    (hth : m.thread? u = some th) (hlags : m.lags u = true → late) (hb : m.balks u = true) : Departure.Next late l u m' := by
  -- the task goes on from the start or the stop of a transport, with a failure
  obtain ⟨o, F, stack, hr, hF, hv⟩ : ∃ o F stack, m.running = some (.resume u o (F :: stack)) ∧ F.hold.isSome = true ∧
      o.isValue = false := by
    unfold balks at hb
    split at hb
    · next t o F stack hr =>
      simp only [Bool.and_eq_true, decide_eq_true_eq, Bool.not_eq_true'] at hb
      obtain ⟨⟨rfl, hF⟩, hv⟩ := hb
      exact ⟨o, F, stack, hr, hF, hv⟩
    · cases hb
  cases hth.symm.trans (thread?_of_running hr)
  have hlate : Ending.isTimeout o = true → late := fun h => hlags (lags_of_running hr hF h)
  obtain ⟨root, -, hfits⟩ := hf.threads hth
  have hbelow : ∀ {G : Frame} {rest : List Frame}, G.hold ≠ none → G :: rest <:+ F :: stack → G = F ∧ rest = stack := by
    intro G rest hG hsuffix
    rcases List.suffix_cons_iff.mp hsuffix with heq | hsuffix
    · cases heq
      exact ⟨rfl, rfl⟩
    · cases hfits with
      | resumes hs _ _ hstack =>
        have hdrive := hstack.isDriving_of_mem (hsuffix.subset List.mem_cons_self) hG
        rw [hs.hold_of_isDriving hdrive] at hF
        cases hF
  have hlocks : ∀ {rest}, ¬ Locks rest ⟨.resumes o, F :: stack⟩ := by
    rintro rest ⟨⟩ <;> cases hv
  cases h with
  | enters opening h hl => exact absurd hl hlocks
  | exits h hl => exact absurd hl hlocks
  | starts opening t h hsuffix =>
    obtain ⟨rfl, rfl⟩ := hbelow (fun h => by cases h) hsuffix
    cases o with
    | value v => cases hv
    | _ =>
      obtain ⟨-, hth'⟩ := ht.resumed rfl
      exact .reached (.fails hlate rfl) hth'
  | stops h hsuffix =>
    obtain ⟨rfl, rfl⟩ := hbelow (fun h => by cases h) hsuffix
    have he := isTimeout_of_verdict h
    cases o with
    | value v => cases hv
    | _ =>
      obtain ⟨-, hth'⟩ := ht.resumed rfl
      exact .reached (.left (fun h => by rw [he] at h; cases h) hlate) hth'
  | _ => cases hF

open Loop in
/-- An exchange that cannot write its requests departs. -/
theorem Inquiry.departs_of_mutes (h : Inquiry asking l [] m ds th) (ht : Turn role m u th role' m') (hf : Fits role m)
    (hth : m.thread? u = some th) (hm : m.mutes u = true) : Departure.Next late l u m' := by
  obtain ⟨v, l', opening, asking', stack, hr, hall⟩ : ∃ v l' opening asking' stack,
      m.running = some (.resume u (.value v) (.introducing l' opening asking' :: stack)) ∧
        (m.sendAll [opening, asking']).2.isSome = true := by
    unfold mutes at hm
    split at hm
    · next t v l' opening asking' stack hr =>
      simp only [Bool.and_eq_true, decide_eq_true_eq] at hm
      obtain ⟨rfl, hall⟩ := hm
      exact ⟨v, l', opening, asking', stack, hr, hall⟩
    · cases hm
  cases hth.symm.trans (thread?_of_running hr)
  obtain ⟨root, -, hfits⟩ := hf.threads hth
  have hbelow : ∀ {G : Frame} {rest : List Frame}, G.hold ≠ none → G :: rest <:+ .introducing l' opening asking' :: stack → False := by
    intro G rest hG hsuffix
    rcases List.suffix_cons_iff.mp hsuffix with heq | hsuffix
    · cases heq
      exact hG rfl
    · cases hfits with
      | resumes hs _ _ hstack =>
        have hdrive := hstack.isDriving_of_mem (hsuffix.subset List.mem_cons_self) hG
        cases hs with
        | introducing hx => cases hx <;> cases hdrive
  cases h with
  | enters opening h hl => cases hl
  | exits h hl => cases hl
  | starts opening t h hsuffix => exact (hbelow (fun h => by cases h) hsuffix).elim
  | stops h hsuffix => exact (hbelow (fun h => by cases h) hsuffix).elim
  | introduced =>
    obtain ⟨failure, hfailure⟩ := Option.isSome_iff_exists.mp hall
    obtain ⟨e, rfl⟩ := sendAll_failure hfailure
    have hmove : (resume (.introducing l opening asking) (.value v) m).2 = .call (.closeListener l) (.finishing (.failed (.encode e))) := by
      simp only [resume, exchangeOpened]
      split
      · next hsend => cases (congrArg Prod.snd hsend).symm.trans hfailure
      · next hsend =>
        cases (congrArg Prod.snd hsend).symm.trans hfailure
        rfl
    obtain ⟨-, hth'⟩ := ht.resumed (Prod.eta _).symm
    rw [hmove] at hth'
    exact .reached (.leaves fun h => by cases h) hth'

end steps

/-! ## A whole exchange -/

section runs

variable {role role' : FutureId → Role} {a b : Moment} {past newer older : List Moment} {u : TaskId} {l : ListenerId}
  {th th' : Thread Routine Frame Value Failure} {asking opening : Request} {o : Ending}

/-- A departed exchange has begun. -/
theorem Departure.ne_begins {late : Prop} (h : Departure late l th) (r : Routine) : th ≠ ⟨.begins r, []⟩ := by
  rintro rfl
  cases h with
  | exits he ht => cases ht
  | stops he ht => cases ht.subset (.head _)

theorem Lagged.cons (h : Lagged u past) : Lagged u (a :: past) := by
  obtain ⟨b, hb, hlags⟩ := h
  exact ⟨b, List.mem_cons_of_mem _ hb, hlags⟩

/-- What an exchange is about nobody holds. -/
theorem Moment.Holds.not_held_of_exchange (h : a.Holds role) (hth : a.loop.thread? u = some th)
    (hroot : a.loop.routine? u = some (.exchange opening asking)) (huses : Thread.Uses th l) : l ∉ a.held := fun hmem => by
  cases (h.known.kind hth hroot huses).mp hmem

/-- **An exchange goes on as it should, or departs.** -/
theorem Pursuit.step (h : Pursuit u opening asking a past th) (hrun : IsRun (a :: past)) (ha : a.Holds role) (hb : b.Holds role')
    (hg : Goes role a role' b) (hth : a.loop.thread? u = some th) (hroot : a.loop.routine? u = some (.exchange opening asking))
    (hsp : a.loop.Spares u) :
    (∃ th', b.loop.thread? u = some th' ∧ Pursuit u opening asking b (a :: past) th') ∨
      ∃ o, b.loop.taskOutcome? u = some o ∧ (Ending.isTimeout o = true → Lagged u (a :: past)) := by
  have ht := hg.turn ha hb hth
  have hroot' := (hg.keeps ha).routine hroot
  have hnext : ∀ {l}, enlisted u (a :: past) = [l] → (Inquiry.Next asking l [] u (taken l (a :: past)) b.loop ∨
      ∃ o, b.loop.taskOutcome? u = some o ∧ verdict asking (taken l (a :: past)) = some o) →
      (∃ th', b.loop.thread? u = some th' ∧ Pursuit u opening asking b (a :: past) th') ∨
        ∃ o, b.loop.taskOutcome? u = some o ∧ (Ending.isTimeout o = true → Lagged u (a :: past)) := by
    rintro l hl (⟨th', hth', h⟩ | ⟨o, ho, hverdict⟩)
    · refine .inl ⟨th', hth', .goes ?_ (l := l) ?_⟩
      · exact (enlisted_cons (Moment.enlists_eq_none hth' fun _ _ => h.ne_begins _)).trans hl
      · by_cases huses : Thread.Uses th' l
        · rw [taken, hb.receipts hth' (hb.not_held_of_exchange hth' hroot' huses) huses]
          exact h
        · rw [takes_of_not_uses huses, List.append_nil] at h
          exact h.append huses _
    · refine .inr ⟨o, ho, fun h => ?_⟩
      rw [isTimeout_of_verdict hverdict] at h
      cases h
  have hdepart : ∀ {l}, enlisted u (a :: past) = [l] → Departure.Next (Lagged u (a :: past)) l u b.loop →
      (∃ th', b.loop.thread? u = some th' ∧ Pursuit u opening asking b (a :: past) th') ∨
        ∃ o, b.loop.taskOutcome? u = some o ∧ (Ending.isTimeout o = true → Lagged u (a :: past)) := by
    rintro l hl (⟨th', hth', h⟩ | ⟨o, ho, hlate⟩)
    · exact .inl ⟨th', hth', .departs ((enlisted_cons (Moment.enlists_eq_none hth' fun _ _ => h.ne_begins _)).trans hl) h⟩
    · exact .inr ⟨o, ho, hlate⟩
  have hlags : a.loop.lags u = true → Lagged u (a :: past) := fun h => ⟨a, List.mem_cons_self, h⟩
  cases h with
  | fresh hl =>
    refine .inl ?_
    cases ht with
    | rests _ _ hth' =>
      exact ⟨_, hth', .fresh ((enlisted_cons (Moment.enlists_eq_none hth' fun _ _ h => by cases h)).trans hl)⟩
    | awakes how switch =>
      cases how with
      | begins => exact ⟨_, switch.self, .begins hl⟩
      | dropped hheld => exact absurd hheld hsp.free
  | begins hl =>
    -- the listener is made at this moment
    obtain ⟨hr, -⟩ := ht.of_begins
    obtain ⟨hstate, hth'⟩ := ht.begun rfl
    have hi : a.enlists u = some a.loop.state.listeners.length := by simp [Moment.enlists, hr]
    have hnew : b.loop.state.listener a.loop.state.listeners.length = {} := by
      rw [hstate]
      exact (Loop.listener_listen a.loop _).trans (by simp [State.listener])
    refine hnext (l := a.loop.state.listeners.length) ?_ (.inl ⟨_, hth', ?_⟩)
    · rw [enlisted, List.filterMap_cons_some hi, ← enlisted, hl]
    · rw [hrun.taken_of_ge (Nat.le_refl _)]
      exact .opens opening ⟨by rw [hnew], by rw [hnew], fun g hmem => (by rw [hnew] at hmem; cases hmem), rfl⟩
  | @goes l _ hl h =>
    cases hbalks : a.loop.balks u with
    | true => exact hdepart hl (h.departs_of_balks ht ha.fits hth hlags hbalks)
    | false =>
      cases hmutes : a.loop.mutes u with
      | true => exact hdepart hl (h.departs_of_mutes ht ha.fits hth hmutes)
      | false =>
        exact hnext hl (h.turn_alone ht ha.fits hth
          (fun huses => hg.sole ha hth (ha.not_held_of_exchange hth hroot huses) huses) hsp hbalks hmutes)
  | departs hl h => exact hdepart hl (h.turn ht ha.fits hth hsp Lagged.cons hlags)

/-- **An exchange that nobody has cancelled** is on its way, or has ended: because time ran out only if it did for a
transport. -/
theorem IsRun.pursuit (h : IsRun (a :: past)) (hroot : a.loop.routine? u = some (.exchange opening asking))
    (hfree : Undisturbed u past) : (∃ th, a.loop.thread? u = some th ∧ Pursuit u opening asking a past th) ∨
      ∃ o, a.loop.taskOutcome? u = some o ∧ (Ending.isTimeout o = true → Lagged u past) := by
  have hall := h.follow
    (P := fun a past th => Undisturbed u past → Pursuit u opening asking a past th)
    (Q := fun _ past o => Undisturbed u past → Ending.isTimeout o = true → Lagged u past) ?_ ?_ ?_ hroot
  · exact hall.imp (fun ⟨th, hth, hp⟩ => ⟨th, hth, hp hfree⟩) fun ⟨o, ho, hq⟩ => ⟨o, ho, hq hfree⟩
  · -- who was not there has no listener
    intro a past hpast hth _
    refine .fresh (List.filterMap_eq_nil_iff.mpr fun c hc => ?_)
    rcases List.mem_cons.mp hc with rfl | hc
    · exact Moment.enlists_eq_none hth fun _ _ h => by cases h
    · exact Moment.enlists_of_not_running (task_ne_of_thread? (hpast c hc))
  · intro role role' a b past th hrun ha hb hg hth hroot ht hp
    by_cases hfree : Undisturbed u (a :: past)
    · have hold : Undisturbed u past := fun c hc => hfree c (List.mem_cons_of_mem _ hc)
      have hstep := (hp hold).step hrun ha hb hg hth hroot (hrun.spares_limited hroot rfl rfl hold)
      exact hstep.imp (fun ⟨th', hth', h⟩ => ⟨th', hth', fun _ => h⟩) fun ⟨o, ho, h⟩ => ⟨o, ho, fun _ => h⟩
    · exact ht.onward.imp (fun ⟨th', hth'⟩ => ⟨th', hth', fun h => absurd h hfree⟩)
        fun ⟨o, ho⟩ => ⟨o, ho, fun h => absurd h hfree⟩
  · intro role role' a b past o _ ha hb hg ho hq hfree hlate
    exact (hq (fun c hc => hfree c (List.mem_cons_of_mem _ hc)) hlate).cons

/-- **While it does not run**, an exchange has not begun, it has to do with the lock, or it waits for its listener; and if
it is not about to be woken, no answer was given to that. -/
theorem Pursuit.silent (h : Pursuit u opening asking a past th) (hrun : IsRun (a :: past)) (hth : a.loop.thread? u = some th)
    (hidle : th.top.isIdle = true) : enlisted u (a :: past) = [] ∨ (a.loop.view Thread.station u).isSome = true ∨
      ∃ l g stack, th = ⟨.waits g, .getting l g :: stack⟩ ∧ (a.loop.isSettled g = false → Unanswered u asking (a :: past)) := by
  obtain ⟨role, hholds⟩ := hrun.holds
  have hlocks : ∀ {stack}, Locks stack th → (a.loop.view Thread.station u).isSome = true := by
    rintro stack hl
    cases hl with
    | waits w => rw [Loop.view_station hth]; rfl
    | _ => cases hidle
  have hholder : ∀ {F rest}, F :: rest <:+ th.stack → F.hold.isSome = true → (a.loop.view Thread.station u).isSome = true := by
    intro F rest hsuffix hF
    obtain ⟨p, hp⟩ := Option.isSome_iff_exists.mp hF
    rw [Loop.view_station hth, hholds.station_of_mem hth (hsuffix.subset List.mem_cons_self) hp]
    rfl
  cases h with
  | fresh hl => exact .inl hl
  | begins => cases hidle
  | @goes l _ hl h =>
    cases h with
    | enters opening h ht => exact .inr (.inl (hlocks ht))
    | starts opening t h hsuffix => exact .inr (.inl (hholder hsuffix rfl))
    | exits h ht => exact .inr (.inl (hlocks ht))
    | stops h hsuffix => exact .inr (.inl (hholder hsuffix rfl))
    | waits g h =>
      refine .inr (.inr ⟨l, g, _, rfl, fun hun l' hl' r hr => ?_⟩)
      rw [hl] at hl'
      rw [List.mem_singleton.mp hl', hrun.offered l, (h.empty hun).2, List.append_nil] at hr
      exact not_answers_of_verdict h.undecided hr
    | _ => cases hidle
  | departs hl h =>
    cases h with
    | exits he ht => exact .inr (.inl (hlocks ht))
    | stops he hsuffix => exact .inr (.inl (hholder hsuffix rfl))
    | _ => cases hidle

end runs

end DiagnosticsClient
