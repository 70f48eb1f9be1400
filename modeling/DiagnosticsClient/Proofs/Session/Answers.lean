import DiagnosticsClient.Proofs.Session.Handover
import DiagnosticsClient.Proofs.Session.Numbers
import DiagnosticsClient.Proofs.Session.Inquiry
/-
How requests for diagnostics end.

A request that nobody limits or cancels makes one listener of its own (`enlisted`). The
first item given to it that decides ends the request: the response that answers it, or the
end of the stream (`IsRun.course`). And it does end then, unless it still waits behind the
start or the stop of a transport (`requests_correlate`).
-/
namespace DiagnosticsClient

open Async Async.Machine

/-- The listener that a task makes for its exchange, if it begins it now. -/
def Moment.enlists (u : TaskId) (a : Moment) : Option ListenerId :=
  match a.loop.running with
  | some (.begin t (.exchange ..) []) => if t = u then some a.loop.state.listeners.length else none
  | _ => none

/-- The listeners that a task has made for its exchange. -/
def enlisted (u : TaskId) (moments : List Moment) : List ListenerId := moments.filterMap (·.enlists u)

/-- How far a request without a limit has got. -/
inductive Course (u : TaskId) (file : Json) (a : Moment) (past : List Moment) : Thread Routine Frame Value Failure → Prop
  | fresh (hn : numbers u (a :: past) = []) (hl : enlisted u (a :: past) = []) :
      Course u file a past ⟨.fresh (.request file none), []⟩
  | asks (hn : numbers u past = []) (hl : enlisted u (a :: past) = []) :
      Course u file a past ⟨.begins (.request file none), []⟩
  | exchanges {n : Nat} (opening : Request) (hn : numbers u (a :: past) = [n]) (hl : enlisted u past = []) :
      Course u file a past ⟨.begins (.exchange opening (.semanticDiagnostics n file)), []⟩
  | goes {n : Nat} {l : ListenerId} {th : Thread Routine Frame Value Failure} (hn : numbers u (a :: past) = [n])
      (hl : enlisted u (a :: past) = [l])
      (h : Inquiry (.semanticDiagnostics n file) l [] a.loop (taken l (a :: past)) th) : Course u file a past th

/-- A request has ended as what was taken from its listener decides. -/
def Decided (u : TaskId) (file : Json) (moments : List Moment) (o : Ending) : Prop :=
  ∃ n l, numbers u moments = [n] ∧ enlisted u moments = [l] ∧
    verdict (.semanticDiagnostics n file) (taken l moments) = some o

section course

variable {role role' : FutureId → Role} {a b : Moment} {past : List Moment} {u : TaskId} {l : ListenerId} {file : Json}
  {th th' : Thread Routine Frame Value Failure} {o : Ending} {m : Loop} {asking : Request} {ds ds' : List Delivery}
  {base : List Frame}

/-! ## Listeners that are made -/

/-- Only a task that begins its exchange makes a listener. -/
theorem Moment.enlists_eq_none (hth : a.loop.thread? u = some th)
    (h : ∀ opening asking, th ≠ ⟨.begins (.exchange opening asking), []⟩) : a.enlists u = none := by
  unfold Moment.enlists
  split
  · next t opening asking hr =>
    split
    · next heq =>
      subst heq
      exact absurd (Option.some.inj (hth.symm.trans (thread?_of_running hr))) (h opening asking)
    · rfl
  · rfl

theorem Moment.enlists_of_not_running (h : ∀ x, a.loop.running = some x → x.task ≠ u) : a.enlists u = none := by
  unfold Moment.enlists
  split
  · next t opening asking hr => exact if_neg (h _ hr)
  · rfl

theorem enlisted_cons (h : b.enlists u = none) : enlisted u (b :: a :: past) = enlisted u (a :: past) :=
  List.filterMap_cons_none h

/-- Who has no thread is not running. -/
theorem task_ne_of_thread? (h : m.thread? u = none) : ∀ x, m.running = some x → x.task ≠ u := by
  rintro x hx rfl
  cases h.symm.trans (thread?_of_running hx)

/-! ## What is taken -/

/-- What a task takes that runs. -/
theorem receipts_of_thread? (hth : m.thread? u = some th) (hidle : th.top.isIdle = false) :
    m.receipts l = Thread.takes l th := by
  obtain ⟨x, hx, -, rfl⟩ := running_of_thread? hth hidle
  unfold Loop.receipts Loop.receipt Thread.takes
  rw [hx]
  rfl

/-- Who takes something has to do with the listener. -/
theorem exists_of_receipts (h : m.receipts l ≠ []) : ∃ x, m.running = some x ∧ Thread.Uses x.thread l := by
  unfold Loop.receipts at h
  split at h
  · next l' d hd =>
    split at h
    · next heq =>
      obtain ⟨x, hx, hreceipt⟩ := Option.bind_eq_some_iff.mp hd
      obtain ⟨rest, -, hstack⟩ := Loop.exists_of_receipt hreceipt
      exact ⟨x, hx, .inr ⟨.receiving l', by rw [hstack]; exact List.mem_cons_self, congrArg some heq⟩⟩
    · exact absurd rfl h
  · exact absurd rfl h

/-- Nothing is taken from a listener that is not there. -/
theorem IsRun.taken_of_ge (h : IsRun (a :: past)) (hl : a.loop.state.listeners.length ≤ l) : taken l (a :: past) = [] := by
  have hnone : ∀ {role : FutureId → Role} {c : Moment}, c.Holds role → c.loop.state.listeners.length ≤ l →
      c.loop.receipts l = [] := fun hc hge => Decidable.byContradiction fun hne => by
    obtain ⟨x, hx, huses⟩ := exists_of_receipts hne
    exact absurd (hc.known.there (thread?_of_running hx) huses) (Nat.not_lt_of_le hge)
  induction past generalizing a with
  | nil =>
    obtain ⟨role, hholds⟩ := h.holds
    exact hnone hholds hl
  | cons b past ih =>
    obtain ⟨hb, role, role', hholds, hholds', hgoes⟩ := h.lastStep
    rw [taken, ih hb (Nat.le_trans (hgoes.length hholds) hl), hnone hholds' hl]
    rfl

/-- Nobody else takes from the listener of a task. -/
theorem Moment.Holds.receipts (h : a.Holds role) (hth : a.loop.thread? u = some th) (hl : l ∉ a.held)
    (huses : Thread.Uses th l) : a.loop.receipts l = Thread.takes l th := by
  cases hidle : th.top.isIdle with
  | false => exact receipts_of_thread? hth hidle
  | true =>
    have hnone : Thread.receipt th = none := Option.eq_none_iff_forall_ne_some.mpr fun d hd => by
      cases (Loop.isIdle_of_receipt hd).symm.trans hidle
    rw [Thread.takes_of_receipt hnone]
    refine Decidable.byContradiction fun hne => ?_
    obtain ⟨x, hx, huses'⟩ := exists_of_receipts hne
    have htask := h.known.alone (thread?_of_running hx) hth huses' huses hl
    rw [← htask, thread?_of_running hx] at hth
    cases hth
    cases x.thread_isIdle.symm.trans hidle

theorem takes_of_not_uses (h : ¬ Thread.Uses th l) : Thread.takes l th = [] := by
  unfold Thread.takes
  split
  · next l' d hd =>
    refine if_neg fun heq => h ?_
    obtain ⟨rest, -, hstack⟩ := Loop.exists_of_receipt hd
    exact .inr ⟨.receiving l', by rw [hstack]; exact List.mem_cons_self, congrArg some heq⟩
  · rfl

/-- Who has to do with his listener no more does not care for what is taken from it. -/
theorem Inquiry.append (h : Inquiry asking l base m ds th) (hn : ¬ Thread.Uses th l) (ds' : List Delivery) :
    Inquiry asking l base m (ds ++ ds') th := by
  have hmem : ∀ {F : Frame}, F ∈ th.stack → F.about = some l → False := fun hF ha => hn (.inr ⟨_, hF, ha⟩)
  cases h with
  | enters opening h hlocks => exact (hmem (hlocks.suffix.subset (.head _)) rfl).elim
  | starts opening t h hsuffix => exact (hmem (hsuffix.subset (.head _)) rfl).elim
  | leaves h => exact absurd (.inl ⟨_, .inr rfl, rfl⟩) hn
  | exits h hlocks => exact (hmem (hlocks.suffix.subset (.head _)) rfl).elim
  | stops h hsuffix => exact .stops (verdict_append_of_some h ds') hsuffix
  | left v h => exact .left v (verdict_append_of_some h ds')
  | finished h => exact .finished (verdict_append_of_some h ds')
  | _ => exact (hmem (.head _) rfl).elim

/-- An exchange that is on its way has begun. -/
theorem Inquiry.ne_begins (h : Inquiry asking l base m ds th) (r : Routine) : th ≠ ⟨.begins r, []⟩ := by
  rintro rfl
  cases h with
  | enters opening h hlocks => cases hlocks
  | starts opening t h hsuffix => cases hsuffix.subset (.head _)
  | exits h hlocks => cases hlocks
  | stops h hsuffix => cases hsuffix.subset (.head _)

/-! ## One step -/

/-- A listener that a task alone has to do with is left alone by all others. -/
theorem Goes.sole (hg : Goes role a role' b) (ha : a.Holds role) (hth : a.loop.thread? u = some th) (hl : l ∉ a.held)
    (huses : Thread.Uses th l) : Loop.Sole role a.loop l th b.loop where
  tidy := ha.fits.tidy
  keeps := hg.keeps ha
  there := ha.known.there hth huses
  given hne := hg.given ha fun x hx heq => by
    have huses' := Thread.uses_of_about heq
    have htask := ha.known.alone (thread?_of_running hx) hth huses' huses hl
    rw [← htask, thread?_of_running hx] at hth
    cases hth
    exact hne heq

/-- What a request without a limit is about nobody holds. -/
theorem Moment.Holds.not_held (h : a.Holds role) (hth : a.loop.thread? u = some th)
    (hroot : a.loop.routine? u = some (.request file none)) (huses : Thread.Uses th l) : l ∉ a.held := fun hmem => by
  cases (h.known.kind hth hroot huses).mp hmem

/-- Where an exchange is at the next moment. -/
theorem Course.of_next {n : Nat} (h : Inquiry.Next (.semanticDiagnostics n file) l [] u (taken l (a :: past)) b.loop ∨
      ∃ o, b.loop.taskOutcome? u = some o ∧ verdict (.semanticDiagnostics n file) (taken l (a :: past)) = some o)
    (hb : b.Holds role') (hroot : b.loop.routine? u = some (.request file none)) (hn : numbers u (a :: past) = [n])
    (hl : enlisted u (a :: past) = [l]) :
    (∃ th', b.loop.thread? u = some th' ∧ Course u file b (a :: past) th') ∨
      ∃ o, b.loop.taskOutcome? u = some o ∧ Decided u file (b :: a :: past) o := by
  rcases h with ⟨th', hth', h⟩ | ⟨o, ho, hverdict⟩
  · refine .inl ⟨th', hth', .goes ?_ ?_ (l := l) (n := n) ?_⟩
    · exact (numbers_cons (Moment.issues_eq_none hth' fun _ _ => h.ne_begins _)).trans hn
    · exact (enlisted_cons (Moment.enlists_eq_none hth' fun _ _ => h.ne_begins _)).trans hl
    · by_cases huses : Thread.Uses th' l
      · rw [taken, hb.receipts hth' (hb.not_held hth' hroot huses) huses]
        exact h
      · rw [takes_of_not_uses huses, List.append_nil] at h
        exact h.append huses _
  · refine .inr ⟨o, ho, n, l, ?_, ?_, verdict_append_of_some hverdict _⟩
    · exact (numbers_cons (hb.issues_of_ended ho)).trans hn
    · exact (enlisted_cons (Moment.enlists_of_not_running (hb.task_ne_of_ended ho))).trans hl

/-- **A request goes on as it should.** -/
theorem Course.step (h : Course u file a past th) (hrun : IsRun (a :: past)) (ha : a.Holds role) (hb : b.Holds role')
    (hg : Goes role a role' b) (hth : a.loop.thread? u = some th) (hroot : a.loop.routine? u = some (.request file none))
    (hsp : a.loop.Spares u) (hbalks : a.loop.balks u = false) (hmutes : a.loop.mutes u = false) :
    (∃ th', b.loop.thread? u = some th' ∧ Course u file b (a :: past) th') ∨
      ∃ o, b.loop.taskOutcome? u = some o ∧ Decided u file (b :: a :: past) o := by
  have ht := hg.turn ha hb hth
  have hroot' := (hg.keeps ha).routine hroot
  cases h with
  | fresh hn hl =>
    refine .inl ?_
    have hnone : ∀ {top}, b.loop.thread? u = some ⟨top, []⟩ → (∀ opening asking, top ≠ .begins (.exchange opening asking)) →
        enlisted u (b :: a :: past) = [] := fun hth' hne =>
      (enlisted_cons (Moment.enlists_eq_none hth' fun opening asking heq => hne opening asking (congrArg Thread.top heq))).trans hl
    cases ht with
    | rests _ _ hth' =>
      refine ⟨_, hth', .fresh ?_ (hnone hth' fun _ _ h => by cases h)⟩
      exact (numbers_cons (Moment.issues_eq_none hth' fun _ _ h => by cases h)).trans hn
    | awakes how switch =>
      cases how with
      | begins => exact ⟨_, switch.self, .asks hn (hnone switch.self fun _ _ h => by cases h)⟩
      | dropped hheld => exact absurd hheld hsp.free
  | asks hn hl =>
    -- the number is given at this moment
    obtain ⟨hr, -⟩ := ht.of_begins
    have hbegin : Loop.begin (.request file none) a.loop = ((Loop.begin (.request file none) a.loop).1,
        .become (.exchange (.openFile a.loop.state.nextSeq file) (.semanticDiagnostics (a.loop.state.nextSeq + 1 : Nat) file))) := rfl
    obtain ⟨-, hth'⟩ := ht.begun hbegin
    have hi : a.issues u = some (a.loop.state.nextSeq + 1) := by simp [Moment.issues, hr]
    refine .inl ⟨_, hth', .exchanges _ ?_ hl⟩
    refine (numbers_cons (Moment.issues_eq_none hth' fun _ _ h => by cases h)).trans ?_
    rw [numbers, List.filterMap_cons_some hi, ← numbers, hn]
  | exchanges opening hn hl =>
    -- the listener is made at this moment
    obtain ⟨hr, -⟩ := ht.of_begins
    obtain ⟨hstate, hth'⟩ := ht.begun rfl
    have hi : a.enlists u = some a.loop.state.listeners.length := by simp [Moment.enlists, hr]
    have hnew : b.loop.state.listener a.loop.state.listeners.length = {} := by
      rw [hstate]
      exact (Loop.listener_listen a.loop _).trans (by simp [State.listener])
    refine Course.of_next (l := a.loop.state.listeners.length) (.inl ⟨_, hth', ?_⟩) hb hroot' hn ?_
    · rw [hrun.taken_of_ge (Nat.le_refl _)]
      exact .opens opening ⟨by rw [hnew], by rw [hnew], fun g hmem => (by rw [hnew] at hmem; cases hmem), rfl⟩
    · rw [enlisted, List.filterMap_cons_some hi, ← enlisted, hl]
  | goes hn hl h =>
    have hnext := h.turn_alone ht ha.fits hth (fun huses => hg.sole ha hth (ha.not_held hth hroot huses) huses) hsp hbalks hmutes
    exact Course.of_next hnext hb hroot' hn hl

/-! ## A whole run -/

/-- Up to now nobody has cancelled a task, no transport failed it, and it could write its requests. -/
structure Unhindered (u : TaskId) (a : Moment) (past : List Moment) : Prop where
  kept : u ∉ a.cancelled
  served : ∀ b ∈ past, b.loop.balks u = false
  heard : ∀ b ∈ past, b.loop.mutes u = false

theorem Unhindered.before (h : Unhindered u b (a :: past)) (hg : Goes role a role' b) : Unhindered u a past where
  kept hmem := h.kept (hg.cancelled hmem)
  served c hc := h.served c (List.mem_cons_of_mem _ hc)
  heard c hc := h.heard c (List.mem_cons_of_mem _ hc)

/-- **A request that is not hindered ends as the items decide that were taken from its listener.** -/
theorem IsRun.course (h : IsRun (a :: past)) (hroot : a.loop.routine? u = some (.request file none))
    (hfair : Unhindered u a past) :
    (∃ th, a.loop.thread? u = some th ∧ Course u file a past th) ∨
      ∃ o, a.loop.taskOutcome? u = some o ∧ Decided u file (a :: past) o := by
  have hall := h.follow (P := fun a past th => Unhindered u a past → Course u file a past th)
    (Q := fun a past o => Unhindered u a past → Decided u file (a :: past) o) ?_ ?_ ?_ hroot
  · exact hall.imp (fun ⟨th, hth, hp⟩ => ⟨th, hth, hp hfair⟩) fun ⟨o, ho, hq⟩ => ⟨o, ho, hq hfair⟩
  · -- who was not there has no number and no listener
    intro a past hpast hth _
    have hne : ∀ c ∈ a :: past, ∀ x, c.loop.running = some x → x.task ≠ u := by
      intro c hc
      rcases List.mem_cons.mp hc with rfl | hc
      · rintro x hx rfl
        rw [thread?_of_running hx] at hth
        cases x <;> cases hth
      · exact task_ne_of_thread? (hpast c hc)
    exact .fresh (List.filterMap_eq_nil_iff.mpr fun c hc => Moment.issues_of_not_running (hne c hc))
      (List.filterMap_eq_nil_iff.mpr fun c hc => Moment.enlists_of_not_running (hne c hc))
  · intro role role' a b past th hrun ha hb hg hth hroot ht hp
    by_cases hfair : Unhindered u b (a :: past)
    · have hold := hfair.before hg
      have hsp := hrun.spares hroot rfl hold.kept
      have hstep := (hp hold).step hrun ha hb hg hth hroot hsp (hfair.served a (.head _)) (hfair.heard a (.head _))
      exact hstep.imp (fun ⟨th', hth', h⟩ => ⟨th', hth', fun _ => h⟩) fun ⟨o, ho, h⟩ => ⟨o, ho, fun _ => h⟩
    · exact ht.onward.imp (fun ⟨th', hth'⟩ => ⟨th', hth', fun h => absurd h hfair⟩)
        fun ⟨o, ho⟩ => ⟨o, ho, fun h => absurd h hfair⟩
  · intro role role' a b past o _ ha hb hg ho hq hfair
    obtain ⟨n, l, hn, hl, hverdict⟩ := hq (hfair.before hg)
    have hne := hb.task_ne_of_ended (hg.ended ha hb ho)
    exact ⟨n, l, (numbers_cons (Moment.issues_of_not_running hne)).trans hn,
      (enlisted_cons (Moment.enlists_of_not_running hne)).trans hl, verdict_append_of_some hverdict _⟩

/-! ## When nothing can go on -/

/-- A request that waits although the lock is free waits for its listener, and nothing that was given to it decides. -/
theorem Inquiry.undecided_of_quiet (h : Inquiry asking l base a.loop ds th) (hrun : IsRun (a :: past))
    (hth : a.loop.thread? u = some th) (hq : a.loop.isQuiet = true) (hfree : a.loop.state.lock.held = false) :
    verdict asking ds = none ∧ (a.loop.state.listener l).queue = [] := by
  obtain ⟨role, hholds⟩ := hrun.holds
  obtain ⟨f, stack, rfl, hun⟩ := hholds.fits.tidy.sound.waits_of_quiet hq hth
  have hlocks : ∀ {stack'}, Locks stack' ⟨.waits f, stack⟩ → False := by
    rintro _ ⟨⟩
    have hplace := hholds.coherent.suits ((Loop.view_station hth).trans (by rfl : _ = some (Station.queued f)))
    rw [Station.Suits, hrun.nobody_queues hq hfree] at hplace
    cases hplace
  have hholder : ∀ {F p}, F ∈ stack → F.hold = some p → p.holds = true → False := fun hF hp hheld => by
    have hplace := (Loop.view_station hth).trans (hholds.station_of_mem hth hF hp)
    cases hfree.symm.trans (hholds.coherent.held_of_holds hplace hheld)
  cases h with
  | enters opening h ht => exact (hlocks ht).elim
  | starts opening t h hsuffix => exact (hholder (hsuffix.subset (.head _)) rfl rfl).elim
  | waits g h => exact ⟨h.undecided, (h.empty hun).2⟩
  | exits h ht => exact (hlocks ht).elim
  | stops h hsuffix => exact (hholder (hsuffix.subset (.head _)) rfl rfl).elim

end course

/-- What was given to a listener: the messages received while it was registered, and then its end. -/
def offered (l : ListenerId) (moments : List Moment) : List Delivery :=
  (meant l moments).map .message ++ (ends l moments).map .ended

theorem IsRun.offered {a : Moment} {past : List Moment} (h : IsRun (a :: past)) (l : ListenerId) :
    offered l (a :: past) = taken l (a :: past) ++ (a.loop.state.listener l).queue :=
  ((h.accounted l).taken.trans (h.accounted l).delivered).symm

/-- **Requests and answers belong together.** A request for the diagnostics of a file that is not limited, not cancelled
and not hindered is given a number and makes a listener of its own. If it ends, it does so as the first item decides
that is given to its listener and does: with the response that has its number and its command, or with the end of the
stream. And when nothing can go on and nobody starts or stops a transport, it has ended so unless there is no such item.
No two requests return responses to the same number. -/
theorem requests_correlate {a : Moment} {past : List Moment} (h : IsRun (a :: past)) :
    (∀ u file, a.loop.routine? u = some (.request file none) → Unhindered u a past →
      (∀ o, a.loop.taskOutcome? u = some o → ∃ n l, numbers u (a :: past) = [n] ∧ enlisted u (a :: past) = [l] ∧
        verdict (.semanticDiagnostics n file) (offered l (a :: past)) = some o) ∧
      (a.loop.isQuiet = true → a.loop.state.lock.held = false → ∃ n l, numbers u (a :: past) = [n] ∧
        enlisted u (a :: past) = [l] ∧
        a.loop.taskOutcome? u = verdict (.semanticDiagnostics n file) (offered l (a :: past)))) ∧
    ∀ u v file file' limit limit' r r', u ≠ v → a.loop.routine? u = some (.request file limit) →
      a.loop.routine? v = some (.request file' limit') → a.loop.taskOutcome? u = some (.value (.message (.response r))) →
      a.loop.taskOutcome? v = some (.value (.message (.response r'))) → r.requestSeq ≠ r'.requestSeq := by
  obtain ⟨role, hholds⟩ := h.holds
  have hended : ∀ {u file o}, Decided u file (a :: past) o → ∃ n l, numbers u (a :: past) = [n] ∧
      enlisted u (a :: past) = [l] ∧ verdict (.semanticDiagnostics n file) (offered l (a :: past)) = some o := by
    rintro u file o ⟨n, l, hn, hl, hverdict⟩
    exact ⟨n, l, hn, hl, h.offered l ▸ verdict_append_of_some hverdict _⟩
  constructor
  · intro u file hroot hfair
    rcases h.course hroot hfair with ⟨th, hth, hcourse⟩ | ⟨o, ho, hdecided⟩
    · have hnone := hholds.fits.tidy.sound.taskOutcome?_of_thread? hth
      refine ⟨fun o ho => (by cases hnone.symm.trans ho), fun hq hfree => ?_⟩
      cases hcourse with
      | @goes n l _ hn hl hinquiry =>
        obtain ⟨hverdict, hqueue⟩ := hinquiry.undecided_of_quiet h hth hq hfree
        refine ⟨n, l, hn, hl, ?_⟩
        rw [hnone, h.offered l, hqueue, List.append_nil, hverdict]
      | _ =>
        obtain ⟨_, _, heq, -⟩ := hholds.fits.tidy.sound.waits_of_quiet hq hth
        cases heq
    · refine ⟨fun o' ho' => ?_, fun _ _ => ?_⟩
      · cases ho.symm.trans ho'
        exact hended hdecided
      · obtain ⟨n, l, hn, hl, hverdict⟩ := hended hdecided
        exact ⟨n, l, hn, hl, ho.trans hverdict.symm⟩
  · intro u v file file' limit limit' r r' huv hu hv ho ho'
    have hseq : ∀ {w file limit r}, a.loop.routine? w = some (.request file limit) →
        a.loop.taskOutcome? w = some (.value (.message (.response r))) →
        ∃ n, numbers w (a :: past) = [n] ∧ r.requestSeq = (n : Nat) := by
      intro w file limit r hroot ho
      rcases h.quotes hroot with ⟨th, hth, -⟩ | ⟨o, ho', hq⟩
      · cases (hholds.fits.tidy.sound.taskOutcome?_of_thread? hth).symm.trans ho
      · cases ho.symm.trans ho'
        obtain ⟨n, hn, hanswers⟩ := hq _ rfl
        simp only [Value.Answers, Response.answers, Bool.and_eq_true, beq_iff_eq] at hanswers
        exact ⟨n, hn, hanswers.1⟩
    obtain ⟨n, hn, hr⟩ := hseq hu ho
    obtain ⟨n', hn', hr'⟩ := hseq hv ho'
    have hmem : n ∈ numbers u (a :: past) := by rw [hn]; exact .head _
    have hmem' : n' ∈ numbers v (a :: past) := by rw [hn']; exact .head _
    have hne := h.numbers_ne huv hmem hmem'
    rw [hr, hr']
    exact fun heq => hne (Int.ofNat_inj.mp heq)

/-- The response that a task has returned. -/
def Loop.response? (m : Loop) (u : TaskId) : Option Response :=
  match m.taskOutcome? u with
  | some (.value (.message (.response r))) => some r
  | _ => none

theorem Loop.response?_eq_some {m : Loop} {u : TaskId} {r : Response} :
    m.response? u = some r ↔ m.taskOutcome? u = some (.value (.message (.response r))) := by
  unfold Loop.response?
  split
  · next heq => simp [heq]
  · next hne => exact iff_of_false (fun h => by cases h) (hne r)

/-- A session that was asked for the diagnostics of two files, and the moments before. -/
def askedSession : Moment × List Moment :=
  Moment.pursue 60 (.ask (.request (.str (lit "b.ts")) none))
    (Moment.pursue 60 (.ask (.request (.str (lit "a.ts")) none)) ({ loop := { state := { medium := .rehearsals } } }, []))

/-- The response with a number. -/
def answerTo (n : Int) : Json :=
  .obj [(lit "type", .str Response.typeName), (lit "request_seq", .int n),
    (lit "command", .str (Command.name .semanticDiagnosticsSync)), (lit "body", .arr [])]

/-- The same session once its transport has answered the second request and then the first. -/
def answeredSession : Moment × List Moment :=
  Moment.pursue 60 (.receive 0 (answerTo 1)) (Moment.pursue 60 (.receive 0 (answerTo 3)) askedSession)

theorem isRun_answeredSession : IsRun (answeredSession.1 :: answeredSession.2) := by
  have hnew : IsRun [({ loop := { state := { medium := .rehearsals } } } : Moment)] := .new ⟨{ medium := .rehearsals }, rfl⟩
  have hfirst := @IsRun.pursue (.ask (.request (.str (lit "a.ts")) none)) (_, []) hnew rfl ⟨rfl, fun l hl => by cases hl⟩ 60
  have hasked : IsRun (askedSession.1 :: askedSession.2) :=
    hfirst.pursue (s := .ask (.request (.str (lit "b.ts")) none)) (by decide +kernel) ⟨rfl, fun l hl => by cases hl⟩ 60
  have hsecond := hasked.pursue (s := .receive 0 (answerTo 3)) (by decide +kernel) trivial 60
  exact hsecond.pursue (s := .receive 0 (answerTo 1)) (by decide +kernel) trivial 60

/-- Each request has returned the response to its own number. -/
theorem requests_correlate_when_swapped : ∃ a past r r', IsRun (a :: past) ∧ Unhindered 0 a past ∧
    a.loop.isQuiet = true ∧ a.loop.state.lock.held = false ∧ a.loop.response? 0 = some r ∧ a.loop.response? 1 = some r' ∧
    (∃ n l, numbers 0 (a :: past) = [n] ∧ enlisted 0 (a :: past) = [l] ∧
      a.loop.taskOutcome? 0 = verdict (.semanticDiagnostics n (.str (lit "a.ts"))) (offered l (a :: past))) ∧
    r.requestSeq ≠ r'.requestSeq := by
  have hrun := isRun_answeredSession
  have hfair : Unhindered 0 answeredSession.1 answeredSession.2 := ⟨by decide +kernel, by decide +kernel, by decide +kernel⟩
  have hroot : answeredSession.1.loop.routine? 0 = some (.request (.str (lit "a.ts")) none) := by rfl
  have hroot' : answeredSession.1.loop.routine? 1 = some (.request (.str (lit "b.ts")) none) := by rfl
  have hquiet : answeredSession.1.loop.isQuiet = true := by decide +kernel
  have hfree : answeredSession.1.loop.state.lock.held = false := by decide +kernel
  obtain ⟨r, hr⟩ := Option.isSome_iff_exists.mp (by decide +kernel : (answeredSession.1.loop.response? 0).isSome = true)
  obtain ⟨r', hr'⟩ := Option.isSome_iff_exists.mp (by decide +kernel : (answeredSession.1.loop.response? 1).isSome = true)
  obtain ⟨hone, htwo⟩ := requests_correlate hrun
  exact ⟨_, _, r, r', hrun, hfair, hquiet, hfree, hr, hr', (hone 0 _ hroot hfair).2 hquiet hfree,
    htwo 0 1 _ _ _ _ r r' (by decide) hroot hroot' (Loop.response?_eq_some.mp hr) (Loop.response?_eq_some.mp hr')⟩

/-- A session that writes its requests in ASCII, over a child that ignores the request to end. -/
def narrowSession : Loop :=
  { state := { settings := { command := [lit "node", lit "tsserver.js"], encoding := lit "ascii" }, launches := [.child .ignores] } }

/-- The same session while the child of its first listener is being stopped. -/
def leftSession : Moment × List Moment :=
  Moment.pursue 60 (.ask (.closeListener 0)) (Moment.pursue 60 (.ask (.openListener 0))
    (Moment.pursue 0 .listen ({ loop := narrowSession }, [])))

/-- The same session when it was asked for the diagnostics of a file and then closed, and the child has been killed. -/
def muteSession : Moment × List Moment :=
  Moment.pursue 200 (.advance (.whole 10)) (Moment.pursue 60 (.ask .closeSession)
    (Moment.pursue 60 (.ask (.request (.str (lit "é")) none)) leftSession))

/-- A request for the diagnostics of a file, without a limit. -/
def Routine.asksFor (file : Text) : Routine → Bool
  | .request (.str t) none => t = file
  | _ => false

theorem Routine.eq_of_asksFor {r : Routine} {file : Text} (h : r.asksFor file = true) : r = .request (.str file) none := by
  unfold Routine.asksFor at h
  split at h
  · rw [of_decide_eq_true h]
  · cases h

/-- What could not be written. -/
def Ending.unwritten? : Ending → Option EncodeError
  | .failed (.encode e) => some e
  | _ => none

theorem Ending.eq_of_unwritten? {o : Ending} {e : EncodeError} (h : Ending.unwritten? o = some e) : o = .failed (.encode e) := by
  unfold Ending.unwritten? at h
  split at h <;> cases h
  rfl

theorem isRun_muteSession : IsRun (muteSession.1 :: muteSession.2) := by
  have hnew : IsRun [({ loop := narrowSession } : Moment)] := .new ⟨narrowSession.state, rfl⟩
  have hlisten := @IsRun.pursue .listen (_, []) hnew rfl trivial 0
  have hopen := hlisten.pursue (s := .ask (.openListener 0)) rfl
    ⟨rfl, fun l hl => by cases hl; exact List.mem_singleton.mpr rfl⟩ 60
  have hheld : (0 : ListenerId) ∈ (Moment.pursue 60 (.ask (.openListener 0))
      (Moment.pursue 0 .listen ({ loop := narrowSession }, []))).1.held := by decide +kernel
  have hleft : IsRun (leftSession.1 :: leftSession.2) :=
    hopen.pursue (s := .ask (.closeListener 0)) (by decide +kernel) ⟨rfl, fun l hl => by cases hl; exact hheld⟩ 60
  have hasked := hleft.pursue (s := .ask (.request (.str (lit "é")) none)) (by decide +kernel) ⟨rfl, fun l hl => by cases hl⟩ 60
  have hclosed := hasked.pursue (s := .ask .closeSession) (by decide +kernel) ⟨rfl, fun l hl => by cases hl⟩ 60
  exact hclosed.pursue (s := .advance (.whole 10)) (by decide +kernel) trivial 200

/-- The only item given to the listener of its request is the end of the stream, which would decide it; but the request
fails before that, because the name of the file cannot be written. Nobody cancels it, and its transport starts and stops. -/
theorem request_not_written : ∃ a past e, IsRun (a :: past) ∧ a.loop.routine? 5 = some (.request (.str (lit "é")) none) ∧
    5 ∉ a.cancelled ∧ (∀ b ∈ past, b.loop.balks 5 = false) ∧ numbers 5 (a :: past) = [1] ∧ enlisted 5 (a :: past) = [1] ∧
    offered 1 (a :: past) = [.ended none] ∧
    verdict (.semanticDiagnostics 1 (.str (lit "é"))) (offered 1 (a :: past)) =
      some (.failed (.unanswered (Command.name .semanticDiagnosticsSync) 1)) ∧
    a.loop.taskOutcome? 5 = some (.failed (.encode e)) := by
  obtain ⟨r, hroot, hasks⟩ := Option.map_eq_some_iff.mp
    (by decide +kernel : (muteSession.1.loop.routine? 5).map (Routine.asksFor (lit "é")) = some true)
  obtain ⟨e, he⟩ := Option.isSome_iff_exists.mp
    (by decide +kernel : ((muteSession.1.loop.taskOutcome? 5).bind Ending.unwritten?).isSome = true)
  obtain ⟨o, ho, hunwritten⟩ := Option.bind_eq_some_iff.mp he
  have hmeant : (meant 1 (muteSession.1 :: muteSession.2)).length = 0 := by decide +kernel
  have hends : ends 1 (muteSession.1 :: muteSession.2) = [none] := by decide +kernel
  have hoffered : offered 1 (muteSession.1 :: muteSession.2) = [.ended none] := by
    rw [offered, List.length_eq_zero_iff.mp hmeant, hends]
    rfl
  refine ⟨_, _, e, isRun_muteSession, hroot.trans (congrArg some (Routine.eq_of_asksFor hasks)), ?_, ?_, ?_, ?_, hoffered, ?_,
    ho.trans (congrArg some (Ending.eq_of_unwritten? hunwritten))⟩
  · decide +kernel
  · decide +kernel
  · decide +kernel
  · decide +kernel
  · rw [hoffered]
    rfl

end DiagnosticsClient
