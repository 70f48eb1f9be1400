import DiagnosticsClient.Proofs.Session.Deadlines
import DiagnosticsClient.Proofs.Session.Exchanges
/-
What it means that the diagnostics of a file did not come in time.

Who asks with a limit waits for a future of his own, which is settled by the end of the
exchange or by a timer (`Watched`). The timer comes too late for an answer that has come:
the exchange was woken before it, and ends first unless it has to wait for the lock or for
a transport (`Overrun`). So a request runs out of time only if time was up when no answer
had been given to its listener, or if the lock or a transport kept it waiting then, or if a
transport ran out of time itself (`timeouts_mean_silence`).
-/
namespace DiagnosticsClient

open Async Async.Machine

/-- The task whose time another one limits for its request, if it begins to now, and the time when its time is up. -/
def Moment.limits (u : TaskId) (a : Moment) : Option (TaskId × Binary64) :=
  match a.loop.running with
  | some (.begin t (.within limit _) [.requesting ..]) =>
    if t = u then limit.toBinary?.map fun time => (a.loop.tasks.size, a.loop.now.add time) else none
  | _ => none

/-- The tasks whose time a task has limited for its request, and the times when their time is up. -/
def limited (u : TaskId) (moments : List Moment) : List (TaskId × Binary64) := moments.filterMap (·.limits u)

/-- At some moment time was up, nobody had begun to cancel a task yet, and no answer had been given to it or it had to do
with the lock or a transport. -/
def Expired (v : TaskId) (d : Binary64) (asking : Request) (moments : List Moment) : Prop :=
  ∃ a past, a :: past <:+ moments ∧ (∃ b ∈ a :: past, isDue b.loop.now d = true) ∧ Undisturbed v past ∧
    (Unanswered v asking (a :: past) ∨ (a.loop.view Thread.station v).isSome = true)

/-- A task has ended, or its time is up: for a reason, or before it goes on with what it was woken for. -/
def Overrun (v : TaskId) (w : FutureId) (d : Binary64) (asking : Request) (a : Moment) (past : List Moment) : Prop :=
  a.loop.hasEnded v = true ∨ Expired v d asking (a :: past) ∨
    (∃ b ∈ a :: past, isDue b.loop.now d = true) ∧
      ((∃ x, a.loop.running = some x ∧ x.task = v) ∨ a.loop.Ahead v w)

/-- The exchange of a task is limited by a future, and nobody else has begun to cancel it. -/
structure Watched (v : TaskId) (w : FutureId) (d : Binary64) (opening asking : Request) (a : Moment) (past : List Moment) :
    Prop where
  made : a.loop.routine? v = some (.exchange opening asking)
  free : Undisturbed v past
  timed : ∃ f, a.loop.owner? f = some (some v) ∧ Timed w f d (Overrun v w d asking a past) a.loop

/-- Why a request has run out of time. -/
def Excused (u : TaskId) (file : Json) (moments : List Moment) : Prop :=
  ∃ n v d, numbers u moments = [n] ∧ limited u moments = [(v, d)] ∧
    (Lagged v moments ∨ Expired v d (.semanticDiagnostics n file) moments)

/-- How far a request has got whose time is limited. -/
inductive Limiting (u : TaskId) (file : Json) (limit : Seconds) (a : Moment) (past : List Moment) :
    Thread Routine Frame Value Failure → Prop
  | fresh (hn : numbers u (a :: past) = []) (hl : limited u (a :: past) = []) :
      Limiting u file limit a past ⟨.fresh (.request file (some limit)), []⟩
  | asks (hn : numbers u past = []) (hl : limited u (a :: past) = []) :
      Limiting u file limit a past ⟨.begins (.request file (some limit)), []⟩
  | limits {n : Nat} (opening : Request) (hn : numbers u (a :: past) = [n]) (hl : limited u past = []) :
      Limiting u file limit a past
        ⟨.begins (.within limit (.exchange opening (.semanticDiagnostics n file))), [.requesting file n limit]⟩
  | waits {n : Nat} {v : TaskId} {w : FutureId} {d : Binary64} {opening : Request} {top : Top Routine Value Failure}
      (hn : numbers u (a :: past) = [n]) (hl : limited u (a :: past) = [(v, d)])
      (htop : top = .waits w ∨ ∃ o, top = .resumes o ∧ a.loop.outcome? w = some o)
      (h : Watched v w d opening (.semanticDiagnostics n file) a past) :
      Limiting u file limit a past ⟨top, [.timing v w, .requesting file n limit]⟩
  | lapses {n : Int} {v : TaskId} {w : FutureId} {th : Thread Routine Frame Value Failure} (h : Excused u file (a :: past))
      (hs : [.lapsed v w, .requesting file n limit] <:+ th.stack) : Limiting u file limit a past th
  | ends {n : Int} {o : Ending} (ho : Ending.isTimeout o = true → Excused u file (a :: past)) :
      Limiting u file limit a past ⟨.resumes o, [.requesting file n limit]⟩
  | finished {o : Ending} (ho : Ending.isTimeout o = true → Excused u file (a :: past)) :
      Limiting u file limit a past ⟨.resumes o, []⟩

section goes

variable {role role' : FutureId → Role} {a b : Moment} {past newer older : List Moment} {u v : TaskId} {w f : FutureId}
  {d : Binary64} {root : Routine} {th : Thread Routine Frame Value Failure} {stack : List Frame} {asking opening : Request}
  {file : Json} {limit : Seconds} {o : Ending}

/-! ## Time that is up stays up -/

theorem Expired.cons (h : Expired v d asking past) : Expired v d asking (a :: past) := by
  obtain ⟨b, older, hsuffix, h⟩ := h
  exact ⟨b, older, hsuffix.trans (List.suffix_cons _ _), h⟩

/-- No answer has been given up to now, or the task has to do with the lock or a transport. -/
theorem Expired.now (hb : b ∈ a :: past) (hdue : isDue b.loop.now d = true) (hfree : Undisturbed v past)
    (h : Unanswered v asking (a :: past) ∨ (a.loop.view Thread.station v).isSome = true) : Expired v d asking (a :: past) :=
  ⟨a, past, List.suffix_refl _, ⟨b, hb, hdue⟩, hfree, h⟩

/-- A task that is not there yet has no listener. -/
theorem IsRun.enlisted_of_unborn (h : IsRun (a :: past)) (hn : a.loop.routine? v = none) : enlisted v (a :: past) = [] :=
  List.filterMap_eq_nil_iff.mpr fun c hc => Moment.enlists_of_not_running (task_ne_of_thread? (h.unborn hn c hc))

/-- Who waits for an exchange that does not run has overrun its time, if that is up. -/
theorem Overrun.of_idle (hrun : IsRun (a :: past)) (hroot : a.loop.routine? v = some (.exchange opening asking))
    (hfree : Undisturbed v past) (hb : b ∈ a :: past) (hdue : isDue b.loop.now d = true)
    (hne : ∀ x, a.loop.running = some x → x.task ≠ v)
    (hwoken : ∀ l g stack, a.loop.thread? v = some ⟨.waits g, .getting l g :: stack⟩ → a.loop.isSettled g = true →
      Overrun v w d asking a past) : Overrun v w d asking a past := by
  rcases hrun.pursuit hroot hfree with ⟨th, hth, hpursuit⟩ | ⟨o, ho, -⟩
  · rcases hpursuit.silent hrun hth (Loop.isIdle_of_ne hth hne) with hnone | hstation | ⟨l, g, stack, rfl, hsilent⟩
    · exact .inr (.inl (.now hb hdue hfree (.inl fun l hl => by rw [hnone] at hl; cases hl)))
    · exact .inr (.inl (.now hb hdue hfree (.inr hstation)))
    · cases hset : a.loop.isSettled g with
      | true => exact hwoken l g stack hth hset
      | false => exact .inr (.inl (.now hb hdue hfree (.inl (hsilent hset))))
  · exact .inl (by rw [hasEnded, ho]; rfl)

/-- **Time that a task has overrun stays overrun** while another one waits for it. -/
theorem Overrun.step (h : Overrun v w d asking a past) (hrun : IsRun (a :: past)) (ha : a.Holds role) (hb : b.Holds role')
    (hg : Goes role a role' b) (hroot : a.loop.routine? v = some (.exchange opening asking))
    (hfree : Undisturbed v (a :: past))
    (hahead : a.loop.Ahead v w → (∀ x, a.loop.running = some x → x.task ≠ v) →
      (∃ x, b.loop.running = some x ∧ x.task = v) ∨ b.loop.Ahead v w) : Overrun v w d asking b (a :: past) := by
  have hkeep : ∀ {c : Moment}, c ∈ a :: past → c ∈ b :: a :: past := List.mem_cons_of_mem _
  rcases h with hended | hexpired | ⟨⟨c, hc, hdue⟩, hor⟩
  · obtain ⟨o, ho⟩ := Option.isSome_iff_exists.mp hended
    exact .inl (by rw [hasEnded, hg.ended ha hb ho]; rfl)
  · exact .inr (.inl hexpired.cons)
  · by_cases hv : ∃ x, a.loop.running = some x ∧ x.task = v
    · obtain ⟨x, hx, rfl⟩ := hv
      have hth := thread?_of_running hx
      have ht := hg.turn ha hb hth
      by_cases hrunning : ∃ y, b.loop.running = some y ∧ y.task = x.task
      · exact .inr (.inr ⟨⟨c, hkeep hc, hdue⟩, .inl hrunning⟩)
      · refine .of_idle (.step hrun hg.step) ((hg.keeps ha).routine hroot) hfree (hkeep hc) hdue (fun y hy heq => hrunning ⟨y, hy, heq⟩)
          fun l g stack hth' hset => ?_
        rw [ht.course.unsettled hb.fits x.thread_isIdle hth' (hb.fits.role_of_queuesAt hth' (.inr (.inl ⟨l, rfl⟩))).1] at hset
        cases hset
    · have hne : ∀ x, a.loop.running = some x → x.task ≠ v := fun x hx heq => hv ⟨x, hx, heq⟩
      have hahead' := hor.resolve_left hv
      exact .inr (.inr ⟨⟨c, hkeep hc, hdue⟩, hahead hahead' hne⟩)

/-- **Whoever waits for an exchange goes on to watch it.** -/
theorem Watched.step (h : Watched v w d opening asking a past) (hrun : IsRun (a :: past)) (ha : a.Holds role) (hb : b.Holds role')
    (hg : Goes role a role' b) (hw : role w = .reserved) (hth : a.loop.thread? u = some ⟨.waits w, .timing v w :: stack⟩)
    (hroot : a.loop.routine? u = some root) (hinner : root.isInner = false) (hc : u ∉ b.cancelled) :
    Watched v w d opening asking b (a :: past) := by
  have hkeeps := hg.keeps ha
  have hmade := hkeeps.routine h.made
  have hrun' : IsRun (b :: a :: past) := .step hrun hg.step
  have hfree : Undisturbed v (a :: past) := by
    intro c hmem
    rcases List.mem_cons.mp hmem with rfl | hmem
    · exact hrun.not_cancels hth (.inr ⟨_, List.mem_cons_self, rfl⟩) fun h => by cases h
    · exact h.free c hmem
  obtain ⟨f, hf, htimed⟩ := h.timed
  have hf' := hkeeps.owner hf
  have hend : b.loop.isSettled f = true → Overrun v w d asking b (a :: past) := fun hset =>
    .inl (Loop.hasEnded_of_owner hb.fits.tidy.sound.owned hf' hset)
  refine ⟨hmade, hfree, f, hf', ?_⟩
  rcases hg.avoids ha hw hth hroot hinner hc with havoids | ⟨hr, ⟨k, rest, hready, hloop⟩ | ⟨now, hloop⟩⟩
  · exact htimed.avoids havoids (fun hover => hover.step hrun ha hb hg h.made hfree fun hahead _ => .inr (hahead.avoids havoids)) hend
  · rw [hloop] at hend ⊢
    refine htimed.turn hready (fun hover => hover.step hrun ha hb hg h.made hfree fun hahead _ => ?_) hend
    rw [hloop]
    rcases hahead.turn hready htimed.groups with ⟨g, hk⟩ | hahead
    · exact .inl (ha.fits.runs_of_task hr hready (by rw [hk]; rfl))
    · exact .inr hahead
  · have hover : Overrun v w d asking a past → Overrun v w d asking b (a :: past) := fun hover =>
      hover.step hrun ha hb hg h.made hfree fun hahead _ => .inr (hloop ▸ hahead.setTime now)
    have hdue : isDue now d = true → Overrun v w d asking b (a :: past) := by
      intro hdue
      by_cases hbefore : Overrun v w d asking a past
      · exact hover hbefore
      · have hsame : ∀ t, b.loop.thread? t = a.loop.thread? t := fun t => by rw [hloop]; rfl
        refine .of_idle hrun' hmade hfree List.mem_cons_self (by rw [hloop]; exact hdue)
          (fun x hx => by rw [hloop] at hx; cases hr.symm.trans hx) fun l g stack' hth' hset => ?_
        -- the task was woken before the timer is due
        have hun : a.loop.isSettled w = false := by
          cases hset : a.loop.isSettled w with
          | false => rfl
          | true =>
            obtain ⟨o, ho⟩ := isSettled_iff.mp hset
            exact absurd (htimed.outcome ho).2 hbefore
        have hwake := ha.fits.tidy.sound.woken.notify.mpr ⟨show a.loop.isSettled g = true by rw [hloop] at hset; exact hset,
          stack'.cons (.getting l g), (hsame v).symm.trans hth'⟩
        have hahead : a.loop.Ahead v w := ⟨g, .of_mem hun (fun k hk hkw => hbefore (htimed.ready hk hkw).2) hwake⟩
        exact .inr (.inr ⟨⟨b, List.mem_cons_self, by rw [hloop]; exact hdue⟩, .inr (hloop ▸ hahead.setTime now)⟩)
    exact hloop ▸ htimed.setTime now hover hdue

/-! ## A request whose time is limited -/

/-- Only a task that begins to limit the time of its request sets a limit. -/
theorem Moment.limits_eq_none (hth : a.loop.thread? u = some th)
    (h : ∀ limit inner file n limit', th ≠ ⟨.begins (.within limit inner), [.requesting file n limit']⟩) : a.limits u = none := by
  unfold Moment.limits
  split
  · next t limit inner file n limit' hr =>
    split
    · next heq =>
      subst heq
      exact absurd (Option.some.inj (hth.symm.trans (thread?_of_running hr))) (h limit inner file n limit')
    · rfl
  · rfl

theorem Moment.limits_of_not_running (h : ∀ x, a.loop.running = some x → x.task ≠ u) : a.limits u = none := by
  unfold Moment.limits
  split
  · next t limit inner file n limit' hr => exact if_neg (h _ hr)
  · rfl

theorem limited_cons (h : b.limits u = none) : limited u (b :: a :: past) = limited u (a :: past) :=
  List.filterMap_cons_none h

/-- An excuse stays one, when the task neither asks nor sets a limit. -/
theorem Excused.cons (h : Excused u file (a :: past)) (hi : b.issues u = none) (hl : b.limits u = none) :
    Excused u file (b :: a :: past) := by
  obtain ⟨n, v, d, hn, hd, hor⟩ := h
  exact ⟨n, v, d, (numbers_cons hi).trans hn, (limited_cons hl).trans hd, hor.imp Lagged.cons Expired.cons⟩

/-- Nobody cancels a task that is not there. -/
theorem IsRun.not_cancels_unborn (h : IsRun (a :: past)) (hn : a.loop.routine? v = none) :
    Undisturbed v (a :: past) := by
  intro c hc t stack hr
  obtain ⟨newer, older, heq⟩ := List.mem_iff_append.mp hc
  obtain ⟨r, hroutine⟩ := (IsRun.upTo (heq ▸ h)).guarded.there (thread?_of_running hr) (.inl rfl)
  rcases List.mem_cons.mp hc with rfl | hc
  · cases hn.symm.trans hroutine
  · cases hn.symm.trans (h.routine_of_mem hc hroutine)

open Loop in
/-- A limit is set: whoever sets it watches a new task. -/
theorem Watched.born (hrun : IsRun (a :: past)) (ha : a.Holds role) (hb : b.Holds role')
    {time : Binary64} (hover : limit.isOver = false) (htime : limit.toBinary? = some time)
    (ht : Turn role a.loop u ⟨.begins (.within limit (.exchange opening asking)), stack⟩ role' b.loop) :
    Watched a.loop.tasks.size (a.loop.futures.size + 1) (a.loop.now.add time) opening asking b (a :: past) ∧
      b.loop.thread? u = some ⟨.waits (a.loop.futures.size + 1),
        .timing a.loop.tasks.size (a.loop.futures.size + 1) :: stack⟩ := by
  obtain ⟨hr, -, called, root, -, -, hd, hloop⟩ := ht.of_begins
  have hlimits := hd.limits ha.fits hr hover htime
  rw [← hloop] at hlimits
  have hunborn := routine?_size a.loop
  -- who is not there yet has no answer
  have hdue : isDue a.loop.now (a.loop.now.add time) = true →
      Overrun a.loop.tasks.size (a.loop.futures.size + 1) (a.loop.now.add time) asking b (a :: past) := fun hdue => by
    refine .inr (.inl (Expired.now List.mem_cons_self hdue
      (fun c hc => hrun.not_cancels_unborn hunborn c (List.mem_cons_of_mem _ hc)) (.inl fun l hl => ?_)).cons)
    rw [hrun.enlisted_of_unborn hunborn] at hl
    cases hl
  exact ⟨⟨hlimits.made, hrun.not_cancels_unborn hunborn, _, hlimits.owner,
    hlimits.timed hdue fun hset => .inl (Loop.hasEnded_of_owner hb.fits.tidy.sound.owned hlimits.owner hset)⟩, hlimits.thread⟩

/-- Where a request is at the next moment. -/
def Limiting.Next (u : TaskId) (file : Json) (limit : Seconds) (b : Moment) (past : List Moment) : Prop :=
  (∃ th, b.loop.thread? u = some th ∧ Limiting u file limit b past th) ∨
    ∃ o, b.loop.taskOutcome? u = some o ∧ (Ending.isTimeout o = true → Excused u file (b :: past))

/-- An excuse is one at the next moment, wherever a task that does not begin anything is then. -/
theorem Excused.at (h : Excused u file (a :: past)) (hth : b.loop.thread? u = some th)
    (hask : ∀ file limit, th ≠ ⟨.begins (.request file limit), []⟩)
    (hset : ∀ limit inner file n limit', th ≠ ⟨.begins (.within limit inner), [.requesting file n limit']⟩) :
    Excused u file (b :: a :: past) :=
  h.cons (Moment.issues_eq_none hth hask) (Moment.limits_eq_none hth hset)

theorem Limiting.Next.of_ends {n : Int} (hth : b.loop.thread? u = some ⟨.resumes o, [.requesting file n limit]⟩)
    (ho : Ending.isTimeout o = true → Excused u file (a :: past)) : Limiting.Next u file limit b (a :: past) :=
  .inl ⟨_, hth, .ends fun h => (ho h).at hth (fun _ _ h => by cases h) fun _ _ _ _ _ h => by cases h⟩

theorem Limiting.Next.of_lapses {n : Int} (hth : b.loop.thread? u = some th)
    (hs : [.lapsed v w, .requesting file n limit] <:+ th.stack) (h : Excused u file (a :: past)) :
    Limiting.Next u file limit b (a :: past) := by
  refine .inl ⟨_, hth, .lapses (h.at hth (fun _ _ heq => ?_) fun _ _ _ _ _ heq => ?_) hs⟩
  · rw [heq] at hs
    cases hs.subset List.mem_cons_self
  · rw [heq] at hs
    have hle := hs.length_le
    simp at hle

/-- What is left of a request that has ended its limit. -/
theorem Limiting.Next.of_requesting {n : Int} (ht : Loop.Turn role a.loop u ⟨.resumes o, [.requesting file n limit]⟩ role' b.loop)
    (ho : Ending.isTimeout o = true → Excused u file (a :: past)) : Limiting.Next u file limit b (a :: past) := by
  have hfinished : ∀ {o'}, b.loop.thread? u = some ⟨.resumes o', []⟩ → (Ending.isTimeout o' = true → Ending.isTimeout o = true) →
      Limiting.Next u file limit b (a :: past) := fun hth himp =>
    .inl ⟨_, hth, .finished fun h => (ho (himp h)).at hth (fun _ _ h => by cases h) fun _ _ _ _ _ h => by cases h⟩
  obtain ⟨-, hth⟩ := ht.resumed (Prod.eta _).symm
  simp only [Loop.resume, Loop.requestResumed] at hth
  split at hth
  · exact hfinished hth fun _ => rfl
  · exact hfinished hth id

open Loop in
/-- **A request whose time is limited goes on as it should.** -/
theorem Limiting.step (h : Limiting u file limit a past th) (hrun : IsRun (a :: past)) (ha : a.Holds role) (hb : b.Holds role')
    (hg : Goes role a role' b) (hth : a.loop.thread? u = some th)
    (hroot : a.loop.routine? u = some (.request file (some limit))) (hover : limit.isOver = false) (hc : u ∉ b.cancelled) :
    Limiting.Next u file limit b (a :: past) := by
  have ht := hg.turn ha hb hth
  have hsp := hrun.spares hroot rfl fun hmem => hc (hg.cancelled hmem)
  cases h with
  | fresh hn hl =>
    refine .inl ?_
    cases ht with
    | rests _ _ hth' =>
      exact ⟨_, hth', .fresh ((numbers_cons (Moment.issues_eq_none hth' fun _ _ h => by cases h)).trans hn)
        ((limited_cons (Moment.limits_eq_none hth' fun _ _ _ _ _ h => by cases h)).trans hl)⟩
    | awakes how switch =>
      cases how with
      | begins =>
        exact ⟨_, switch.self, .asks hn ((limited_cons (Moment.limits_eq_none switch.self fun _ _ _ _ _ h => by cases h)).trans hl)⟩
      | dropped hheld => exact absurd hheld hsp.free
  | asks hn hl =>
    -- the number is given at this moment
    obtain ⟨hr, -⟩ := ht.of_begins
    obtain ⟨-, hth'⟩ := ht.begun (Prod.eta _).symm
    have hi : a.issues u = some (a.loop.state.nextSeq + 1) := by simp [Moment.issues, hr]
    refine .inl ⟨_, hth', .limits (n := a.loop.state.nextSeq + 1) _ ?_ hl⟩
    refine (numbers_cons (Moment.issues_eq_none hth' fun _ _ h => by cases h)).trans ?_
    rw [numbers, List.filterMap_cons_some hi, ← numbers, hn]
  | @limits n opening hn hl =>
    obtain ⟨hr, -⟩ := ht.of_begins
    cases htime : limit.toBinary? with
    | none =>
      have hbegin : begin (.within limit (.exchange opening (.semanticDiagnostics n file))) a.loop =
          (a.loop, .done (.failed .limitTooLong)) := by
        simp [begin, within, hover, htime]
      obtain ⟨-, hth'⟩ := ht.begun hbegin
      exact .of_ends hth' fun h => by cases h
    | some time =>
      have hi : a.limits u = some (a.loop.tasks.size, a.loop.now.add time) := by simp [Moment.limits, hr, htime]
      obtain ⟨hwatched, hth'⟩ := Watched.born hrun ha hb hover htime ht
      refine .inl ⟨_, hth', .waits ?_ ?_ (.inl rfl) hwatched⟩
      · exact (numbers_cons (Moment.issues_eq_none hth' fun _ _ h => by cases h)).trans hn
      · refine (limited_cons (Moment.limits_eq_none hth' fun _ _ _ _ _ h => by cases h)).trans ?_
        rw [limited, List.filterMap_cons_some hi, ← limited, hl]
  | @waits n v w d opening top hn hl htop hwatched =>
    have hwaits : ∀ {top}, b.loop.thread? u = some ⟨top, [.timing v w, .requesting file n limit]⟩ →
        (top = .waits w ∨ ∃ o, top = .resumes o ∧ b.loop.outcome? w = some o) →
        Watched v w d opening (.semanticDiagnostics n file) b (a :: past) → Limiting.Next u file limit b (a :: past) :=
      fun hth' htop' hwatched' => .inl ⟨_, hth', .waits
        ((numbers_cons (Moment.issues_eq_none hth' fun _ _ h => by cases h)).trans hn)
        ((limited_cons (Moment.limits_eq_none hth' fun _ _ _ _ _ h => by cases h)).trans hl) htop' hwatched'⟩
    rcases htop with rfl | ⟨o, rfl, ho⟩
    · obtain ⟨hplain, hrole⟩ : a.loop.HasRole role .reserved w := by
        obtain ⟨_, -, hfits⟩ := ha.fits.threads hth
        cases hfits with
        | waits _ hawaits _ =>
          cases hawaits with
          | timing _ h => exact h
      have hwatched' := hwatched.step hrun ha hb hg hrole hth hroot rfl hc
      cases ht with
      | rests _ _ hth' => exact hwaits hth' (.inl rfl) hwatched'
      | awakes how switch =>
        cases how with
        | resumes hfree ho => exact hwaits switch.self (.inr ⟨_, rfl, (switch.outcome hplain).trans ho⟩) hwatched'
        | interrupted hheld => exact absurd hheld hsp.free
    · obtain ⟨-, hr, -⟩ := ht.of_resumes
      obtain ⟨-, hth'⟩ := ht.resumed (Prod.eta _).symm
      simp only [resume, timeResumed] at hth'
      split at hth'
      · -- the exchange has ended
        next hended =>
        obtain ⟨o', ho'⟩ := Option.isSome_iff_exists.mp hended
        have hending : a.loop.taskEnding v = o' := by rw [taskEnding, ho']; rfl
        refine .of_ends hth' fun hlate => ⟨n, v, d, hn, hl, .inl ?_⟩
        rcases hrun.pursuit hwatched.made hwatched.free with ⟨th', hthv, -⟩ | ⟨o'', ho'', hlagged⟩
        · cases (ha.fits.tidy.sound.taskOutcome?_of_thread? hthv).symm.trans ho'
        · cases ho'.symm.trans ho''
          exact (hlagged (hending ▸ hlate)).cons
      · -- time is up
        next hnot =>
        obtain ⟨f, -, htimed⟩ := hwatched.timed
        obtain ⟨hvalue, hover⟩ := htimed.outcome ho
        have hexpired : Expired v d (.semanticDiagnostics n file) (a :: past) := by
          rcases hover with hended | hexpired | ⟨-, ⟨x, hx, heq⟩ | hahead⟩
          · exact absurd hended hnot
          · exact hexpired
          · cases hr.symm.trans hx
            obtain rfl : u = v := heq
            cases hroot.symm.trans hwatched.made
          · cases (isSettled_eq_false.mp hahead.unsettled).symm.trans ho
        cases o with
        | value x => exact .of_lapses hth' (List.suffix_refl _) ⟨n, v, d, hn, hl, .inr hexpired⟩
        | _ => cases hvalue
  | lapses h hs =>
    rcases ht.beneath hs with ⟨o, rfl⟩ | ⟨th', hth', hs'⟩
    · obtain ⟨-, hth'⟩ := ht.resumed (Prod.eta _).symm
      simp only [resume, lapsedResumed] at hth'
      split at hth' <;> exact .of_ends hth' fun _ => h
    · exact .of_lapses hth' hs' h
  | ends ho => exact .of_requesting ht ho
  | finished ho =>
    cases ht with
    | rests idle => cases idle
    | awakes how => cases how
    | ends outcome =>
      have hne := hb.task_ne_of_ended outcome
      exact .inr ⟨_, outcome, fun h => (ho h).cons (Moment.issues_of_not_running hne) (Moment.limits_of_not_running hne)⟩

/-- **A request whose time is limited** is on its way, or it has ended: because time ran out only with an excuse. -/
theorem IsRun.limiting (h : IsRun (a :: past)) (hroot : a.loop.routine? u = some (.request file (some limit)))
    (hover : limit.isOver = false) (hc : u ∉ a.cancelled) :
    (∃ th, a.loop.thread? u = some th ∧ Limiting u file limit a past th) ∨
      ∃ o, a.loop.taskOutcome? u = some o ∧ (Ending.isTimeout o = true → Excused u file (a :: past)) := by
  have hall := h.follow (P := fun a past th => u ∉ a.cancelled → Limiting u file limit a past th)
    (Q := fun a past o => u ∉ a.cancelled → Ending.isTimeout o = true → Excused u file (a :: past)) ?_ ?_ ?_ hroot
  · exact hall.imp (fun ⟨th, hth, hp⟩ => ⟨th, hth, hp hc⟩) fun ⟨o, ho, hq⟩ => ⟨o, ho, hq hc⟩
  · -- who was not there has asked for nothing
    intro a past hpast hth _
    refine .fresh (List.filterMap_eq_nil_iff.mpr fun c hmem => ?_) (List.filterMap_eq_nil_iff.mpr fun c hmem => ?_)
    · rcases List.mem_cons.mp hmem with rfl | hmem
      · exact Moment.issues_eq_none hth fun _ _ h => by cases h
      · exact Moment.issues_of_not_running (task_ne_of_thread? (hpast c hmem))
    · rcases List.mem_cons.mp hmem with rfl | hmem
      · exact Moment.limits_eq_none hth fun _ _ _ _ _ h => by cases h
      · exact Moment.limits_of_not_running (task_ne_of_thread? (hpast c hmem))
  · intro role role' a b past th hrun ha hb hg hth hroot ht hp
    by_cases hc : u ∈ b.cancelled
    · exact ht.onward.imp (fun ⟨th', hth'⟩ => ⟨th', hth', fun h => absurd hc h⟩) fun ⟨o, ho⟩ => ⟨o, ho, fun h => absurd hc h⟩
    · have hstep := (hp fun hmem => hc (hg.cancelled hmem)).step hrun ha hb hg hth hroot hover hc
      exact hstep.imp (fun ⟨th', hth', h⟩ => ⟨th', hth', fun _ => h⟩) fun ⟨o, ho, h⟩ => ⟨o, ho, fun _ => h⟩
  · intro role role' a b past o _ ha hb hg ho hq hc hlate
    have hne := hb.task_ne_of_ended (hg.ended ha hb ho)
    exact (hq (fun hmem => hc (hg.cancelled hmem)) hlate).cons (Moment.issues_of_not_running hne)
      (Moment.limits_of_not_running hne)

end goes

/-- **A lack of time means silence**, unless the lock or a transport is to blame. A request whose time is limited and that
nobody cancels is given one number and sets one limit. It fails for lack of time only if a transport that its exchange
starts or stops does; or if at some moment its time is up, the exchange is not being cancelled yet, and no response that
answers it has been given to its listener, or the exchange has to do with the lock or a transport. -/
theorem timeouts_mean_silence {a : Moment} {past : List Moment} {u : TaskId} {file : Json} {limit : Seconds} {e : Failure}
    (h : IsRun (a :: past)) (hroot : a.loop.routine? u = some (.request file (some limit))) (hover : limit.isOver = false)
    (hc : u ∉ a.cancelled) (ho : a.loop.taskOutcome? u = some (.failed e)) (he : e.isTimeout = true) :
    ∃ n v d, numbers u (a :: past) = [n] ∧ limited u (a :: past) = [(v, d)] ∧
      (Lagged v (a :: past) ∨ Expired v d (.semanticDiagnostics n file) (a :: past)) := by
  rcases h.limiting hroot hover hc with ⟨th, hth, -⟩ | ⟨o, ho', hexcused⟩
  · obtain ⟨role, hholds⟩ := h.holds
    cases (hholds.fits.tidy.sound.taskOutcome?_of_thread? hth).symm.trans ho
  · cases ho.symm.trans ho'
    exact hexcused he

/-- What a task was asked to do stays. -/
theorem IsRun.routine_of_suffix {a b : Moment} {past older : List Moment} {u : TaskId} {r : Routine} (h : IsRun (a :: past))
    (hs : b :: older <:+ a :: past) (hr : b.loop.routine? u = some r) : a.loop.routine? u = some r := by
  rcases List.suffix_cons_iff.mp hs with heq | hs
  · cases heq
    exact hr
  · exact h.routine_of_mem (hs.subset List.mem_cons_self) hr

/-- The file whose diagnostics did not come in time, the number of their request and the limit, if that is how a task has
ended. -/
def Loop.lack? (m : Loop) (u : TaskId) : Option (Json × Int × Seconds) :=
  match m.taskOutcome? u with
  | some (.failed (.noDiagnostics file n limit)) => some (file, n, limit)
  | _ => none

theorem Loop.exists_of_lack? {m : Loop} {u : TaskId} (h : (m.lack? u).isSome = true) :
    ∃ file n limit, m.taskOutcome? u = some (.failed (.noDiagnostics file n limit)) := by
  unfold Loop.lack? at h
  split at h
  · next heq => exact ⟨_, _, _, heq⟩
  · cases h

/-- A session over a child that ignores the request to end. -/
def stubbornSession : Loop :=
  { state := { settings := { command := [lit "node", lit "tsserver.js"] }, launches := [.child .ignores] } }

/-- The same session when it was asked for the diagnostics of a file within three seconds. -/
def hurriedSession : Moment × List Moment :=
  Moment.pursue 60 (.ask (.request (.str (lit "a.ts")) (some (.whole 3)))) ({ loop := stubbornSession }, [])

theorem isRun_hurriedSession : IsRun (hurriedSession.1 :: hurriedSession.2) := by
  have hnew : IsRun [({ loop := stubbornSession } : Moment)] := .new ⟨stubbornSession.state, rfl⟩
  exact @IsRun.pursue (.ask (.request (.str (lit "a.ts")) (some (.whole 3)))) (_, []) hnew rfl ⟨rfl, fun l hl => by cases hl⟩ 60

theorem routine?_hurriedSession :
    hurriedSession.1.loop.routine? 0 = some (.request (.str (lit "a.ts")) (some (.whole 3))) :=
  isRun_hurriedSession.routine_of_suffix (suffix_pursue 60 _ _) rfl

/-- The same session when the three seconds are over, and those that its child is given to end. -/
def silentSession : Moment × List Moment :=
  Moment.pursue 60 (.advance (.whole 5)) (Moment.pursue 60 (.advance (.whole 3)) hurriedSession)

/-- Nobody answers, and the request fails when its child has been killed. -/
theorem timeouts_mean_silence_when_silent : ∃ a past e n v d, IsRun (a :: past) ∧
    a.loop.routine? 0 = some (.request (.str (lit "a.ts")) (some (.whole 3))) ∧ 0 ∉ a.cancelled ∧
    a.loop.taskOutcome? 0 = some (.failed e) ∧ e.isTimeout = true ∧ numbers 0 (a :: past) = [n] ∧
    limited 0 (a :: past) = [(v, d)] ∧
    (Lagged v (a :: past) ∨ Expired v d (.semanticDiagnostics n (.str (lit "a.ts"))) (a :: past)) := by
  have hthree := isRun_hurriedSession.pursue (s := .advance (.whole 3)) (by decide +kernel) trivial 60
  have hrun : IsRun (silentSession.1 :: silentSession.2) :=
    hthree.pursue (s := .advance (.whole 5)) (by decide +kernel) trivial 60
  have hsuffix : hurriedSession.1 :: hurriedSession.2 <:+ silentSession.1 :: silentSession.2 :=
    (((List.suffix_cons _ _).trans (suffix_pursue 60 _ _)).trans (List.suffix_cons _ _)).trans (suffix_pursue 60 _ _)
  have hroot := hrun.routine_of_suffix hsuffix routine?_hurriedSession
  have hc : 0 ∉ silentSession.1.cancelled := by decide +kernel
  obtain ⟨file', k, limit', ho⟩ := Loop.exists_of_lack? (by decide +kernel : (silentSession.1.loop.lack? 0).isSome = true)
  obtain ⟨n, v, d, hn, hd, hexcuse⟩ := timeouts_mean_silence hrun hroot (by decide) hc ho rfl
  exact ⟨_, _, _, n, v, d, hrun, hroot, hc, ho, rfl, hn, hd, hexcuse⟩

/-- The response to the request, as the child writes it. -/
def answerWritten : Bytes :=
  asciiBytes ("Content-Length: 81\n\n" ++
    "\x7b\"type\":\"response\",\"request_seq\":1,\"command\":\"semanticDiagnosticsSync\",\"body\":[]\x7d")

/-- The same session when its child has answered at once. -/
def promptSession : Moment × List Moment := Moment.pursue 60 (.output 0 answerWritten) hurriedSession

/-- The same session when the three seconds are over. -/
def slowSession : Moment × List Moment := Moment.pursue 60 (.advance (.whole 3)) promptSession

/-- Whether an item is a response that answers a request. -/
def Delivery.answers (asking : Request) : Delivery → Bool
  | .message (.response r) => r.answers asking
  | _ => false

/-- The answer was given to the listener of the request before its time was up, and yet the request fails for lack of time:
its child was being stopped after that, and had not ended when the time was up. -/
theorem answered_in_time_but_failed : ∃ a past b older d, IsRun (a :: past) ∧ b :: older <:+ a :: past ∧
    a.loop.routine? 0 = some (.request (.str (lit "a.ts")) (some (.whole 3))) ∧ 0 ∉ a.cancelled ∧
    numbers 0 (a :: past) = [1] ∧ limited 0 (a :: past) = [(1, d)] ∧ enlisted 1 (a :: past) = [0] ∧
    isDue b.loop.now d = false ∧
    (∃ answer ∈ offered 0 (b :: older), answer.answers (.semanticDiagnostics 1 (.str (lit "a.ts"))) = true) ∧
    ∃ file n limit, a.loop.taskOutcome? 0 = some (.failed (.noDiagnostics file n limit)) := by
  have hprompt : IsRun (promptSession.1 :: promptSession.2) :=
    isRun_hurriedSession.pursue (s := .output 0 answerWritten) (by decide +kernel) trivial 60
  have hrun : IsRun (slowSession.1 :: slowSession.2) := hprompt.pursue (s := .advance (.whole 3)) (by decide +kernel) trivial 60
  have hlack := Loop.exists_of_lack? (by decide +kernel : (slowSession.1.loop.lack? 0).isSome = true)
  have hlimited : limited 0 (slowSession.1 :: slowSession.2) = [(1, hurriedSession.1.loop.now.add (.ofInt 3))] := by
    decide +kernel
  have hsuffix : promptSession.1 :: promptSession.2 <:+ slowSession.1 :: slowSession.2 :=
    (List.suffix_cons _ _).trans (suffix_pursue 60 _ _)
  have hroot := hrun.routine_of_suffix (((List.suffix_cons _ _).trans (suffix_pursue 60 _ _)).trans hsuffix) routine?_hurriedSession
  refine ⟨_, _, promptSession.1, promptSession.2, _, hrun, hsuffix, hroot, ?_, ?_, hlimited, ?_, ?_, ?_, hlack⟩
  · decide +kernel
  · decide +kernel
  · decide +kernel
  · decide +kernel
  · exact List.any_eq_true.mp (by decide +kernel)

end DiagnosticsClient
