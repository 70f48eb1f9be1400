import DiagnosticsClient.Proofs.Session.Dismissals
import DiagnosticsClient.Proofs.Session.Lapses
/-
Nobody who waits to leave is cancelled by whoever limits his time.

Where callers wait until nothing can go on, a request that limits the time of its exchange
finds it poised (`Poised`) from its first step on: the request begins with nothing else to be
done (`Minding`), and so does its exchange. Whatever makes it cancel the exchange, that does
not wait to leave then (`IsPaced.not_exposed_of_cancel`). And it does cancel it, unless the
exchange ends before (`Heeds`): when the request has ended, the exchange has or is on its way
out, and so it is in the end when the request is cancelled (`IsPaced.heeds`).
-/
namespace DiagnosticsClient

open Async Async.Machine

/-- A frame of somebody who limits a time and is done with it. -/
def Frame.concludes : Frame → Bool
  | .overdue _ => true
  | .lapsed .. => true
  | .abandoned _ => true
  | .cancelWaiting .. => true
  | .requesting .. => true
  | _ => false

/-- Where a request is that limits the time of its exchange. -/
inductive Minding (u : TaskId) (file : Json) (limit : Seconds) (a : Moment) : Thread Routine Frame Value Failure → Prop
  /-- Nobody else is to go on before it begins. -/
  | fresh (hc : u ∉ a.cancelled) (hready : a.loop.ready = [.start u]) (idle : a.loop.running = none) (hun : a.loop.Uncontested u) :
      Minding u file limit a ⟨.fresh (.request file (some limit)), []⟩
  | asks (hc : u ∉ a.cancelled) (hready : a.loop.ready = []) (hun : a.loop.Uncontested u) :
      Minding u file limit a ⟨.begins (.request file (some limit)), []⟩
  | limits {n : Int} {opening asking : Request} (hc : u ∉ a.cancelled) (hready : a.loop.ready = []) (hun : a.loop.Uncontested u) :
      Minding u file limit a ⟨.begins (.within limit (.exchange opening asking)), [.requesting file n limit]⟩
  | waits {n : Int} {v : TaskId} {w : FutureId} {opening asking : Request}
      (hv : a.loop.routine? v = some (.exchange opening asking)) (h : Poised u v w a) :
      Minding u file limit a ⟨.waits w, [.timing v w, .requesting file n limit]⟩
  | wakes {n : Int} {v : TaskId} {w : FutureId} {opening asking : Request} (o : Ending)
      (hv : a.loop.routine? v = some (.exchange opening asking)) (h : ¬ a.Exposed v) :
      Minding u file limit a ⟨.resumes o, [.timing v w, .requesting file n limit]⟩
  | cancels {n : Int} {v : TaskId} {F : Frame} (hF : F.concludes = true) (h : ¬ a.Exposed v) :
      Minding u file limit a ⟨.begins (.cancelAndWait v), [F, .requesting file n limit]⟩
  /-- It is done with its exchange. -/
  | waitsOn (f : FutureId) {stack : List Frame} (h : ∀ F ∈ stack, F.concludes = true) : Minding u file limit a ⟨.waits f, stack⟩
  | goesOn (o : Ending) {stack : List Frame} (h : ∀ F ∈ stack, F.concludes = true) : Minding u file limit a ⟨.resumes o, stack⟩

/-- Where a request is at the next moment. -/
def Minding.Next (u : TaskId) (file : Json) (limit : Seconds) (b : Moment) : Prop :=
  (∃ th, b.loop.thread? u = some th ∧ Minding u file limit b th) ∨ ∃ o, b.loop.taskOutcome? u = some o

/-- The task that a request makes for its exchange, if it does so now. -/
def Moment.entrusts (u : TaskId) (a : Moment) : Option TaskId :=
  match a.loop.running with
  | some (.begin t (.within limit (.exchange ..)) _) =>
    if t = u ∧ (limit.isOver = true ∨ limit.toBinary?.isSome = true) then some a.loop.tasks.size else none
  | _ => none

/-- The tasks that a request has made for its exchange. -/
def entrusted (u : TaskId) (moments : List Moment) : List TaskId := moments.filterMap (·.entrusts u)

/-- How a request stands with a task that it has made for its exchange. -/
inductive Heeds (u v : TaskId) (a : Moment) : Prop
  /-- It waits for it; if it has been cancelled, it is about to go on. -/
  | waits {w : FutureId} {stack : List Frame} (hth : a.loop.thread? u = some ⟨.waits w, .timing v w :: stack⟩)
      (hc : u ∈ a.cancelled → a.loop.isSettled w = true)
  | wakes {w : FutureId} {o : Ending} {stack : List Frame} (hth : a.loop.thread? u = some ⟨.resumes o, .timing v w :: stack⟩)
  | cancels {stack : List Frame} (hth : a.loop.thread? u = some ⟨.begins (.cancelAndWait v), stack⟩)
  | dismissed (h : a.Dismissed v)

section loop

variable {role role' : FutureId → Role} {m m' : Loop} {u : TaskId} {r root : Routine} {stack : List Frame} {F : Frame} {o : Ending}
  {v : TaskId} {opening asking : Request}

/-- Whoever is done with it hands on what he is given. -/
theorem Frame.resume_of_concludes (hF : F.concludes = true) (o : Ending) (m : Loop) : ∃ o', (Loop.resume F o m).2 = .done o' := by
  cases F with
  | requesting file seq limit =>
    simp only [Loop.resume, Loop.requestResumed]
    split <;> exact ⟨_, rfl⟩
  | overdue t =>
    simp only [Loop.resume, Loop.overdueResumed]
    split <;> exact ⟨_, rfl⟩
  | lapsed t w =>
    simp only [Loop.resume, Loop.lapsedResumed]
    split <;> exact ⟨_, rfl⟩
  | abandoned w =>
    simp only [Loop.resume, Loop.abandonedResumed]
    split <;> exact ⟨_, rfl⟩
  | cancelWaiting t w => exact ⟨_, rfl⟩
  | _ => cases hF

/-- Nobody cancels an exchange and waits for its end but who was to ask for diagnostics in a limited time. -/
theorem Stacked.root_of_cancel {roots : TaskId → Option Routine} (h : Stacked roots root (.cancelAndWait v) stack)
    (hr : root.isRoot = true) (hv : roots v = some (.exchange opening asking)) :
    (∃ file limit, root = .request file (some limit)) ∨ ∃ name context limit, root = .checkFile name context limit := by
  cases h with
  | nil => cases hr
  | cons hc _ hminds h =>
    obtain ⟨limit, inner, rfl, hinner⟩ := hminds v rfl
    cases hv.symm.trans hinner
    cases h with
    | nil => cases hr
    | cons hc hs _ h =>
      cases hc
      cases hs
      exact h.root_of_request.imp_left fun h => ⟨_, _, h⟩

/-- When a task begins something, others are woken by that alone. -/
theorem Loop.Turn.ready_of_begins (ht : Loop.Turn role m u ⟨.begins r, stack⟩ role' m') : m'.ready = (Loop.begin r m).1.ready := by
  obtain ⟨hr, -, called, root, -, -, hd, rfl⟩ := ht.of_begins
  exact hd.ready hr rfl

end loop

section goes

variable {role role' : FutureId → Role} {a b : Moment} {past : List Moment} {u v : TaskId} {w : FutureId} {root : Routine}
  {stack : List Frame} {F : Frame} {o : Ending} {file : Json} {limit : Seconds} {opening asking : Request}
  {th : Thread Routine Frame Value Failure}

/-- Nobody waits to leave who has just been made. -/
theorem Goes.not_exposed_of_unborn (hg : Goes role a role' b) (ha : a.Holds role) (hb : b.Holds role')
    (hn : a.loop.routine? v = none) : ¬ b.Exposed v := by
  rintro ⟨w, l, rest, hth, -⟩
  obtain hnil | ⟨th, hth'⟩ := hg.was ha hb hth
  · cases hnil
  · obtain ⟨r, hr, -⟩ := ha.fits.threads hth'
    cases hn.symm.trans hr

/-- What the session does by itself cancels nobody from outside. -/
theorem Paces.cancelled (h : Paces role a role' b) (hq : a.loop.isQuiet = false) : b.cancelled = a.cancelled := by
  cases h with
  | tick => rfl
  | stimulus hquiet => cases hquiet.symm.trans hq

/-- Whoever is done with it goes on to its end. -/
theorem Minding.Next.of_concludes (ht : Loop.Turn role a.loop u ⟨.resumes o, F :: stack⟩ role' b.loop) (hF : F.concludes = true)
    (h : ∀ F ∈ stack, F.concludes = true) : Minding.Next u file limit b := by
  obtain ⟨o', ho'⟩ := Frame.resume_of_concludes hF o a.loop
  obtain ⟨-, hth'⟩ := ht.resumed (Prod.eta _).symm
  rw [ho'] at hth'
  exact .inl ⟨_, hth', .goesOn o' h⟩

/-- A request is asked for when nothing can go on. -/
theorem Minding.born (hrun : IsRun (a :: past)) (ha : a.Holds role) (hb : b.Holds role') (hp : Paces role a role' b)
    (hn : a.loop.routine? u = none) (hr : b.loop.routine? u = some (.request file (some limit))) : Minding.Next u file limit b := by
  refine .inl ⟨_, hp.goes.fresh ha hb hn hr, ?_⟩
  cases hp with
  | tick _ ht => rcases ht.born hn hr with h | ⟨h, -⟩ | ⟨h, -⟩ <;> cases h
  | @stimulus s hq hs =>
    obtain ⟨hidle, hnil⟩ := isQuiet_iff.mp hq
    obtain ⟨task, htask, heq⟩ := Option.map_eq_some_iff.mp hr
    rcases (Loop.apply_arrives ha.fits hidle hs).extends_.task_cases htask with ⟨task', held, htask', -, -⟩ | ⟨-, hspawn, -⟩
    · rw [Machine.routine?, htask'] at hn
      cases hn
    · rw [heq] at hspawn
      obtain rfl : s = .ask (.request file (some limit)) := hspawn.resolve_right fun h => by cases h
      obtain rfl : u = a.loop.tasks.size := by
        refine Decidable.byContradiction fun hne => ?_
        change (a.loop.spawn _).1.tasks[u]? = _ at htask
        rw [getElem?_spawn, if_neg hne] at htask
        rw [Machine.routine?, htask] at hn
        cases hn
      have hnone : a.loop.view Thread.station a.loop.tasks.size = none := by
        rw [Machine.view, hrun.unborn hn a List.mem_cons_self]
        rfl
      refine .fresh (hrun.not_cancelled_of_unborn hn) ?_ hidle ((hrun.uncontested_of_quiet hq hnone).mono fun t hne => ?_)
      · change a.loop.ready ++ [.start a.loop.tasks.size] = _
        rw [hnil, List.nil_append]
      · rw [Machine.view, Machine.view]
        exact congrArg (Option.bind · _) (thread?_spawn_of_ne hne)

variable (hrun : IsRun (a :: past)) (ha : a.Holds role) (hb : b.Holds role') (hp : Paces role a role' b)

include ha hb hp in
/-- It begins to limit the time of its exchange, if it does not fail at once. -/
theorem Minding.step_limits {n : Int} (hth : a.loop.thread? u =
      some ⟨.begins (.within limit (.exchange opening asking)), [.requesting file n limit]⟩)
    (hc : u ∉ a.cancelled) (hready : a.loop.ready = []) (hun : a.loop.Uncontested u) : Minding.Next u file limit b ∧
      (limit.isOver = true ∨ limit.toBinary?.isSome = true →
        b.loop.routine? a.loop.tasks.size = some (.exchange opening asking) ∧ Heeds u a.loop.tasks.size b) := by
  have hg := hp.goes
  have ht := hg.turn ha hb hth
  obtain ⟨hr, -, called, root, -, -, hd, hloop⟩ := ht.of_begins
  have hunborn := Loop.routine?_size a.loop
  cases hover : limit.isOver with
  | true =>
    have hbegin : Loop.begin (.within limit (.exchange opening asking)) a.loop =
        ((a.loop.spawn (.exchange opening asking)).1, .call (.cancelAndWait a.loop.tasks.size) (.overdue a.loop.tasks.size)) := by
      simp only [Loop.begin, Loop.within, hover, if_true]
      rfl
    obtain ⟨-, hth'⟩ := ht.begun hbegin
    refine ⟨.inl ⟨_, hth', .cancels rfl (hg.not_exposed_of_unborn ha hb hunborn)⟩, fun _ => ⟨?_, .cancels hth'⟩⟩
    rw [hloop, hd.switch.routine, hbegin]
    simp [Machine.routine?, getElem?_spawn]
  | false =>
    cases htime : limit.toBinary? with
    | none =>
      have hbegin : Loop.begin (.within limit (.exchange opening asking)) a.loop = (a.loop, .done (.failed .limitTooLong)) := by
        simp [Loop.begin, Loop.within, hover, htime]
      obtain ⟨-, hth'⟩ := ht.begun hbegin
      refine ⟨.inl ⟨_, hth', .goesOn _ fun F hF => by rw [List.mem_singleton.mp hF]; rfl⟩, fun h => ?_⟩
      rcases h with h | h <;> cases h
    | some time =>
      have hlimits := hd.limits ha.fits hr hover htime
      rw [← hloop] at hlimits
      have htick := hp.tick_of (isQuiet_of_running hr)
      have hpends : b.loop.Pends a.loop.tasks.size (a.loop.futures.size + 1) :=
        ⟨hlimits.starts.1, _, _, hlimits.owner, hlimits.timed (fun _ => trivial) fun _ => trivial⟩
      have hidle : b.loop.running = none := by
        refine Option.eq_none_iff_forall_ne_some.mpr fun y hy => ?_
        have htask : y.task = u := htick.runs_on ha.fits hr hy
        have hbusy := y.thread_isIdle
        rw [Option.some.inj ((thread?_of_running hy).symm.trans (htask ▸ hlimits.thread))] at hbusy
        cases hbusy
      have hfresh := hg.fresh ha hb hunborn hlimits.made
      have hun' : b.loop.Uncontested a.loop.tasks.size :=
        (hun.mono fun t hne => htick.view_other ha.fits hr hne).of_none ((Loop.view_station hlimits.thread).trans rfl)
          ((Loop.view_station hfresh).trans rfl)
      refine ⟨.inl ⟨_, hlimits.thread, .waits hlimits.made ?_⟩, fun _ => ⟨hlimits.made, .waits hlimits.thread fun hmem => ?_⟩⟩
      · obtain ⟨more, hmore, hexpire⟩ := hlimits.ready
        rw [hready, List.nil_append] at hmore
        cases more with
        | nil =>
          refine .calm hpends fun k hk => ?_
          rw [hmore] at hk
          cases List.mem_singleton.mp hk
          exact fun h => by cases h
        | cons k post =>
          cases hexpire k List.mem_cons_self
          exact .starts hpends hidle hmore hun'
      · exact absurd (hp.cancelled (isQuiet_of_running hr) ▸ hmem) hc

include hrun ha hb hp in
/-- **A request that limits the time of its exchange minds it.** -/
theorem Minding.step (h : Minding u file limit a th) (hth : a.loop.thread? u = some th)
    (hroot : a.loop.routine? u = some (.request file (some limit))) : Minding.Next u file limit b := by
  have hg := hp.goes
  have ht := hg.turn ha hb hth
  have hne : ∀ {v opening asking}, a.loop.routine? v = some (.exchange opening asking) → u ≠ v := by
    rintro _ _ _ hv rfl
    cases hroot.symm.trans hv
  cases h with
  | fresh hc hready idle hun =>
    have htick := hp.tick_of (by simp [isQuiet, hready])
    obtain ⟨r, x, hth', hx, hclaims⟩ := hp.claims ha idle hready
    cases hth.symm.trans hth'
    rcases hx with rfl | rfl
    · refine .inl ⟨_, hclaims.thread_self, .asks (hp.cancelled (by simp [isQuiet, hready]) ▸ hc) (List.cons.inj (hready.symm.trans hclaims.ready)).2.symm (hun.mono fun t hne => ?_)⟩
      exact htick.view_of_awakes idle hclaims.runs hne
    · exact .inl ⟨_, hclaims.thread_self, .goesOn _ fun F hF => by cases hF⟩
  | asks hc hready hun =>
    obtain ⟨hr, -⟩ := ht.of_begins
    obtain ⟨-, hth'⟩ := ht.begun (Prod.eta _).symm
    exact .inl ⟨_, hth', .limits (hp.cancelled (isQuiet_of_running hr) ▸ hc) (ht.ready_of_begins.trans hready)
      (hun.mono fun t hne => (hp.tick_of (isQuiet_of_running hr)).view_other ha.fits hr hne)⟩
  | limits hc hready hun => exact (Minding.step_limits ha hb hp hth hc hready hun).1
  | @waits n v w _ _ hv h =>
    have hw : role w = .reserved := by
      obtain ⟨_, -, hfits⟩ := ha.fits.threads hth
      cases hfits with
      | waits _ hawaits =>
        cases hawaits with
        | timing _ h => exact h.2
    rcases h.step hrun ha hb hp hw hth hv hroot rfl with ⟨hth', h⟩ | ⟨o, hth', h⟩
    · exact .inl ⟨_, hth', .waits ((hg.keeps ha).routine hv) h⟩
    · exact .inl ⟨_, hth', .wakes o ((hg.keeps ha).routine hv) h⟩
  | wakes o hv h =>
    obtain ⟨-, hr, -⟩ := ht.of_resumes
    obtain ⟨-, hth'⟩ := ht.resumed (Prod.eta _).symm
    have hexp := hg.not_exposed_of_idle ha hb hv rfl (fun x hx => by cases hr.symm.trans hx; exact hne hv) h
    simp only [Loop.resume, Loop.timeResumed] at hth'
    split at hth'
    · exact .inl ⟨_, hth', .goesOn _ fun F hF => by rw [List.mem_singleton.mp hF]; rfl⟩
    · cases o <;> exact .inl ⟨_, hth', .cancels rfl hexp⟩
  | @cancels n v F hF h =>
    have hall : ∀ (w : FutureId), ∀ G ∈ [.cancelWaiting v w, F, .requesting file n limit], Frame.concludes G = true := by
      intro w G hG
      rcases List.mem_cons.mp hG with rfl | hG
      · rfl
      rcases List.mem_cons.mp hG with rfl | hG
      · exact hF
      · rw [List.mem_singleton.mp hG]
        rfl
    obtain ⟨-, hth'⟩ := ht.begun (Prod.eta _).symm
    simp only [Loop.begin, Loop.cancelAndWait, nextThread] at hth'
    split at hth'
    · exact .inl ⟨_, hth', .goesOn _ (hall _)⟩
    · exact .inl ⟨_, hth', .waitsOn _ (hall _)⟩
  | waitsOn f h =>
    cases ht with
    | rests _ _ hth' => exact .inl ⟨_, hth', .waitsOn f h⟩
    | awakes how switch =>
      cases how with
      | resumes => exact .inl ⟨_, switch.self, .goesOn _ h⟩
      | interrupted => exact .inl ⟨_, switch.self, .goesOn _ h⟩
  | @goesOn o stack h =>
    cases stack with
    | nil => exact .inr ⟨o, ht.of_ends⟩
    | cons F stack => exact .of_concludes ht (h F List.mem_cons_self) fun G hG => h G (List.mem_cons_of_mem _ hG)

include hrun ha hb hp in
/-- **A request stays mindful of its exchange until that is dismissed.** -/
theorem Heeds.step (h : Heeds u v a) (hv : a.loop.routine? v = some (.exchange opening asking)) : Heeds u v b := by
  have hg := hp.goes
  have hknown := hrun.thread_or_ended hv
  cases h with
  | @waits w stack hth hc =>
    have ht := hg.turn ha hb hth
    obtain ⟨_, -, hfits⟩ := ha.fits.threads hth
    have hplain : a.loop.IsPlain w := by
      cases hfits with
      | waits _ hawaits =>
        cases hawaits with
        | timing _ h => exact h.1
    rcases ht.of_waits with hth' | ⟨o, hth'⟩
    · refine .waits hth' fun hmem => ?_
      cases hset : a.loop.isSettled w with
      | true => exact (hg.keeps ha).isSettled hplain hset
      | false =>
        -- it is cancelled just now
        have hnot : u ∉ a.cancelled := fun hold => by cases (hc hold).symm.trans hset
        cases hp with
        | tick => exact absurd hmem hnot
        | @stimulus s hq hs =>
          cases s with
          | cancel t =>
            obtain rfl : u = t := by
              rcases List.mem_append.mp hmem with hold | hnew
              · exact absurd hold hnot
              · exact List.mem_singleton.mp hnew
            rw [show (a.after (.cancel u)).loop = _ from
              ha.fits.tidy.sound.cancelTask_of_waits (isQuiet_iff.mp hq).1 hth hplain hset]
            exact isSettled_settle_self hplain.lt_size
          | _ => exact absurd hmem hnot
    · exact .wakes hth'
  | @wakes w o stack hth =>
    have ht := hg.turn ha hb hth
    obtain ⟨-, hth'⟩ := ht.resumed (Prod.eta _).symm
    simp only [Loop.resume, Loop.timeResumed] at hth'
    split at hth'
    · next hended =>
      obtain ⟨o, ho⟩ := Option.isSome_iff_exists.mp hended
      exact .dismissed (.of_ended hb (hg.ended ha hb ho))
    · cases o <;> exact .cancels hth'
  | cancels hth =>
    obtain ⟨hr, -⟩ := (hg.turn ha hb hth).of_begins
    exact .dismissed (hg.dismissed_of_cancel ha hb hr hv (.exchange opening asking) hknown)
  | dismissed h => exact .dismissed (h.step ha hb hg hv (.exchange opening asking) hknown)

end goes

section runs

variable {a : Moment} {past : List Moment} {u v t : TaskId} {file : Json} {limit : Seconds} {opening asking : Request}
  {stack : List Frame}

/-- **In a run that callers leave to go on by itself**, a request that limits the time of its exchange minds it. -/
theorem IsPaced.minding (h : IsPaced (a :: past)) (hroot : a.loop.routine? u = some (.request file (some limit))) :
    Minding.Next u file limit a := by
  induction past generalizing a with
  | nil =>
    cases h with
    | new hm => cases hm.isEmpty.routine?.symm.trans hroot
  | cons b past ih =>
    obtain ⟨hpast, role, role', hholds, hholds', hp⟩ := h.lastStep
    cases hbefore : b.loop.routine? u with
    | none => exact Minding.born hpast.isRun hholds hholds' hp hbefore hroot
    | some r =>
      cases ((hp.goes.keeps hholds).routine hbefore).symm.trans hroot
      rcases ih hpast hbefore with ⟨th, hth, h⟩ | ⟨o, ho⟩
      · exact h.step hpast.isRun hholds hholds' hp hth hbefore
      · exact .inr ⟨o, hp.goes.ended hholds hholds' ho⟩

/-- **Nobody who waits to leave is cancelled by whoever limits his time.** -/
theorem IsPaced.not_exposed_of_cancel (h : IsPaced (a :: past)) (hr : a.loop.running = some (.begin t (.cancelAndWait v) stack))
    (hv : a.loop.routine? v = some (.exchange opening asking)) : ¬ a.Exposed v := by
  obtain ⟨role, hholds⟩ := h.isRun.holds
  have hth := thread?_of_running hr
  obtain ⟨root, hroot, hfits⟩ := hholds.fits.threads hth
  obtain ⟨file, limit, rfl⟩ : ∃ file limit, root = .request file (some limit) := by
    cases hfits with
    | begins _ hstands hstack =>
      cases hstands
      rcases hstack.root_of_cancel (hholds.fits.roots hroot) hv with h | ⟨name, context, limit, rfl⟩
      · exact h
      · cases (h.isRun.not_checks hroot).1
  rcases h.minding hroot with ⟨th, hth', hminding⟩ | ⟨o, ho⟩
  · cases hth.symm.trans hth'
    cases hminding with
    | cancels hF h => exact h
  · cases (hholds.fits.tidy.sound.taskOutcome?_of_thread? hth).symm.trans ho

theorem Moment.exists_of_entrusts (h : a.entrusts u = some v) : ∃ limit opening asking stack,
    a.loop.running = some (.begin u (.within limit (.exchange opening asking)) stack) ∧ v = a.loop.tasks.size ∧
      (limit.isOver = true ∨ limit.toBinary?.isSome = true) := by
  unfold Moment.entrusts at h
  split at h
  · next t limit opening asking stack hr =>
    split at h
    · next hor =>
      obtain ⟨rfl, hlimit⟩ := hor
      exact ⟨limit, opening, asking, stack, hr, (Option.some.inj h).symm, hlimit⟩
    · cases h
  · cases h

/-- **In such a run a request is mindful of the exchange that it has made another task for.** -/
theorem IsPaced.heeds (h : IsPaced (a :: past)) (hroot : a.loop.routine? u = some (.request file (some limit)))
    (hv : v ∈ entrusted u past) : u ≠ v ∧ (∃ opening asking, a.loop.routine? v = some (.exchange opening asking)) ∧ Heeds u v a := by
  induction past generalizing a with
  | nil => cases hv
  | cons b past ih =>
    obtain ⟨hpast, role, role', hholds, hholds', hp⟩ := h.lastStep
    have hne : ∀ {opening asking}, a.loop.routine? v = some (.exchange opening asking) → u ≠ v := by
      rintro _ _ hv rfl
      cases hroot.symm.trans hv
    have hcases : b.entrusts u = some v ∨ v ∈ entrusted u past := by
      unfold entrusted at hv
      rw [List.filterMap_cons] at hv
      split at hv
      · exact .inr hv
      · next heq => exact (List.mem_cons.mp hv).imp_left fun h => heq.trans (congrArg some h.symm)
    rcases hcases with hnow | hold
    · obtain ⟨limit', opening, asking, stack, hr, rfl, hlimit⟩ := Moment.exists_of_entrusts hnow
      obtain ⟨r, hbefore, -⟩ := hholds.fits.threads (thread?_of_running hr)
      cases ((hp.goes.keeps hholds).routine hbefore).symm.trans hroot
      rcases hpast.minding hbefore with ⟨th, hth, hminding⟩ | ⟨o, ho⟩
      · cases (thread?_of_running hr).symm.trans hth
        cases hminding with
        | limits hc hready hun =>
          obtain ⟨hmade, hheeds⟩ := (Minding.step_limits hholds hholds' hp hth hc hready hun).2 hlimit
          exact ⟨hne hmade, ⟨_, _, hmade⟩, hheeds⟩
      · cases (hholds.fits.tidy.sound.taskOutcome?_of_thread? (thread?_of_running hr)).symm.trans ho
    · obtain ⟨r, hbefore⟩ : ∃ r, b.loop.routine? u = some r := by
        cases hbefore : b.loop.routine? u with
        | some r => exact ⟨r, rfl⟩
        | none =>
          -- nobody entrusts another task before he is there
          obtain ⟨c, hc, hentrusts⟩ := List.mem_filterMap.mp hold
          obtain ⟨_, _, _, _, hr, -⟩ := Moment.exists_of_entrusts hentrusts
          cases (hpast.isRun.unborn hbefore c (List.mem_cons_of_mem _ hc)).symm.trans (thread?_of_running hr)
      cases ((hp.goes.keeps hholds).routine hbefore).symm.trans hroot
      obtain ⟨hne, ⟨opening, asking, hmade⟩, hheeds⟩ := ih hpast hbefore hold
      exact ⟨hne, ⟨_, _, (hp.goes.keeps hholds).routine hmade⟩, hheeds.step hpast.isRun hholds hholds' hp hmade⟩

end runs

end DiagnosticsClient
