import DiagnosticsClient.Proofs.Session.Deadlines
import DiagnosticsClient.Proofs.Session.Partings
/-
Who is cancelled when his time is up is not about to leave.

A request with a limit cancels its exchange when a timer has settled what it waits for, or
when it is cancelled itself. If callers wait until nothing can go on, then such a timer comes
before anything else that is ready, but for other timers, or the exchange has just been made
and finds nobody else at the lock; either way the exchange is not in the queue with a listener
that is registered, and has no turn before it is cancelled (`Poised`). So nobody who waits to
leave is cancelled (`IsPaced.not_exposed_of_cancel`).
-/
namespace DiagnosticsClient

open Async Async.Machine

namespace Async.Machine

variable {σ ρ φ ν ε : Type} {m : Machine σ ρ φ ν ε} {t : TaskId} {w : FutureId} {T : FutureId → Prop}

/-- New entries come last when something is settled. -/
theorem ready_settle_grows (m : Machine σ ρ φ ν ε) (f : FutureId) (o : Outcome ν ε) :
    ∃ more, (m.settle f o).ready = m.ready ++ more := by
  cases hset : m.isSettled f with
  | true => exact ⟨[], by rw [settle_of_isSettled hset, List.append_nil]⟩
  | false => exact ⟨_, ready_settle hset⟩

/-- And so they do in the turn of an entry. -/
theorem ready_handle_grows [Inhabited ν] (m : Machine σ ρ φ ν ε) (h : Handle ν ε) :
    ∃ more, (m.handle h).ready = m.ready ++ more := by
  have hsame : ∀ {m' : Machine σ ρ φ ν ε}, m'.ready = m.ready → ∃ more, m'.ready = m.ready ++ more :=
    fun heq => ⟨[], heq.trans (List.append_nil _).symm⟩
  cases h with
  | start t =>
    refine hsame ?_
    change (m.startTask t).ready = m.ready
    unfold startTask
    split
    · rfl
    · split
      · rfl
      · split <;> rfl
  | notify c f =>
    cases c with
    | wake t =>
      refine hsame ?_
      change (m.resumeTask t _).ready = m.ready
      unfold resumeTask
      split <;> rfl
    | release w => exact ready_settle_grows m w _
    | tally group =>
      change ∃ more, (m.tally group f).ready = _
      unfold tally
      dsimp only
      split
      · exact hsame rfl
      · split
        · split
          · exact ready_settle_grows _ _ _
          · exact hsame rfl
        · exact ready_settle_grows _ _ _
        · exact hsame rfl
  | expire w => exact ready_settle_grows m w _
  | deliver f o => exact ready_settle_grows m f o

/-- The turn of an entry that is nobody's sets nobody going. -/
theorem running_handle [Inhabited ν] {h : Handle ν ε} (hh : h.task? = none) : (m.handle h).running = m.running := by
  cases h with
  | start t => cases hh
  | notify c f =>
    cases c with
    | wake t => cases hh
    | release w => exact settle_running
    | tally group =>
      change (m.tally group f).running = _
      unfold tally
      dsimp only
      split
      · rfl
      · split
        · split
          · exact settle_running
          · rfl
        · exact settle_running
        · rfl
  | expire w => exact settle_running
  | deliver f o => exact settle_running

/-- Whoever waits for what is not settled has no turn yet. -/
theorem Sound.not_ready {stack : List φ} (hs : m.Sound T) (hth : m.thread? t = some ⟨.waits w, stack⟩) (hw : m.isSettled w = false)
    {k : Handle ν ε} (hk : k ∈ m.ready) : k.task? ≠ some t := fun ht => by
  cases k with
  | start u =>
    cases ht
    obtain ⟨r, hth'⟩ := hs.woken.start.mp hk
    cases hth.symm.trans hth'
  | notify c f =>
    cases c <;> cases ht
    obtain ⟨hset, stack', hth'⟩ := hs.woken.notify.mp hk
    cases hth.symm.trans hth'
    cases hw.symm.trans hset
  | expire f => cases ht
  | deliver f o => cases ht

/-- Once what somebody waits for is settled with a value, he is to have his turn. -/
theorem Sound.ready_of_settle {stack : List φ} (hs : m.Sound T) (hth : m.thread? t = some ⟨.waits w, stack⟩)
    (hw : m.isSettled w = false) (o : Outcome ν ε) : .notify (.wake t) w ∈ (m.settle w o).ready := by
  rw [ready_settle hw]
  exact List.mem_append_right _ (List.mem_map.mpr ⟨_, hs.woken.wake.mpr ⟨hw, stack, hth⟩, rfl⟩)

/-- Whoever waits for a future that is no task's has it cancelled when he is cancelled. -/
theorem Sound.cancelTask_of_waits {stack : List φ} (hs : m.Sound T) (hr : m.running = none)
    (hth : m.thread? t = some ⟨.waits w, stack⟩) (hplain : m.IsPlain w) (hw : m.isSettled w = false) :
    (m.cancelTask t).1 = m.settle w .cancelled := by
  obtain ⟨task, htask, -⟩ := exists_task_of_thread? hr hth
  rcases hs.cancelTask_cases (Array.getElem?_eq_some_iff.mp htask).1 (fun x hx => by cases hr.symm.trans hx)
    fun hth' => by cases hth.symm.trans hth'; exact hplain with ⟨-, hnone⟩ | ⟨w', stack', hth', -, heq⟩ | ⟨-, hset⟩
  · cases hth.symm.trans hnone
  · cases hth.symm.trans hth'
    exact heq
  · cases (hset w stack hth).symm.trans hw

end Async.Machine

/-- A task waits for something that is not settled, and that no timer is to settle. -/
def Loop.Lulls (m : Loop) (v : TaskId) : Prop :=
  ∃ g stack, m.thread? v = some ⟨.waits g, stack⟩ ∧ m.isSettled g = false ∧ g ∉ m.alarms

/-- A future is not settled, and nothing but a timer and the end of one task will do it. -/
structure Loop.Pends (v : TaskId) (w : FutureId) (m : Loop) : Prop where
  unsettled : m.isSettled w = false
  timed : ∃ f d, m.owner? f = some (some v) ∧ Timed w f d True m

/-- Where it stands with an exchange that another task waits for, for as long as a limit allows. -/
inductive Poised (u v : TaskId) (w : FutureId) (a : Moment) : Prop
  /-- There is nothing to be afraid of. -/
  | gone (h : a.Gone v)
  /-- Nothing is about to settle the future. -/
  | calm (h : a.loop.Pends v w) (hready : ∀ k ∈ a.loop.ready, k.target? ≠ some w)
  /-- The time is up, and nothing else has its turn before but other timers. -/
  | due (h : a.loop.Pends v w) (idle : a.loop.running = none) {pre post : List (Handle Value Failure)}
      (hready : a.loop.ready = pre ++ .expire w :: post) (hpre : ∀ k ∈ pre, ∃ w', k = .expire w') (hv : a.loop.Lulls v)
      (hexp : ¬ a.Exposed v)
  /-- The time is up as the exchange begins. -/
  | starts (h : a.loop.Pends v w) (idle : a.loop.running = none) {post : List (Handle Value Failure)}
      (hready : a.loop.ready = .start v :: .expire w :: post) (hun : a.loop.Uncontested v)
  | runs {x : Running Routine Frame Value Failure} (h : a.loop.Pends v w) (runs : a.loop.running = some x) (hx : x.task = v)
      {post : List (Handle Value Failure)} (hready : a.loop.ready = .expire w :: post) (hun : a.loop.Uncontested v)
  /-- The future is settled, and the exchange has no turn before whoever waits for it. -/
  | called (hset : a.loop.isSettled w = true) {pre post : List (Handle Value Failure)}
      (hready : a.loop.ready = pre ++ .notify (.wake u) w :: post) (hpre : ∀ k ∈ pre, k.task? ≠ some v)
      (hx : ∀ x, a.loop.running = some x → x.task ≠ v) (hexp : ¬ a.Exposed v)

/-- After a step a task still waits for its exchange, or goes on while that is not about to leave. -/
def Poised.Next (u v : TaskId) (w : FutureId) (stack : List Frame) (b : Moment) : Prop :=
  (b.loop.thread? u = some ⟨.waits w, stack⟩ ∧ Poised u v w b) ∨
    ∃ o, b.loop.thread? u = some ⟨.resumes o, stack⟩ ∧ ¬ b.Exposed v

section steps

variable {role role' : FutureId → Role} {a b : Moment} {past : List Moment} {u v : TaskId} {w g : FutureId}
  {stack : List Frame} {m m' : Loop} {x y : Running Routine Frame Value Failure} {th : Thread Routine Frame Value Failure}

namespace Loop

/-- Whoever waits for what is not settled waits on. -/
theorem Turn.waits_on (ht : Turn role m u ⟨.waits w, stack⟩ role' m') (hw : m.isSettled w = false) :
    m'.thread? u = some ⟨.waits w, stack⟩ := by
  cases ht with
  | rests _ _ hth => exact hth
  | awakes how =>
    cases how with
    | resumes _ ho => cases hw.symm.trans (isSettled_iff.mpr ⟨_, ho⟩)
    | interrupted _ hset => cases hw.symm.trans hset

/-- Whoever waits goes on waiting, or goes on. -/
theorem Turn.of_waits (ht : Turn role m u ⟨.waits w, stack⟩ role' m') :
    m'.thread? u = some ⟨.waits w, stack⟩ ∨ ∃ o, m'.thread? u = some ⟨.resumes o, stack⟩ := by
  cases ht with
  | rests _ _ hth => exact .inl hth
  | awakes how switch =>
    cases how with
    | resumes => exact .inr ⟨_, switch.self⟩
    | interrupted => exact .inr ⟨_, switch.self⟩

/-- No other task comes to run while one runs. -/
theorem Tick.runs_on (ht : Tick role m role' m') (hf : Fits role m) (hr : m.running = some x) (hy : m'.running = some y) :
    y.task = x.task := by
  have hth := thread?_of_running hy
  have hbusy : ∀ {th}, m.thread? y.task = some th → th.top.isIdle = false → y.task = x.task := fun hold hidle => by
    obtain ⟨z, hz, htask, -⟩ := running_of_thread? hold hidle
    cases hr.symm.trans hz
    exact htask.symm
  refine Decidable.byContradiction fun hne => hne ?_
  cases ht with
  | awakes idle => cases idle.symm.trans hr
  | passes idle => cases idle.symm.trans hr
  | ends runs switch =>
    cases runs.symm.trans hr
    exact hbusy ((switch.other hne).symm.trans hth) y.thread_isIdle
  | begins runs _ _ _ deed =>
    cases runs.symm.trans hr
    rcases deed.thread_other hf hne hth with hold | ⟨r, -, -, heq⟩
    · exact hbusy hold y.thread_isIdle
    · cases heq ▸ y.thread_isIdle
  | resumes runs _ _ _ _ deed =>
    cases runs.symm.trans hr
    rcases deed.thread_other hf hne hth with hold | ⟨r, -, -, heq⟩
    · exact hbusy hold y.thread_isIdle
    · cases heq ▸ y.thread_isIdle

/-- Whoever is set going alone takes another place at the lock. -/
theorem Tick.view_of_awakes (ht : Tick role m role' m') (hr : m.running = none) (hy : m'.running = some y) (hu : u ≠ y.task) :
    m'.view Thread.station u = m.view Thread.station u := by
  cases ht with
  | awakes _ _ how switch =>
    have hidle : ∀ {th th' : Thread Routine Frame Value Failure} {t : TaskId}, m.Awakes t th th' → th'.top.isIdle = false := by
      intro th th' t h
      cases h <;> rfl
    obtain ⟨z, hz, htask, -⟩ := running_of_thread? switch.self (hidle how)
    cases hy.symm.trans hz
    exact switch.view_other (htask ▸ hu)
  | passes _ he => cases (he.running.trans hr).symm.trans hy
  | ends runs => cases hr.symm.trans runs
  | begins runs => cases hr.symm.trans runs
  | resumes runs => cases hr.symm.trans runs

namespace Pends

/-- What leaves the future alone keeps this, and new entries that settle it come from the end of the task. -/
theorem avoids (h : m.Pends v w) (ha : Avoids w m m') (hk : m.Keeps m') (ho : m'.Owned) :
    m'.Pends v w ∧ ∃ more, m'.ready = m.ready ++ more ∧ ∀ k ∈ more, k.target? = some w → m'.hasEnded v = true := by
  obtain ⟨f, d, howner, htimed⟩ := h.timed
  obtain ⟨more, hready, hmore⟩ := ha.ready
  refine ⟨⟨?_, f, d, hk.owner howner, htimed.avoids ha id fun _ => trivial⟩, more, hready, fun k hk' hw => ?_⟩
  · rw [isSettled, ha.outcome, ← isSettled]
    exact h.unsettled
  · obtain ⟨g, -, hg, hset⟩ := hmore k hk' hw
    exact hasEnded_of_owner ho (hk.owner howner) (htimed.callbacks hg ▸ hset)

theorem setTime (h : m.Pends v w) (now : Binary64) : Pends v w (m.setTime now) := by
  obtain ⟨f, d, howner, htimed⟩ := h.timed
  exact ⟨h.unsettled, f, d, howner, htimed.setTime now id fun _ => trivial⟩

/-- The turn of an entry that does not settle the future leaves it alone. -/
theorem handle_avoids {h : Handle Value Failure} {rest : List (Handle Value Failure)} (hp : m.Pends v w) (hh : h.target? ≠ some w) :
    Avoids w ({ m with ready := rest } : Loop) (({ m with ready := rest } : Loop).handle h) := by
  obtain ⟨f, d, -, htimed⟩ := hp.timed
  exact Machine.handle_avoids hh fun _ hget => htimed.groups (List.mem_of_getElem? hget)

theorem drop (h : m.Pends v w) {k : Handle Value Failure} {rest : List (Handle Value Failure)} (hready : m.ready = k :: rest) :
    Pends v w { m with ready := rest } := by
  obtain ⟨f, d, howner, htimed⟩ := h.timed
  exact ⟨h.unsettled, f, d, howner, htimed.drop hready⟩

end Pends

end Loop

end steps

section poised

variable {role role' : FutureId → Role} {a b : Moment} {past : List Moment} {u v : TaskId} {w g : FutureId} {root : Routine}
  {stack : List Frame} {m m' : Loop} {opening asking : Request} {pre post : List (Handle Value Failure)}

/-! ## Where it stands -/

/-- The one who waits for a reserved future is the one to be woken. -/
theorem Loop.Fits.wakes_one (hf : Loop.Fits role m) (hw : role w = .reserved) (hth : m.thread? u = some ⟨.waits w, stack⟩)
    (hun : m.isSettled w = false) (t : TaskId) : .wake t ∈ m.callbacksOf w ↔ t = u := by
  rw [hf.tidy.sound.woken.wake]
  constructor
  · rintro ⟨-, stack', hth'⟩
    exact hf.apart (by rw [hw]; exact Role.noConfusion) hth' hth
  · rintro rfl
    exact ⟨hun, stack, hth⟩

/-- Steps that leave the future alone keep calm. -/
theorem Poised.of_avoids (h : m.Pends v w) (hready : ∀ k ∈ m.ready, k.target? ≠ some w) (ha : Avoids w m b.loop)
    (hk : m.Keeps b.loop) (hb : b.Holds role') : Poised u v w b := by
  obtain ⟨h', more, hmore, hend⟩ := h.avoids ha hk hb.fits.tidy.sound.owned
  by_cases hended : b.loop.hasEnded v = true
  · exact .gone (.inl hended)
  · refine .calm h' fun k hk hkw => ?_
    rcases List.mem_append.mp (hmore ▸ hk) with hk | hk
    · exact hready k hk hkw
    · exact hended (hend k hk hkw)

/-- Once the future is settled, whoever waits for it is to have his turn, and nobody else whom that wakes. -/
theorem Poised.of_settle {o : Ending} (hr : m.running = none) (hlt : w < m.futures.size) (hun : m.isSettled w = false)
    (hwake : ∀ t, .wake t ∈ m.callbacksOf w ↔ t = u) (hne : u ≠ v) (hready : ∀ k ∈ m.ready, k.task? ≠ some v)
    (hb : b.loop = m.settle w o) (hexp : ¬ b.Exposed v) : Poised u v w b := by
  have hnew := ready_settle (o := o) hun
  rw [← hb] at hnew
  have hmem : .notify (.wake u) w ∈ b.loop.ready :=
    hnew ▸ List.mem_append_right _ (List.mem_map.mpr ⟨_, (hwake u).mpr rfl, rfl⟩)
  obtain ⟨pre, post, heq⟩ := List.mem_iff_append.mp hmem
  refine .called (by rw [hb]; exact isSettled_settle_self hlt) heq (fun k hk ht => ?_) (fun x hx => ?_) hexp
  · rcases List.mem_append.mp (hnew ▸ heq ▸ List.mem_append_left _ hk : k ∈ m.ready ++ _) with hk | hk
    · exact hready k hk ht
    · obtain ⟨c, hc, rfl⟩ := List.mem_map.mp hk
      cases c <;> cases ht
      exact hne ((hwake _).mp hc).symm
  · rw [hb, settle_running] at hx
    cases hr.symm.trans hx

/-- When nothing can go on, an exchange has left, or it waits for something that no timer settles. -/
theorem IsRun.lulls_of_quiet (h : IsRun (a :: past)) (hq : a.loop.isQuiet = true)
    (hv : a.loop.routine? v = some (.exchange opening asking)) : a.Gone v ∨ a.loop.Lulls v := by
  obtain ⟨role, hholds⟩ := h.holds
  rcases h.thread_or_ended hv with ⟨th, hth⟩ | ⟨o, ho⟩
  · obtain ⟨g, stack, rfl, hun⟩ := hholds.fits.tidy.sound.waits_of_quiet hq hth
    exact (h.not_alarmed_of_exchange hv (.exchange opening asking) hth).imp_right fun ⟨_, hg⟩ => ⟨g, stack, hth, hun, hg⟩
  · exact .inl (.inl (Option.isSome_iff_exists.mpr ⟨o, ho⟩))

/-- What the loop does by itself is a step of it. -/
theorem Paces.tick_of (h : Paces role a role' b) (hq : a.loop.isQuiet = false) : Loop.Tick role a.loop role' b.loop := by
  cases h with
  | tick _ ht => exact ht
  | stimulus hquiet => cases hq.symm.trans hquiet

/-- A task that is first to go on begins, or has been cancelled before. -/
theorem Paces.claims (h : Paces role a role' b) (ha : a.Holds role) (hr : a.loop.running = none)
    (hready : a.loop.ready = .start v :: post) : ∃ r x, a.loop.thread? v = some ⟨.fresh r, []⟩ ∧
      (x = .begin v r [] ∨ x = .resume v .cancelled []) ∧ Claims (.start v) v x a.loop b.loop := by
  have hq : a.loop.isQuiet = false := by simp [isQuiet, hready]
  have htick : b.loop = ({ a.loop with ready := post } : Loop).handle (.start v) := by
    rw [h.ticks hq]
    simp only [Machine.tick, hr, hready]
  rw [htick]
  obtain ⟨r, hth, ⟨-, hclaims⟩ | ⟨-, hclaims⟩⟩ := startTask_claims ha.fits.tidy.sound hr hready
  · exact ⟨r, _, hth, .inl rfl, hclaims⟩
  · exact ⟨r, _, hth, .inr rfl, hclaims⟩

/-! ## One step -/

variable (hrun : IsRun (a :: past)) (ha : a.Holds role) (hb : b.Holds role') (hp : Paces role a role' b)
  (hw : role w = .reserved) (hth : a.loop.thread? u = some ⟨.waits w, stack⟩) (hne : u ≠ v)
  (hv : a.loop.routine? v = some (.exchange opening asking))

include hrun ha hb hp hv in
/-- Time passes. -/
theorem Poised.of_time {now : Binary64} (h : a.loop.Pends v w) (hq : a.loop.isQuiet = true) (hloop : b.loop = a.loop.setTime now) :
    Poised u v w b := by
  have hidle := (isQuiet_iff.mp hq).1
  have h' : b.loop.Pends v w := hloop ▸ h.setTime now
  have hexpires : ∀ k ∈ b.loop.ready, ∃ w', k = .expire w' := fun k hk => by
    rcases mem_ready_setTime (hloop ▸ hk) with hold | hexpire
    · rw [(isQuiet_iff.mp hq).2] at hold
      cases hold
    · exact hexpire
  by_cases hmem : .expire w ∈ b.loop.ready
  · rcases hrun.lulls_of_quiet hq hv with hgone | ⟨g, stack, hthv, hun, hg⟩
    · exact .gone (hgone.step ha hb hp.goes)
    · obtain ⟨pre, post, heq⟩ := List.mem_iff_append.mp hmem
      have hexp := hp.goes.not_exposed_of_idle ha hb hv rfl (fun x hx => by cases hidle.symm.trans hx)
        (hrun.not_exposed_of_quiet hq hv rfl)
      refine .due h' ?_ heq (fun k hk => hexpires k (heq ▸ List.mem_append_left _ hk)) ⟨g, stack, ?_, ?_, fun hmem => ?_⟩ hexp
      · rw [hloop]
        exact hidle
      · rw [hloop]
        exact hthv
      · rw [hloop]
        exact hun
      · exact hg (mem_alarms_setTime (hloop ▸ hmem))
  · refine .calm h' fun k hk hkw => ?_
    obtain ⟨w', rfl⟩ := hexpires k hk
    cases hkw
    exact hmem hk

include hrun ha hb hp hw hth hne hv in
/-- Nothing is about to settle the future. -/
theorem Poised.step_calm (hnc : ¬ a.loop.Cancellable u) (h : a.loop.Pends v w) (hready : ∀ k ∈ a.loop.ready, k.target? ≠ some w) :
    Poised u v w b := by
  have hg := hp.goes
  have hkeeps := hg.keeps ha
  have hplain : a.loop.IsPlain w := ha.fits.tidy.special (by rw [hw]; exact Role.noConfusion)
  cases id hp with
  | tick hq ht =>
    cases hr : a.loop.running with
    | some x => exact .of_avoids h hready (ht.stride.avoids ha.fits hr hw hth hnc) hkeeps hb
    | none =>
      obtain ⟨k, rest, hk, htick⟩ := Loop.tick_of_idle hr hq
      refine .of_avoids (h.drop hk) (fun k' hk' => hready k' (hk ▸ List.mem_cons_of_mem _ hk')) ?_
        ⟨hkeeps.routine, hkeeps.owner, hkeeps.outcome⟩ hb
      exact htick ▸ h.handle_avoids (hready k (hk ▸ List.mem_cons_self))
  | @stimulus s hq hs =>
    obtain ⟨hr, hnil⟩ := isQuiet_iff.mp hq
    by_cases htime : ∃ time, s = .advance time
    · obtain ⟨time, rfl⟩ := htime
      exact .of_time hrun ha hb hp hv h hq rfl
    by_cases hcancel : s = .cancel u
    · subst hcancel
      refine .of_settle hr hplain.lt_size h.unsettled (ha.fits.wakes_one hw hth h.unsettled) hne (fun k hk => ?_)
        (ha.fits.tidy.sound.cancelTask_of_waits hr hth hplain h.unsettled) ?_
      · rw [hnil] at hk
        cases hk
      · exact hg.not_exposed_of_idle ha hb hv rfl (fun x hx => by cases hr.symm.trans hx) (hrun.not_exposed_of_quiet hq hv rfl)
    · have hworks := Loop.apply_works ha.fits hr hs fun time h => htime ⟨time, h⟩
      refine .of_avoids h hready (Loop.avoids_of_effect hworks.effect id Loop.ne_reserved_of_wake hw
        (ha.fits.waitsFor_ne hw hth ?_)) hkeeps hb
      rintro (rfl | hcan)
      · exact hcancel rfl
      · exact hnc hcan

include ha hb hp hw hth hne hv in
/-- The time is up. -/
theorem Poised.step_due (h : a.loop.Pends v w) (hr : a.loop.running = none) (hready : a.loop.ready = pre ++ .expire w :: post)
    (hpre : ∀ k ∈ pre, ∃ w', k = .expire w') (hlulls : a.loop.Lulls v) (hexp : ¬ a.Exposed v) : Poised u v w b := by
  have hq : a.loop.isQuiet = false := by simp [isQuiet, hready]
  have hg := hp.goes
  have hexp' : ¬ b.Exposed v := hg.not_exposed_of_idle ha hb hv rfl (fun x hx => by cases hr.symm.trans hx) hexp
  have hplain : a.loop.IsPlain w := ha.fits.tidy.special (by rw [hw]; exact Role.noConfusion)
  obtain ⟨g, stack', hthv, hun, hgalarm⟩ := hlulls
  obtain ⟨k, rest, hk, htick⟩ := Loop.tick_of_idle hr hq
  rw [← hp.ticks hq] at htick
  have hturn : k = .expire w → Poised u v w b := by
    rintro rfl
    refine .of_settle (m := { a.loop with ready := rest }) hr hplain.lt_size h.unsettled (ha.fits.wakes_one hw hth h.unsettled) hne
      (fun k' hk' => ?_) htick hexp'
    exact ha.fits.tidy.sound.not_ready hthv hun (hk ▸ List.mem_cons_of_mem _ hk')
  cases pre with
  | nil =>
    rw [hready] at hk
    cases hk
    exact hturn rfl
  | cons k' pre =>
    obtain ⟨w', rfl⟩ := hpre k' List.mem_cons_self
    obtain ⟨rfl, hrest⟩ := List.cons.inj (hready.symm.trans hk)
    by_cases hww : w' = w
    · exact hturn (congrArg _ hww)
    have hkeeps := hg.keeps ha
    have havoids : Avoids w ({ a.loop with ready := rest } : Loop) b.loop :=
      htick ▸ h.handle_avoids fun heq => hww (Option.some.inj heq)
    obtain ⟨h', more, hmore, -⟩ := (h.drop hk).avoids havoids ⟨hkeeps.routine, hkeeps.owner, hkeeps.outcome⟩
      hb.fits.tidy.sound.owned
    have hready' : b.loop.ready = pre ++ .expire w :: (post ++ more) := by
      rw [hmore, ← hrest]
      simp
    refine .due h' ?_ hready' (fun k hk => hpre k (List.mem_cons_of_mem _ hk))
      ⟨g, stack', (hg.turn ha hb hthv).waits_on hun, ?_, fun hmem => ?_⟩ hexp'
    · rw [htick]
      exact (running_handle rfl).trans hr
    · -- the timers that come first are for others
      have hne' : w' ≠ g := fun heq => hgalarm (mem_alarms.mpr (.inr (hready ▸ heq ▸ List.mem_cons_self)))
      rw [htick, isSettled_eq_false]
      exact (settle_avoids hne' _).outcome.trans (isSettled_eq_false.mp hun)
    · rcases hg.alarms hmem with hold | ⟨-, _, _, _, _, hrunning⟩
      · exact hgalarm hold
      · cases hr.symm.trans hrunning

include ha hb hp in
/-- The exchange begins. -/
theorem Poised.step_starts (h : a.loop.Pends v w) (hr : a.loop.running = none) (hready : a.loop.ready = .start v :: .expire w :: post)
    (hun : a.loop.Uncontested v) : Poised u v w b := by
  have hq : a.loop.isQuiet = false := by simp [isQuiet, hready]
  have hkeeps := hp.goes.keeps ha
  have htick : b.loop = ({ a.loop with ready := .expire w :: post } : Loop).handle (.start v) := by
    rw [hp.ticks hq]
    simp only [Machine.tick, hr, hready]
  obtain ⟨r, x, -, -, hclaims⟩ := hp.claims ha hr hready
  have havoids : Avoids w ({ a.loop with ready := .expire w :: post } : Loop) b.loop :=
    htick ▸ h.handle_avoids fun h => by cases h
  obtain ⟨h', -⟩ := (h.drop hready).avoids havoids ⟨hkeeps.routine, hkeeps.owner, hkeeps.outcome⟩ hb.fits.tidy.sound.owned
  refine .runs h' hclaims.runs hclaims.task (List.cons.inj (hready.symm.trans hclaims.ready)).2.symm (hun.mono fun t htv => ?_)
  exact (hp.tick_of hq).view_of_awakes hr hclaims.runs (by rw [hclaims.task]; exact htv)

include hrun ha hb hp hw hth hv in
/-- The exchange goes on for the first time. -/
theorem Poised.step_runs {x : Running Routine Frame Value Failure} (hnc : ¬ a.loop.Cancellable u) (h : a.loop.Pends v w)
    (hr : a.loop.running = some x) (hx : x.task = v) (hready : a.loop.ready = .expire w :: post) (hun : a.loop.Uncontested v) :
    Poised u v w b := by
  have hq := isQuiet_of_running hr
  have hg := hp.goes
  have ht := hp.tick_of hq
  have havoids : Avoids w a.loop b.loop := by
    cases hp with
    | tick _ ht => exact ht.stride.avoids ha.fits hr hw hth hnc
    | stimulus hquiet => cases hq.symm.trans hquiet
  obtain ⟨h', more, hmore, -⟩ := h.avoids havoids (hg.keeps ha) hb.fits.tidy.sound.owned
  have hready' : b.loop.ready = .expire w :: (post ++ more) := by rw [hmore, hready, List.cons_append]
  cases hr' : b.loop.running with
  | some y =>
    exact .runs h' hr' ((ht.runs_on ha.fits hr hr').trans hx) hready'
      (hun.mono fun t htv => ht.view_other ha.fits hr (by rw [hx]; exact htv))
  | none =>
    have hthv : a.loop.thread? v = some x.thread := hx ▸ thread?_of_running hr
    have hturn := hg.turn ha hb hthv
    rcases hturn.onward with ⟨⟨top, stack'⟩, hthv'⟩ | ⟨o, ho⟩
    · have hidle := Loop.isIdle_of_ne hthv' fun y hy => by cases hr'.symm.trans hy
      cases top with
      | fresh r => exact absurd hthv' (hturn.course.not_fresh hb.fits x.thread_isIdle)
      | begins r => cases hidle
      | resumes o => cases hidle
      | waits g =>
        have hrun' : IsRun (b :: a :: past) := .step hrun hg.step
        rcases hrun'.not_alarmed_of_exchange ((hg.keeps ha).routine hv) (.exchange opening asking) hthv' with hgone | ⟨hplain, hgalarm⟩
        · exact .gone hgone
        · have hung := hturn.course.unsettled hb.fits x.thread_isIdle hthv' hplain
          have hdue : b.loop.ready = [] ++ .expire w :: (post ++ more) := hready'
          exact .due h' hr' hdue (fun k hk => by cases hk) ⟨g, stack', hthv', hung, hgalarm⟩
            (hrun.not_exposed_of_uncontested ha hb hg hr hx hv rfl hun)
    · exact .gone (.inl (Option.isSome_iff_exists.mpr ⟨o, ho⟩))

include ha hb hp hw hth hv in
/-- The future is settled. -/
theorem Poised.step_called (hnc : ¬ a.loop.Cancellable u) (hset : a.loop.isSettled w = true)
    (hready : a.loop.ready = pre ++ .notify (.wake u) w :: post) (hpre : ∀ k ∈ pre, k.task? ≠ some v)
    (hx : ∀ x, a.loop.running = some x → x.task ≠ v) (hexp : ¬ a.Exposed v) : Poised.Next u v w stack b := by
  have hq : a.loop.isQuiet = false := by simp [isQuiet, hready]
  have hg := hp.goes
  have ht := hp.tick_of hq
  have hplain : a.loop.IsPlain w := ha.fits.tidy.special (by rw [hw]; exact Role.noConfusion)
  have hexp' : ¬ b.Exposed v := hg.not_exposed_of_idle ha hb hv rfl hx hexp
  have hset' : b.loop.isSettled w = true := by
    obtain ⟨o, ho⟩ := isSettled_iff.mp hset
    exact isSettled_iff.mpr ⟨o, (hg.keeps ha).outcome hplain ho⟩
  have hnext : Poised u v w b → Poised.Next u v w stack b := fun h => by
    rcases (hg.turn ha hb hth).of_waits with hth' | ⟨o, ho⟩
    · exact .inl ⟨hth', h⟩
    · exact .inr ⟨o, ho, hexp'⟩
  cases hr : a.loop.running with
  | some x =>
    have havoids : Avoids w a.loop b.loop := by
      cases hp with
      | tick _ ht => exact ht.stride.avoids ha.fits hr hw hth hnc
      | stimulus hquiet => cases hq.symm.trans hquiet
    obtain ⟨more, hmore, -⟩ := havoids.ready
    have hready' : b.loop.ready = pre ++ .notify (.wake u) w :: (post ++ more) := by
      rw [hmore, hready]
      simp
    refine hnext (.called hset' hready' hpre (fun y hy => ?_) hexp')
    rw [ht.runs_on ha.fits hr hy]
    exact hx x hr
  | none =>
    obtain ⟨k, rest, hk, htick⟩ := Loop.tick_of_idle hr hq
    rw [← hp.ticks hq] at htick
    cases pre with
    | nil =>
      rw [hready] at hk
      cases hk
      obtain ⟨stack', o, hth', -, hclaims⟩ := resumeTask_claims ha.fits.tidy.sound hr hready (.value default)
      cases hth.symm.trans hth'
      refine .inr ⟨o, ?_, hexp'⟩
      rw [htick]
      exact hclaims.thread_self
    | cons k' pre =>
      obtain ⟨rfl, hrest⟩ := List.cons.inj (hready.symm.trans hk)
      obtain ⟨more, hmore⟩ := ready_handle_grows ({ a.loop with ready := rest } : Loop) k'
      have hready' : b.loop.ready = pre ++ .notify (.wake u) w :: (post ++ more) := by
        rw [htick, hmore, ← hrest]
        simp
      refine hnext (.called hset' hready' (fun k hk => hpre k (List.mem_cons_of_mem _ hk)) (fun y hy => ?_) hexp')
      rw [htick] at hy
      cases hkt : k'.task? with
      | none =>
        rw [running_handle hkt] at hy
        cases hr.symm.trans hy
      | some t =>
        obtain ⟨z, hz, rfl⟩ := ha.fits.runs_of_task hr hk hkt
        cases hy.symm.trans hz
        exact fun heq => hpre k' List.mem_cons_self (hkt.trans (congrArg some heq))

include hrun ha hb hp hw hth hv in
/-- **An exchange that another task waits for is not about to leave when that one goes on.** -/
theorem Poised.step (h : Poised u v w a) (hroot : a.loop.routine? u = some root) (hinner : root.isInner = false) :
    Poised.Next u v w stack b := by
  have hg := hp.goes
  have hnc := Loop.not_cancellable hroot hinner
  have hne : u ≠ v := by
    rintro rfl
    cases hroot.symm.trans hv
    cases hinner
  have hstays : a.loop.isSettled w = false → Poised u v w b → Poised.Next u v w stack b := fun hun h' =>
    .inl ⟨(hg.turn ha hb hth).waits_on hun, h'⟩
  cases h with
  | gone h =>
    have hgone := h.step ha hb hg
    exact (hg.turn ha hb hth).of_waits.imp (⟨·, .gone hgone⟩) fun ⟨o, ho⟩ => ⟨o, ho, hgone.not_exposed hb⟩
  | calm h hready => exact hstays h.unsettled (.step_calm hrun ha hb hp hw hth hne hv hnc h hready)
  | due h hr hready hpre hlulls hexp => exact hstays h.unsettled (.step_due ha hb hp hw hth hne hv h hr hready hpre hlulls hexp)
  | starts h hr hready hun => exact hstays h.unsettled (.step_starts ha hb hp h hr hready hun)
  | runs h hr hx hready hun => exact hstays h.unsettled (.step_runs hrun ha hb hp hw hth hv hnc h hr hx hready hun)
  | called hset hready hpre hx hexp => exact Poised.step_called ha hb hp hw hth hv hnc hset hready hpre hx hexp

end poised

end DiagnosticsClient
