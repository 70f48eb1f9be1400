import DiagnosticsClient.Proofs.Session.Careers
import DiagnosticsClient.Proofs.Session.Invariants
import DiagnosticsClient.Proofs.Session.Tenures
import DiagnosticsClient.Proofs.Session.Timeouts
/-
Every request lets go of what it has taken.

A request is carried out by a task of its own, or by one that it has made because its time is
limited (`performers`). Whoever of them makes a listener has it registered no more once he has
ended; and when nothing can go on, the listener of a request that has ended is not registered,
however the request has ended and whatever becomes of the other task. If it was registered
with a transport, either others are still, or that transport has been stopped. And nothing is
written for a request but in the step in which its listener is open, if nobody has cancelled
it and its time is not up (`requests_released`).
-/
namespace DiagnosticsClient

open Async Async.Machine

/-- The tasks that carry out a request: its own, and those that it has made for its exchange. -/
def performers (u : TaskId) (moments : List Moment) : List TaskId := u :: entrusted u moments

/-- A request stands: nobody has cancelled it, and if another task carries it out, it still waits for that, and neither the
end of the task nor a timer has settled what it waits for. -/
def Moment.Stands (u v : TaskId) (a : Moment) : Prop :=
  u ∉ a.cancelled ∧
    (v = u ∨ ∃ w stack, a.loop.thread? u = some ⟨.waits w, .timing v w :: stack⟩ ∧ a.loop.isSettled w = false)

section roots

variable {roots : TaskId → Option Routine} {root called : Routine} {stack : List Frame} {opening asking : Request} {limit : Seconds}

/-- Nobody goes on after an exchange but whoever was made for it, or checks a file. -/
theorem Stacked.root_of_exchanges (h : Stacked roots root called stack) (hc : called.Exchanges opening asking) :
    (∃ o q, root.Exchanges o q) ∨ ∃ name context limit, root = .checkFile name context limit := by
  cases hc with
  | exchange =>
    cases h with
    | nil => exact .inl ⟨_, _, .exchange opening asking⟩
    | cons hcalls => cases hcalls
  | request file n =>
    rcases h.root_of_request with rfl | hchecks
    · exact .inl ⟨_, _, .request file n⟩
    · exact .inr hchecks

/-- Nobody limits the time of an exchange but who was asked for it, or to ask for diagnostics in a limited time. -/
theorem Stacked.root_of_within (h : Stacked roots root (.within limit (.exchange opening asking)) stack) :
    root = .within limit (.exchange opening asking) ∨ (∃ file, root = .request file (some limit)) ∨
      ∃ name context limit', root = .checkFile name context limit' := by
  cases h with
  | nil => exact .inl rfl
  | cons hc hs _ h =>
    cases hc
    cases hs
    exact .inr (h.root_of_request.imp_left fun h => ⟨_, h⟩)

end roots

section steps

variable {role role' : FutureId → Role} {a b : Moment} {past : List Moment} {u v : TaskId} {l : ListenerId} {root : Routine}
  {stack : List Frame} {opening asking : Request} {m m' : Loop} {t : TransportId} {file : Json} {limit : Option Seconds}

namespace Loop

theorem within_writings (limit : Seconds) (inner : Routine) (m : Loop) :
    (within limit inner m).1.state.writings = m.state.writings := by
  unfold within
  split
  · rfl
  · split
    · rfl
    · dsimp only
      rw [addCallback_state]
      unfold addTimer
      split <;> rfl

/-- **A step writes something only as somebody sends his requests whose listener is open.** -/
theorem Tick.introducing_of_writings (ht : Tick role m role' m') (hw : m'.state.writings ≠ m.state.writings) :
    ∃ v x l opening asking stack, m.running = some (.resume v (.value x) (.introducing l opening asking :: stack)) := by
  cases ht with
  | awakes _ _ _ switch => exact absurd (congrArg State.writings switch.state) hw
  | passes _ _ hstate => exact absurd (congrArg State.writings hstate) hw
  | ends _ switch => exact absurd (congrArg State.writings switch.state) hw
  | @begins _ u r called root stack _ _ _ _ deed =>
    refine absurd ((congrArg State.writings deed.state).trans ?_) hw
    by_cases hwithin : ∃ limit inner, r = .within limit inner
    · obtain ⟨limit, inner, rfl⟩ := hwithin
      exact within_writings limit inner m
    · exact writings_of_doings (begin_doings m fun limit inner h => hwithin ⟨limit, inner, h⟩)
  | @resumes u o F called root stack runs serves gets woke how deed =>
    by_cases hintro : ∃ l opening asking, F = .introducing l opening asking
    · obtain ⟨l, opening, asking, rfl⟩ := hintro
      cases o with
      | value x => exact ⟨u, x, l, opening, asking, stack, runs⟩
      | _ => exact absurd (congrArg State.writings deed.state) hw
    · exact absurd ((congrArg State.writings deed.state).trans
        (writings_of_doings (resume_doings m (fun l opening asking h => hintro ⟨l, opening, asking, h⟩) o))) hw

end Loop

/-- While a transport is current, and nobody runs, somebody listens. -/
theorem Moment.Holds.registered_of_current (ha : a.Holds role) (hr : a.loop.running = none) (hc : a.loop.state.current = some t) :
    a.loop.state.registered ≠ [] := by
  cases hheld : a.loop.state.lock.held with
  | false => exact (ha.coherent.balanced hheld).mp (by rw [hc]; rfl)
  | true =>
    obtain ⟨u, th, hth, ⟨l, c, hF⟩ | hF⟩ := ha.holder hr hheld
    · cases (ha.coherent.suits ((Loop.view_station hth).trans (ha.station_of_mem hth hF rfl))).1.symm.trans hc
    · cases (ha.coherent.suits ((Loop.view_station hth).trans (ha.station_of_mem hth hF rfl))).1.symm.trans hc

/-- When nothing can go on, a transport that a listener was registered with is current and has others, or has been stopped. -/
theorem IsRun.stopped_of_registeredOn (h : IsRun (a :: past)) (hq : a.loop.isQuiet = true) (hreg : RegisteredOn l t (a :: past)) :
    a.loop.state.current = some t ∧ a.loop.state.registered ≠ [] ∨ (a :: past).countP (·.stops t) = 1 := by
  obtain ⟨role, hholds⟩ := h.holds
  obtain ⟨x, hx, hpast⟩ := h.career t
  obtain ⟨c, hc, -, hcurrent⟩ := hreg
  have hwas : x.wasCurrent = true := hpast.current.mp ⟨c, hc, decide_eq_true hcurrent⟩
  by_cases hnow : x = .current
  · have hcurrent' := hx.current.mpr hnow
    exact .inl ⟨hcurrent', hholds.registered_of_current (isQuiet_iff.mp hq).1 hcurrent'⟩
  · have hstarted : x.wasStarted = true := by
      cases x with
      | tied k => cases k <;> first | rfl | cases hwas
      | _ => first | rfl | cases hwas
    have hgone := hx.gone hholds.fits hq hstarted hnow
    exact .inr (by rw [hpast.stops, hgone]; rfl)

/-- Nobody sends requests over a listener of his own but who carries out an exchange. -/
theorem IsRun.exchanges_of_introducing {o : Ending} (h : IsRun (a :: past)) (hth : a.loop.thread? v =
      some ⟨.resumes o, .introducing l opening asking :: stack⟩) :
    ∃ root o q, a.loop.routine? v = some root ∧ root.Exchanges o q := by
  obtain ⟨role, hholds⟩ := h.holds
  obtain ⟨root, hroot, hfits⟩ := hholds.fits.threads hth
  cases hfits with
  | resumes hs _ _ hstack =>
    cases hs with
    | introducing hx =>
      rcases hstack.root_of_exchanges hx with ⟨o, q, hx'⟩ | ⟨name, context, limit, rfl⟩
      · exact ⟨root, o, q, hroot, hx'⟩
      · cases (h.not_checks hroot).1

/-- And nobody else makes a listener for an exchange. -/
theorem IsRun.exchanges_of_enlisted (h : IsRun (a :: past)) (hl : l ∈ enlisted v past) :
    ∃ root o q, a.loop.routine? v = some root ∧ root.Exchanges o q := by
  obtain ⟨c, hc, henlists⟩ := List.mem_filterMap.mp hl
  obtain ⟨opening, asking, hr, -⟩ := Moment.exists_of_enlists henlists
  obtain ⟨newer, older, rfl⟩ := List.append_of_mem hc
  have hrun : IsRun (c :: older) := (List.cons_append ▸ h : IsRun ((a :: newer) ++ c :: older)).upTo
  obtain ⟨role, hholds⟩ := hrun.holds
  obtain ⟨root, hroot, hfits⟩ := hholds.fits.threads (thread?_of_running hr)
  have hexchanges : (∃ o q, root.Exchanges o q) ∨ ∃ name context limit, root = .checkFile name context limit := by
    cases hfits with
    | begins _ hstands hstack =>
      cases hstands with
      | refl => exact hstack.root_of_exchanges (.exchange opening asking)
      | exchange hx => exact hstack.root_of_exchanges hx
  rcases hexchanges with ⟨o, q, hx⟩ | ⟨name, context, limit, rfl⟩
  · exact ⟨root, o, q, h.routine_of_mem hc hroot, hx⟩
  · cases (hrun.not_checks hroot).1

/-- Nobody is entrusted with the exchange of a request whose time is not limited. -/
theorem IsRun.limit_of_entrusted (h : IsRun (a :: past)) (hroot : a.loop.routine? u = some (.request file limit))
    (hv : v ∈ entrusted u past) : ∃ limit', limit = some limit' := by
  obtain ⟨c, hc, hentrusts⟩ := List.mem_filterMap.mp hv
  obtain ⟨limit', opening, asking, stack, hr, -⟩ := Moment.exists_of_entrusts hentrusts
  obtain ⟨newer, older, rfl⟩ := List.append_of_mem hc
  have hrun : IsRun (c :: older) := (List.cons_append ▸ h : IsRun ((a :: newer) ++ c :: older)).upTo
  obtain ⟨role, hholds⟩ := hrun.holds
  obtain ⟨root, hroot', hfits⟩ := hholds.fits.threads (thread?_of_running hr)
  cases (h.routine_of_mem hc hroot').symm.trans hroot
  cases hfits with
  | begins _ hstands hstack =>
    cases hstands
    rcases hstack.root_of_within with heq | ⟨file', heq⟩ | ⟨name, context, limit'', heq⟩ <;> cases heq
    exact ⟨_, rfl⟩

/-- Who runs neither makes a listener nor is entrusted, if he does something else. -/
theorem mem_enlisted_of_not_running (h : ∀ x, a.loop.running = some x → x.task ≠ v) (hl : l ∈ enlisted v (a :: past)) :
    l ∈ enlisted v past := by
  rwa [enlisted, List.filterMap_cons_none (Moment.enlists_of_not_running h)] at hl

end steps

section requests

variable {a : Moment} {past : List Moment} {u v : TaskId} {file : Json} {limit : Option Seconds} {opening asking : Request}

/-- Whoever waits for his exchange when that runs is not about to be woken. -/
theorem Poised.unsettled_of_running {w : FutureId} {x : Running Routine Frame Value Failure} (h : Poised u v w a)
    (hr : a.loop.running = some x) (hx : x.task = v) (hgone : ¬ a.Gone v) : a.loop.isSettled w = false := by
  cases h with
  | gone h => exact absurd h hgone
  | calm h => exact h.unsettled
  | due h idle => cases idle.symm.trans hr
  | starts h idle => cases idle.symm.trans hr
  | runs h => exact h.unsettled
  | called _ _ _ hnot => exact absurd hx (hnot x hr)

/-- **Whoever sends the requests of an exchange does so for a request that stands.** -/
theorem IsPaced.stands_of_introducing {x : Value} {l : ListenerId} {stack : List Frame} (h : IsPaced (a :: past))
    (hroot : a.loop.routine? u = some (.request file limit)) (hv : v ∈ performers u past)
    (hr : a.loop.running = some (.resume v (.value x) (.introducing l opening asking :: stack))) : a.Stands u v := by
  have hth := thread?_of_running hr
  obtain ⟨role, hholds⟩ := h.isRun.holds
  obtain ⟨root, o, q, hroot', hx⟩ := h.isRun.exchanges_of_introducing hth
  have hnot := hholds.not_dismissed_of_introducing hth hroot' hx
  rcases List.mem_cons.mp hv with rfl | hentrusted
  · exact ⟨fun hc => hnot (h.isRun.dismissed_of_cancelled hroot' hx hc), .inl rfl⟩
  obtain ⟨limit, rfl⟩ := h.isRun.limit_of_entrusted hroot hentrusted
  obtain ⟨hne, -, hheeds⟩ := h.heeds hroot hentrusted
  -- whoever limits its time does not run now
  have hidle : ∀ {th}, a.loop.thread? u = some th → th.top.isIdle = true := fun hth =>
    Loop.isIdle_of_ne hth fun y hy => by
      cases hr.symm.trans hy
      exact hne.symm
  cases hheeds with
  | wakes hth' => cases hidle hth'
  | cancels hth' => cases hidle hth'
  | dismissed h => exact absurd h hnot
  | @waits w stack' hth' hc =>
    have hgone : ¬ a.Gone v := by
      rintro (hended | ⟨th', hth'', hparting⟩)
      · obtain ⟨o, ho⟩ := Option.isSome_iff_exists.mp hended
        cases (hholds.fits.tidy.sound.taskOutcome?_of_thread? hth).symm.trans ho
      · exact hnot (.inr ⟨th', hth'', .parts hparting⟩)
    have hun : a.loop.isSettled w = false := by
      rcases h.minding hroot with ⟨th, hth'', hminding⟩ | ⟨o, ho⟩
      · cases hth'.symm.trans hth''
        cases hminding with
        | waits _ hpoised => exact hpoised.unsettled_of_running hr rfl hgone
        | waitsOn _ hall => cases hall _ List.mem_cons_self
      · cases (hholds.fits.tidy.sound.taskOutcome?_of_thread? hth').symm.trans ho
    refine ⟨fun hmem => ?_, .inr ⟨w, stack', hth', hun⟩⟩
    cases (hc hmem).symm.trans hun

/-- Whoever is entrusted with an exchange only now is not there yet. -/
theorem mem_performers (h : v ∈ performers u (a :: past)) :
    v ∈ performers u past ∨ v = a.loop.tasks.size ∧ ∃ x, a.loop.running = some x ∧ x.task = u := by
  rcases List.mem_cons.mp h with rfl | hv
  · exact .inl List.mem_cons_self
  unfold entrusted at hv
  rw [List.filterMap_cons] at hv
  split at hv
  · exact .inl (List.mem_cons_of_mem _ hv)
  · next heq =>
    rcases List.mem_cons.mp hv with rfl | hv
    · obtain ⟨_, _, _, _, hr, hv, -⟩ := Moment.exists_of_entrusts heq
      exact .inr ⟨hv, _, hr, rfl⟩
    · exact .inl (List.mem_cons_of_mem _ hv)

/-- **When nothing can go on, whoever carries out a request that has ended has let go of his listener.** -/
theorem IsPaced.released_of_quiet {l : ListenerId} (h : IsPaced (a :: past)) (hroot : a.loop.routine? u = some (.request file limit))
    (hv : v ∈ performers u past) (hl : l ∈ enlisted v past) (hq : a.loop.isQuiet = true) (hended : a.loop.hasEnded u = true) :
    l ∉ a.loop.state.registered := by
  obtain ⟨root, o, q, hroot', hx⟩ := h.isRun.exchanges_of_enlisted hl
  rcases List.mem_cons.mp hv with rfl | hentrusted
  · exact h.released_of_ended hroot' hx hl hended
  obtain ⟨limit, rfl⟩ := h.isRun.limit_of_entrusted hroot hentrusted
  obtain ⟨role, hholds⟩ := h.isRun.holds
  obtain ⟨outcome, ho⟩ := Option.isSome_iff_exists.mp hended
  have hnone : ∀ {th}, a.loop.thread? u ≠ some th := fun {th} hth => by
    cases (hholds.fits.tidy.sound.taskOutcome?_of_thread? hth).symm.trans ho
  obtain ⟨-, -, hheeds⟩ := h.heeds hroot hentrusted
  cases hheeds with
  | waits hth => exact absurd hth hnone
  | wakes hth => exact absurd hth hnone
  | cancels hth => exact absurd hth hnone
  | dismissed hd => exact h.released_of_dismissed hroot' hx hl hq hd

/-- **Every request lets go of what it has taken.** Whoever carries it out has no listener registered once he has ended, nor
once the request has ended and nothing can go on; then the transport that the listener was registered with has other
listeners, or has been stopped. And he writes something only when his listener is open and the request stands. -/
theorem requests_released (h : IsPaced (a :: past)) (hroot : a.loop.routine? u = some (.request file limit))
    (hv : v ∈ performers u (a :: past)) :
    (∀ l ∈ enlisted v (a :: past),
      (a.loop.hasEnded v = true → l ∉ a.loop.state.registered) ∧
      (a.loop.isQuiet = true → a.loop.hasEnded u = true → l ∉ a.loop.state.registered ∧
        ∀ t, RegisteredOn l t (a :: past) →
          a.loop.state.current = some t ∧ a.loop.state.registered ≠ [] ∨ (a :: past).countP (·.stops t) = 1)) ∧
    ∀ r, a.loop.running = some r → r.task = v → (a.loop.tick Loop.program).state.writings ≠ a.loop.state.writings →
      (∃ x l opening asking stack, r = .resume v (.value x) (.introducing l opening asking :: stack)) ∧ a.Stands u v := by
  obtain ⟨role, hholds⟩ := h.isRun.holds
  constructor
  · intro l hl
    constructor
    · intro hended
      have hl' := mem_enlisted_of_not_running (fun x hr hx => ?_) hl
      · obtain ⟨root, o, q, hroot', hx⟩ := h.isRun.exchanges_of_enlisted hl'
        exact h.released_of_ended hroot' hx hl' hended
      · obtain ⟨outcome, ho⟩ := Option.isSome_iff_exists.mp hended
        cases (hholds.fits.tidy.sound.taskOutcome?_of_thread? (hx ▸ thread?_of_running hr)).symm.trans ho
    · intro hq hended
      have hidle := (isQuiet_iff.mp hq).1
      have hl' := mem_enlisted_of_not_running (fun x hr => by cases hidle.symm.trans hr) hl
      have hv' : v ∈ performers u past := (mem_performers hv).resolve_right fun ⟨_, x, hr, _⟩ => by cases hidle.symm.trans hr
      exact ⟨h.released_of_quiet hroot hv' hl' hq hended, fun t => h.isRun.stopped_of_registeredOn hq⟩
  · rintro r hr rfl hw
    obtain ⟨role', -, ht⟩ := hholds.tick (isQuiet_of_running hr)
    obtain ⟨v, x, l, opening, asking, stack, hr'⟩ := ht.introducing_of_writings hw
    cases hr.symm.trans hr'
    refine ⟨⟨x, l, opening, asking, stack, rfl⟩, h.stands_of_introducing hroot ?_ hr⟩
    refine (mem_performers hv).resolve_right fun ⟨hnew, _⟩ => ?_
    obtain ⟨root, hroot', -⟩ := hholds.fits.threads (thread?_of_running hr)
    cases (Loop.routine?_eq_none (Nat.le_of_eq hnew.symm)).symm.trans hroot'

/-- A request whose three seconds are over while nobody answers has let go of its listener, and its child has been stopped. -/
theorem requests_released_when_silent : ∃ a past, IsPaced (a :: past) ∧
    a.loop.routine? 0 = some (.request (.str (lit "a.ts")) (some (.whole 3))) ∧ 1 ∈ performers 0 (a :: past) ∧
    0 ∈ enlisted 1 (a :: past) ∧ RegisteredOn 0 0 (a :: past) ∧ a.loop.hasEnded 0 = true ∧
    0 ∉ a.loop.state.registered ∧ (a :: past).countP (·.stops 0) = 1 := by
  have hnew : IsPaced [({ loop := stubbornSession } : Moment)] := .new ⟨stubbornSession.state, rfl⟩
  have hasked : IsPaced (hurriedSession.1 :: hurriedSession.2) :=
    @IsPaced.pursue (.ask (.request (.str (lit "a.ts")) (some (.whole 3)))) (_, []) hnew rfl ⟨rfl, fun l hl => by cases hl⟩ 60
  have hthree := hasked.pursue (s := .advance (.whole 3)) (by decide +kernel) trivial 60
  have hrun : IsPaced (silentSession.1 :: silentSession.2) :=
    hthree.pursue (s := .advance (.whole 5)) (by decide +kernel) trivial 60
  have hsuffix : hurriedSession.1 :: hurriedSession.2 <:+ silentSession.1 :: silentSession.2 :=
    (((List.suffix_cons _ _).trans (suffix_pursue 60 _ _)).trans (List.suffix_cons _ _)).trans (suffix_pursue 60 _ _)
  have hroot := hrun.isRun.routine_of_suffix hsuffix routine?_hurriedSession
  have hv : 1 ∈ performers 0 (silentSession.1 :: silentSession.2) := by decide +kernel
  have hl : 0 ∈ enlisted 1 (silentSession.1 :: silentSession.2) := by decide +kernel
  have hended : silentSession.1.loop.hasEnded 0 = true := by decide +kernel
  have hreg : RegisteredOn 0 0 (silentSession.1 :: silentSession.2) := by
    obtain ⟨c, hc, h⟩ := List.any_eq_true.mp (by decide +kernel : (silentSession.1 :: silentSession.2).any
      (fun c => decide (0 ∈ c.loop.state.registered ∧ c.loop.state.current = some 0)) = true)
    exact ⟨c, hc, of_decide_eq_true h⟩
  obtain ⟨hgone, hothers⟩ := ((requests_released hrun hroot hv).1 0 hl).2 (by decide +kernel) hended
  refine ⟨_, _, hrun, hroot, hv, hl, hreg, hended, hgone, (hothers 0 hreg).resolve_left fun ⟨hcurrent, _⟩ => ?_⟩
  exact absurd hcurrent (by decide +kernel)

end requests

end DiagnosticsClient
