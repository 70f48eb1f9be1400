import DiagnosticsClient.Proofs.Session.Introductions
import DiagnosticsClient.Proofs.Session.Minders
/-
How long the listener of an exchange stays registered.

An exchange has its listener registered until it unregisters it, or the session lets go of it;
then that is over for good (`Tenure`). If callers leave the session to go on by itself, the
exchange does come to unregister it: while it waits for the lock to do so nobody cancels it.
So a listener is not registered once its exchange has ended (`IsPaced.released_of_ended`), and
when nothing can go on, not even while an exchange that is dismissed is not at its end
(`IsPaced.released_of_dismissed`).
-/
namespace DiagnosticsClient

open Async Async.Machine

/-- How far a task has got with the listener that it has made for its exchange. -/
inductive Tenure (v : TaskId) (l : ListenerId) (p : Request × Request) (a : Moment) : Prop
  | opens {th : Thread Routine Frame Value Failure} (hth : a.loop.thread? v = some th)
      (h : Opens l [.introducing l p.1 p.2] a.loop th) (hheld : l ∉ a.held)
      (hopened : th.top = .begins (.openListener l) ∨ (a.loop.state.listener l).opened = true)
  | expects {th : Thread Routine Frame Value Failure} (hth : a.loop.thread? v = some th) (hl : l ∈ a.loop.state.registered)
      (h : [.expecting l p.2] <:+ th.stack)
  | closes {e : Ending} (hth : a.loop.thread? v = some ⟨.begins (.closeListener l), [.finishing e]⟩)
      (hl : l ∈ a.loop.state.registered)
  | leaves {th : Thread Routine Frame Value Failure} {e : Ending} (hth : a.loop.thread? v = some th)
      (hl : l ∈ a.loop.state.registered) (h : Locks [.leaving l, .finishing e] th) (hspares : a.loop.Spares v)
  | spent (h : a.Spends l)

namespace Loop

/-- No cancellation of a task that runs is held back. -/
theorem spares_of_running {T : FutureId → Prop} {m : Loop} {x : Running Routine Frame Value Failure} (hs : m.Sound T)
    (hr : m.running = some x) : m.Spares x.task where
  free := by
    rintro ⟨task, htask, hheld⟩
    obtain ⟨task', htask', -, hfree⟩ := hs.running hr
    cases htask.symm.trans htask'
    cases hheld.symm.trans hfree
  granted hth := by
    have hbusy := x.thread_isIdle
    rw [Option.some.inj ((thread?_of_running hr).symm.trans hth)] at hbusy
    cases hbusy

theorem spares_of_thread? {T : FutureId → Prop} {m : Loop} {v : TaskId} {th : Thread Routine Frame Value Failure} (hs : m.Sound T)
    (hth : m.thread? v = some th) (hidle : th.top.isIdle = false) : m.Spares v := by
  obtain ⟨x, hx, rfl, -⟩ := running_of_thread? hth hidle
  exact spares_of_running hs hx

/-- Whoever waits for the answer waits on, or closes his listener. -/
theorem exchangeResumed_move (l : ListenerId) (asking : Request) (o : Ending) (m : Loop) :
    (exchangeResumed l asking o m).2 = .call (.next l) (.expecting l asking) ∨
      ∃ e, (exchangeResumed l asking o m).2 = .call (.closeListener l) (.finishing e) := by
  unfold exchangeResumed
  split
  · split
    · exact .inr ⟨_, rfl⟩
    · exact .inl rfl
  · exact .inl rfl
  · exact .inr ⟨_, rfl⟩
  · exact .inr ⟨_, rfl⟩

end Loop

section goes

variable {role role' : FutureId → Role} {a b : Moment} {past : List Moment} {u v : TaskId} {l : ListenerId} {root : Routine}
  {th : Thread Routine Frame Value Failure} {opening asking : Request} {p : Request × Request} {e : Ending}

theorem Routine.Exchanges.about (hx : root.Exchanges opening asking) : root.about = none := by
  cases hx <;> rfl

/-- **Nobody who waits to leave is cancelled.** -/
theorem IsPaced.spares_leaving (h : IsPaced (a :: past)) (ha : a.Holds role) (hb : b.Holds role') (hp : Paces role a role' b)
    (hroot : a.loop.routine? v = some root) (hx : root.Exchanges opening asking) (hth : a.loop.thread? v = some th)
    (hl : l ∈ a.loop.state.registered) (hlocks : Locks [.leaving l, .finishing e] th) (hspares : a.loop.Spares v) :
    b.loop.Spares v := by
  have hexposed : th.top.isIdle = true → a.Exposed v := fun hidle => by
    cases hlocks with
    | waits w => exact ⟨w, l, _, hth, hl⟩
    | _ => cases hidle
  have hidle : (∀ x, a.loop.running = some x → x.task ≠ v) → th.top.isIdle = true := Loop.isIdle_of_ne hth
  cases hp with
  | tick hq ht =>
    refine hspares.tick ha.fits hb.fits ht hroot fun hcancel => ?_
    obtain ⟨⟨r, hr, hinner, hby⟩, hnot⟩ := hcancel
    cases hroot.symm.trans hr
    cases hx with
    | request => cases hinner
    | exchange =>
      rcases hby with hreads | ⟨u, stack, hrunning⟩
      · cases hreads
      · exact h.not_exposed_of_cancel hrunning hroot (hexposed (hidle hnot))
  | stimulus hq =>
    refine absurd (hexposed (hidle fun x hr => ?_)) (h.isRun.not_exposed_of_quiet hq hroot hx.about)
    cases (isQuiet_iff.mp hq).1.symm.trans hr

/-- **What becomes of the listener of an exchange** goes on in every step. -/
theorem Tenure.step (h : Tenure v l p a) (hrun : IsPaced (a :: past)) (ha : a.Holds role) (hb : b.Holds role') (hp : Paces role a role' b)
    (hroot : a.loop.routine? v = some root) (hx : root.Exchanges opening asking) : Tenure v l p b := by
  have hg := hp.goes
  have hsound := hb.fits.tidy.sound
  -- once it is not registered any more, that is over for good
  have hstill : l ∈ a.loop.state.registered → (l ∈ b.loop.state.registered → Tenure v l p b) → Tenure v l p b := fun hl hstays => by
    by_cases hl' : l ∈ b.loop.state.registered
    · exact hstays hl'
    · exact .spent (ha.allotted.spent hl (hg.shifts ha hb) hl')
  cases h with
  | spent h => exact .spent (h.shift (hg.shifts ha hb))
  | @opens th hth h hheld hopened =>
    have ht := hg.turn ha hb hth
    have huses : ∀ {th : Thread Routine Frame Value Failure} {m : Loop}, Opens l [.introducing l p.1 p.2] m th → Thread.Uses th l :=
      fun h => .inr ⟨_, h.suffix.subset List.mem_cons_self, rfl⟩
    rcases h.step ha hth ht with ⟨o, rfl, hinformed⟩ | ⟨th', hth', h'⟩
    · cases o with
      | value x =>
        obtain ⟨hl, -⟩ := hinformed.registered x rfl
        refine hstill hl fun hl' => ?_
        obtain ⟨-, hth'⟩ := ht.resumed (Prod.eta _).symm
        simp only [Loop.resume, Loop.exchangeOpened] at hth'
        split at hth'
        · exact .expects hth' hl' (List.suffix_refl _)
        · exact .closes hth' hl'
      | _ =>
        refine .spent (Spent.shift (ha.spends hth (huses h) hheld (hopened.resolve_left fun h => by cases h)
          (hinformed.refused fun v h => by cases h) fun h => by cases h) (hg.shifts ha hb))
    · refine .opens hth' h' (fun hmem => hheld ?_) (.inr (h.listed ha hb hg hth hopened))
      exact (ha.known.kind hth hroot (huses h)).mpr ((hb.known.kind hth' ((hg.keeps ha).routine hroot) (huses h')).mp hmem)
  | expects hth hl h =>
    have ht := hg.turn ha hb hth
    refine hstill hl fun hl' => ?_
    rcases ht.beneath h with ⟨o, rfl⟩ | ⟨th', hth', h'⟩
    · obtain ⟨-, hth'⟩ := ht.resumed (Prod.eta _).symm
      rcases Loop.exchangeResumed_move l p.2 o a.loop with hmove | ⟨e, hmove⟩ <;>
        rw [show (Loop.resume (.expecting l p.2) o a.loop).2 = _ from hmove] at hth'
      · exact .expects hth' hl' (List.suffix_refl _)
      · exact .closes hth' hl'
    · exact .expects hth' hl' h'
  | closes hth hl =>
    refine hstill hl fun hl' => ?_
    obtain ⟨-, hth'⟩ := (hg.turn ha hb hth).begun rfl
    exact .leaves hth' hl' .begins (Loop.spares_of_thread? hsound hth' rfl)
  | leaves hth hl h hspares =>
    have ht := hg.turn ha hb hth
    refine hstill hl fun hl' => ?_
    rcases h.turn ht hth hspares with ⟨x, rfl⟩ | ⟨th', hth', h', -⟩
    · obtain ⟨-, hr, -⟩ := ht.of_resumes
      exact absurd hl' (hg.leaves ha ⟨hl, v, x, _, hr⟩).1
    · exact .leaves hth' hl' h' (hrun.spares_leaving ha hb hp hroot hx hth hl h hspares)

end goes

section runs

variable {a : Moment} {past : List Moment} {u v : TaskId} {l : ListenerId} {root : Routine} {opening asking : Request}
  {p : Request × Request}

theorem Moment.exists_of_enlists (h : a.enlists v = some l) : ∃ opening asking,
    a.loop.running = some (.begin v (.exchange opening asking) []) ∧ l = a.loop.state.listeners.length := by
  unfold Moment.enlists at h
  split at h
  · next t opening asking hr =>
    split at h
    · next heq =>
      subst heq
      exact ⟨opening, asking, hr, (Option.some.inj h).symm⟩
    · cases h
  · cases h

/-- **In a run that callers leave to go on by itself, what becomes of the listener of an exchange** is known. -/
theorem IsPaced.tenure (h : IsPaced (a :: past)) (hroot : a.loop.routine? v = some root) (hx : root.Exchanges opening asking)
    (hl : l ∈ enlisted v past) : ∃ p, Tenure v l p a := by
  induction past generalizing a with
  | nil => cases hl
  | cons b past ih =>
    obtain ⟨hpast, role, role', hholds, hholds', hp⟩ := h.lastStep
    have hcases : b.enlists v = some l ∨ l ∈ enlisted v past := by
      unfold enlisted at hl
      rw [List.filterMap_cons] at hl
      split at hl
      · exact .inr hl
      · next heq => exact (List.mem_cons.mp hl).imp_left fun h => heq.trans (congrArg some h.symm)
    rcases hcases with hnow | hold
    · obtain ⟨opening, asking, hr, rfl⟩ := Moment.exists_of_enlists hnow
      obtain ⟨hth', hl'⟩ := hp.goes.introduces (p := (opening, asking)) hholds hholds' hr
      have hheld : a.held = b.held := by
        cases hp with
        | tick => rfl
        | stimulus hq => cases (isQuiet_iff.mp hq).1.symm.trans hr
      refine ⟨(opening, asking), .opens hth' (.opens hl') (fun hmem => ?_) (.inl rfl)⟩
      rw [hheld] at hmem
      exact absurd (hholds.known.listed hmem) (Nat.lt_irrefl _)
    · obtain ⟨r, hbefore⟩ : ∃ r, b.loop.routine? v = some r := by
        cases hbefore : b.loop.routine? v with
        | some r => exact ⟨r, rfl⟩
        | none =>
          -- nobody makes a listener before he is there
          obtain ⟨c, hc, henlists⟩ := List.mem_filterMap.mp hold
          obtain ⟨_, _, hr, -⟩ := Moment.exists_of_enlists henlists
          cases (hpast.isRun.unborn hbefore c (List.mem_cons_of_mem _ hc)).symm.trans (thread?_of_running hr)
      cases ((hp.goes.keeps hholds).routine hbefore).symm.trans hroot
      obtain ⟨p, htenure⟩ := ih hpast hbefore hold
      exact ⟨p, htenure.step hpast hholds hholds' hp hbefore hx⟩

/-- **Once an exchange has ended its listener is not registered.** -/
theorem IsPaced.released_of_ended (h : IsPaced (a :: past)) (hroot : a.loop.routine? v = some root) (hx : root.Exchanges opening asking)
    (hl : l ∈ enlisted v past) (hended : a.loop.hasEnded v = true) : l ∉ a.loop.state.registered := by
  obtain ⟨role, hholds⟩ := h.isRun.holds
  obtain ⟨o, ho⟩ := Option.isSome_iff_exists.mp hended
  have hnone : ∀ {th}, a.loop.thread? v ≠ some th := fun {th} hth => by
    cases (hholds.fits.tidy.sound.taskOutcome?_of_thread? hth).symm.trans ho
  obtain ⟨p, htenure⟩ := h.tenure hroot hx hl
  cases htenure with
  | spent h => exact h.gone
  | opens hth => exact absurd hth hnone
  | expects hth => exact absurd hth hnone
  | closes hth => exact absurd hth hnone
  | leaves hth => exact absurd hth hnone

/-- Whoever waits on his way out does not go on with anything after that. -/
theorem Departing.finishing_suffix {f : FutureId} {stack : List Frame} (h : Departing ⟨.waits f, stack⟩) :
    ∃ e, [.finishing e] <:+ stack := by
  cases h with
  | leaves h => exact ⟨_, (List.suffix_cons _ _).trans h⟩
  | parts h =>
    cases h with
    | stops h => exact ⟨_, (List.suffix_cons _ _).trans h⟩

/-- Whoever goes on with something else is not on his way out. -/
theorem Departing.eq_finishing {f : FutureId} {stack : List Frame} {F : Frame} (h : Departing ⟨.waits f, stack⟩) (hF : [F] <:+ stack) :
    ∃ e, F = .finishing e := by
  obtain ⟨e, he⟩ := h.finishing_suffix
  have hsingle := List.IsSuffix.eq_of_length (List.suffix_of_suffix_length_le hF he (Nat.le_refl _)) rfl
  exact ⟨e, List.head_eq_of_cons_eq hsingle⟩

/-- **When nothing can go on, the listener of an exchange that is dismissed is not registered.** -/
theorem IsPaced.released_of_dismissed (h : IsPaced (a :: past)) (hroot : a.loop.routine? v = some root)
    (hx : root.Exchanges opening asking) (hl : l ∈ enlisted v past) (hq : a.loop.isQuiet = true) (hd : a.Dismissed v) :
    l ∉ a.loop.state.registered := by
  obtain ⟨role, hholds⟩ := h.isRun.holds
  have hdeparts : ∀ {th}, a.loop.thread? v = some th → Departing th := hd.departing_of_quiet hholds hq
  have hwaits : ∀ {th}, a.loop.thread? v = some th → ∃ f stack, th = ⟨.waits f, stack⟩ := fun hth => by
    obtain ⟨f, stack, rfl, -⟩ := hholds.fits.tidy.sound.waits_of_quiet hq hth
    exact ⟨f, stack, rfl⟩
  obtain ⟨p, htenure⟩ := h.tenure hroot hx hl
  cases htenure with
  | spent h => exact h.gone
  | opens hth h =>
    obtain ⟨f, stack, rfl⟩ := hwaits hth
    obtain ⟨e, he⟩ := (hdeparts hth).eq_finishing h.suffix
    cases he
  | expects hth _ h =>
    obtain ⟨f, stack, rfl⟩ := hwaits hth
    obtain ⟨e, he⟩ := (hdeparts hth).eq_finishing h
    cases he
  | closes hth =>
    obtain ⟨f, stack, heq⟩ := hwaits hth
    cases heq
  | leaves hth hl hlocks =>
    obtain ⟨f, stack, rfl⟩ := hwaits hth
    cases hlocks with
    | waits => exact absurd ⟨f, l, _, hth, hl⟩ (h.isRun.not_exposed_of_quiet hq hroot hx.about)

end runs

end DiagnosticsClient
