import DiagnosticsClient.Proofs.Session.Wards
/-
Runs over transports of one kind.

A session builds transports of one kind, which it is set up for: it rehearses with them, or
they drive children. What is to be said of a run may hold for one kind only, and only if
nobody does certain things from outside. So such a run is one over a medium in which some
stimuli are barred (`IsRunOver`).
-/
namespace DiagnosticsClient

open Async Async.Machine

/-- The moments of a run over transports of one kind, newest first, in which some stimuli are barred. -/
inductive IsRunOver (medium : Medium) (barred : Stimulus → Bool) : List Moment → Prop
  | new {m : Loop} (h : m.IsNew) (hm : m.state.medium = medium) : IsRunOver medium barred [{ loop := m }]
  | tick {a : Moment} {past : List Moment} (h : IsRunOver medium barred (a :: past)) (hq : a.loop.isQuiet = false) :
      IsRunOver medium barred ({ a with loop := a.loop.tick Loop.program } :: a :: past)
  | stimulus {a : Moment} {past : List Moment} {s : Stimulus} (h : IsRunOver medium barred (a :: past)) (hr : a.loop.running = none)
      (ha : s.Admissible a.held a.loop) (hs : barred s = false) : IsRunOver medium barred (a.after s :: a :: past)

/-- What a step of such a run does. -/
inductive Advances (barred : Stimulus → Bool) (role : FutureId → Role) (a : Moment) : (FutureId → Role) → Moment → Prop
  | tick {role' : FutureId → Role} (hq : a.loop.isQuiet = false) (h : Loop.Tick role a.loop role' (a.loop.tick Loop.program)) :
      Advances barred role a role' { a with loop := a.loop.tick Loop.program }
  | stimulus {s : Stimulus} (hr : a.loop.running = none) (ha : s.Admissible a.held a.loop) (hs : barred s = false) :
      Advances barred role a role (a.after s)

theorem Advances.goes {barred : Stimulus → Bool} {role role' : FutureId → Role} {a b : Moment} (h : Advances barred role a role' b) :
    Goes role a role' b := by
  cases h with
  | tick hq ht => exact .tick hq ht
  | stimulus hr ha => exact .stimulus hr ha

namespace IsRunOver

variable {medium : Medium} {barred : Stimulus → Bool} {a b : Moment} {past : List Moment} {s : Stimulus}

theorem isRun {moments : List Moment} (h : IsRunOver medium barred moments) : IsRun moments := by
  induction h with
  | new h => exact .new h
  | tick _ hq ih => exact .step ih (.tick hq)
  | stimulus _ hr ha _ ih => exact .step ih (.stimulus hr ha)

/-- The last step of such a run, and what is known of the moments on both sides of it. -/
theorem lastStep (h : IsRunOver medium barred (b :: a :: past)) :
    IsRunOver medium barred (a :: past) ∧ ∃ role role', a.Holds role ∧ b.Holds role' ∧ Advances barred role a role' b := by
  cases h with
  | tick h hq =>
    obtain ⟨role, hholds⟩ := h.isRun.holds
    obtain ⟨role', hholds', ht⟩ := hholds.tick hq
    exact ⟨h, role, role', hholds, hholds', .tick hq ht⟩
  | stimulus h hr ha hs =>
    obtain ⟨role, hholds⟩ := h.isRun.holds
    exact ⟨h, role, role, hholds, hholds.after hr ha, .stimulus hr ha hs⟩

theorem onward (h : IsRunOver medium barred (a :: past)) (fuel : Nat) :
    IsRunOver medium barred ((a.onward fuel past).1 :: (a.onward fuel past).2) := by
  induction fuel generalizing a past with
  | zero => exact h
  | succ fuel ih =>
    unfold Moment.onward
    split
    · exact h
    · next hq => exact ih (.tick h (Bool.eq_false_iff.mpr hq))

/-- The moments after a stimulus that is not barred are part of such a run. -/
theorem pursue {moments : Moment × List Moment} (h : IsRunOver medium barred (moments.1 :: moments.2))
    (hr : moments.1.loop.running.isNone = true) (ha : s.Admissible moments.1.held moments.1.loop) (hs : barred s = false)
    (fuel : Nat) : IsRunOver medium barred ((Moment.pursue fuel s moments).1 :: (Moment.pursue fuel s moments).2) :=
  (IsRunOver.stimulus h (Option.isNone_iff_eq_none.mp hr) ha hs).onward fuel

/-- **All transports are of the kind** that the session is set up for. -/
theorem uniform (h : IsRunOver medium barred (a :: past)) : a.loop.state.medium = medium ∧ a.loop.state.Uniform := by
  induction past generalizing a with
  | nil =>
    cases h with
    | new hnew hm =>
      obtain ⟨s, rfl⟩ := hnew
      exact ⟨hm, fun _ hx => by cases hx⟩
  | cons b past ih =>
    obtain ⟨hb, role, role', hholds, -, hadvances⟩ := h.lastStep
    obtain ⟨hmedium, huniform⟩ := ih hb
    have hendures := hadvances.goes.endures hholds
    exact ⟨(congrArg Setup.medium hendures.setup).trans hmedium, hendures.uniform huniform⟩

end IsRunOver

end DiagnosticsClient
