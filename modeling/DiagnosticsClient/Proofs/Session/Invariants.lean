import DiagnosticsClient.Proofs.Session.Coherence
import DiagnosticsClient.Proofs.Session.Rights
/-
What holds at every moment of a run.

Threads fit, listeners that callers do not hold are private, the lock and the
listeners fit together, and the rights to register are in order: `Moment.Holds`
has all four, and a step of a run keeps it (`Holds.step`). A fact about the past
of a run is proved by `IsRun.induction`, which has these at hand on both sides of
each step.

What is said of a session between the turns of its tasks follows
(`coherent_between_turns`).
-/
namespace DiagnosticsClient

open Async Async.Machine

/-- All that is known of a moment of a run. -/
structure Moment.Holds (role : FutureId → Role) (a : Moment) : Prop where
  fits : Loop.Fits role a.loop
  known : Loop.Known a.loop a.held
  coherent : a.loop.Coherent
  allotted : Allotted (a.loop.view Thread.right) a.loop.state

/-- What a step of a run does. -/
inductive Goes (role : FutureId → Role) (a : Moment) : (FutureId → Role) → Moment → Prop
  | tick {role' : FutureId → Role} (hq : a.loop.isQuiet = false) (h : Loop.Tick role a.loop role' (a.loop.tick Loop.program)) :
      Goes role a role' { a with loop := a.loop.tick Loop.program }
  | stimulus {s : Stimulus} (hr : a.loop.running = none) (ha : s.Admissible a.held a.loop) : Goes role a role (a.after s)

variable {role role' : FutureId → Role} {a b : Moment} {past : List Moment}

/-- What the loop does keeps all that is known. -/
theorem Moment.Holds.tick (h : a.Holds role) (hq : a.loop.isQuiet = false) : ∃ role',
    Moment.Holds role' { a with loop := a.loop.tick Loop.program } ∧ Loop.Tick role a.loop role' (a.loop.tick Loop.program) := by
  obtain ⟨role', ht, hf'⟩ := h.fits.tick hq
  exact ⟨role', ⟨hf', h.known.tick h.fits ht hf', h.coherent.tick h.fits ht hf',
    h.allotted.shift (ht.shifts h.fits hf' h.known)⟩, ht⟩

/-- So does whatever reaches the session. -/
theorem Moment.Holds.after {s : Stimulus} (h : a.Holds role) (hr : a.loop.running = none) (ha : s.Admissible a.held a.loop) :
    (a.after s).Holds role :=
  ⟨h.fits.apply hr ha, h.known.after h.fits hr ha, h.coherent.after h.fits hr ha, h.allotted.shift (Loop.apply_shifts h.fits hr ha)⟩

theorem Moment.Holds.step (h : a.Holds role) (hs : Step a b) : ∃ role', b.Holds role' ∧ Goes role a role' b := by
  cases hs with
  | tick hq =>
    obtain ⟨role', hholds, ht⟩ := h.tick hq
    exact ⟨role', hholds, .tick hq ht⟩
  | stimulus hr ha => exact ⟨role, h.after hr ha, .stimulus hr ha⟩

/-- A step is a shift of rights. -/
theorem Goes.shifts (hg : Goes role a role' b) (h : a.Holds role) (h' : b.Holds role') : Loop.Shifts a.loop b.loop := by
  cases hg with
  | tick hq ht => exact ht.shifts h.fits h'.fits h.known
  | stimulus hr ha => exact Loop.apply_shifts h.fits hr ha

/-- **Induction over a run**, with all that is known of the moments on both sides of a step. -/
theorem IsRun.induction {P : Moment → List Moment → Prop} (hnew : ∀ {m : Loop}, m.IsNew → P { loop := m } [])
    (hstep : ∀ {role role' a b past}, a.Holds role → b.Holds role' → Goes role a role' b → P a past → P b (a :: past))
    (h : IsRun (a :: past)) : (∃ role, a.Holds role) ∧ P a past := by
  generalize hms : a :: past = moments at h
  induction h generalizing a past with
  | new hm =>
    cases hms
    exact ⟨⟨_, hm.fits, hm.known, hm.coherent, hm.allotted⟩, hnew hm⟩
  | step _ hs ih =>
    cases hms
    obtain ⟨⟨role, hholds⟩, hp⟩ := ih rfl
    obtain ⟨role', hholds', hgoes⟩ := hholds.step hs
    exact ⟨⟨role', hholds'⟩, hstep hholds hholds' hgoes hp⟩

theorem IsRun.holds (h : IsRun (a :: past)) : ∃ role, a.Holds role :=
  (h.induction (P := fun _ _ => True) (fun _ => trivial) fun _ _ _ _ => trivial).1

/-- The last step of a run, and what is known of the moments on both sides of it. -/
theorem IsRun.lastStep (h : IsRun (b :: a :: past)) :
    IsRun (a :: past) ∧ ∃ role role', a.Holds role ∧ b.Holds role' ∧ Goes role a role' b := by
  cases h with
  | step h hs =>
    obtain ⟨role, hholds⟩ := h.holds
    obtain ⟨role', hholds', hgoes⟩ := hholds.step hs
    exact ⟨h, role, role', hholds, hholds', hgoes⟩

/-- A run up to one of its moments is a run. -/
theorem IsRun.upTo {newer older : List Moment} (h : IsRun (newer ++ a :: older)) : IsRun (a :: older) := by
  induction newer with
  | nil => exact h
  | cons c newer ih =>
    cases hms : newer ++ a :: older with
    | nil => simp at hms
    | cons d past =>
      rw [List.cons_append, hms] at h
      exact ih (hms ▸ h.lastStep.1)

/-! ## Between the turns of tasks -/

/-- Whoever holds the lock while no task runs waits for a start or a stop. -/
theorem Moment.Holds.holder (h : a.Holds role) (hr : a.loop.running = none) (hheld : a.loop.state.lock.held = true) :
    ∃ t th, a.loop.thread? t = some th ∧ ((∃ l c, .starting l c ∈ th.stack) ∨ .releasing ∈ th.stack) := by
  obtain ⟨t, p, hp, hholds⟩ := h.coherent.held.mp hheld
  obtain ⟨th, hth, hstation⟩ := Option.bind_eq_some_iff.mp hp
  refine ⟨t, th, hth, ?_⟩
  rcases exists_of_station hstation hholds with ⟨v, htop⟩ | ⟨F, hF, hhold⟩
  · obtain ⟨x, hx, -⟩ := running_of_thread? hth (by rw [htop]; rfl)
    rw [hr] at hx
    cases hx
  · cases F with
    | starting l c => exact .inl ⟨l, c, hF⟩
    | releasing => exact .inr hF
    | _ => cases hhold

/-- Whoever waits for a start or a stop has the place of one who does. -/
theorem Moment.Holds.station_of_mem {t : TaskId} {th : Thread Routine Frame Value Failure} {F : Frame} {p : Station}
    (h : a.Holds role) (hth : a.loop.thread? t = some th) (hF : F ∈ th.stack) (hp : F.hold = some p) :
    Thread.station th = some p := by
  have hne : F.hold ≠ none := by
    rw [hp]
    exact fun h => by cases h
  obtain ⟨root, -, hfits⟩ := h.fits.threads hth
  cases hfits with
  | fresh => cases hF
  | begins _ _ hstack => rw [hstack.station_begins, hstack.holdOf_of_mem hF hne, hp]
  | ends => cases hF
  | resumes hs _ _ hstack => rw [hstack.station_of_mem hs hF hne, hp]
  | waits hs _ hstack => rw [hstack.station_of_mem hs hF hne, hp]

/-- **A session is coherent between the turns of its tasks**, and so whenever nothing can go on by itself: no listener
is registered twice; if the lock is free, there is a transport exactly if somebody is registered; a task that waits for
the start of a transport holds the lock and its listener alone is registered; a task that waits for the stop of one
holds the lock and nobody is registered; and if the lock is held, it is by one of these. -/
theorem coherent_between_turns (h : IsRun (a :: past)) (hr : a.loop.running = none) :
    a.loop.state.registered.Nodup ∧
    (a.loop.state.lock.held = false → (a.loop.state.current.isSome = true ↔ 1 ≤ a.loop.state.registered.length)) ∧
    (∀ t th l c, a.loop.thread? t = some th → .starting l c ∈ th.stack →
      a.loop.state.lock.held = true ∧ a.loop.state.current = none ∧ a.loop.state.registered = [l]) ∧
    (∀ t th, a.loop.thread? t = some th → .releasing ∈ th.stack →
      a.loop.state.lock.held = true ∧ a.loop.state.current = none ∧ a.loop.state.registered = []) ∧
    (a.loop.state.lock.held = true → ∃ t th, a.loop.thread? t = some th ∧
      ((∃ l c, .starting l c ∈ th.stack) ∨ .releasing ∈ th.stack)) := by
  obtain ⟨role, hholds⟩ := h.holds
  refine ⟨hholds.allotted.nodup, fun hfree => ?_, fun t th l c hth hF => ?_, fun t th hth hF => ?_, hholds.holder hr⟩
  · exact (hholds.coherent.balanced hfree).trans List.length_pos_iff.symm
  · have hplace := (Loop.view_station hth).trans (hholds.station_of_mem hth hF rfl)
    exact ⟨hholds.coherent.held_of_holds hplace rfl, hholds.coherent.suits hplace⟩
  · have hplace := (Loop.view_station hth).trans (hholds.station_of_mem hth hF rfl)
    exact ⟨hholds.coherent.held_of_holds hplace rfl, hholds.coherent.suits hplace⟩

/-- A session whose only transport waits at its gate when it is started. -/
def gatedSession : Loop := { state := { medium := .rehearsals, rehearsals := [{ start := .waits }] } }

/-- The same session once somebody has opened a listener. -/
def waitingSession : Loop := (Loop.stimulate 20 (Loop.stimulate 0 gatedSession .listen).1 (.ask (.openListener 0))).1

/-- While the transport waits, the lock is held by who opens the listener. -/
theorem coherent_while_starting : ∃ a past, IsRun (a :: past) ∧ a.loop = waitingSession ∧ a.loop.running = none ∧
    a.loop.state.registered = [0] ∧ a.loop.state.registered.Nodup ∧
    ∃ t th, a.loop.thread? t = some th ∧ ((∃ l c, .starting l c ∈ th.stack) ∨ .releasing ∈ th.stack) := by
  obtain ⟨past, hlisten⟩ := (IsRun.new (m := gatedSession) ⟨gatedSession.state, rfl⟩).stimulate (s := .listen) rfl trivial 0
  obtain ⟨past', hopen⟩ := hlisten.stimulate (s := .ask (.openListener 0)) (by rfl)
    ⟨rfl, fun l hl => by cases hl; exact List.mem_singleton.mpr rfl⟩ 20
  have hrunning : waitingSession.running = none := by rfl
  have hregistered : waitingSession.state.registered = [0] := by rfl
  have hheld : waitingSession.state.lock.held = true := by rfl
  have hcoherent := coherent_between_turns hopen hrunning
  exact ⟨_, past', hopen, rfl, hrunning, hregistered, hcoherent.1, hcoherent.2.2.2.2 hheld⟩

end DiagnosticsClient
