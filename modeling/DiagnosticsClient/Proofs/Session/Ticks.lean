import DiagnosticsClient.Proofs.Async.Reserve
import DiagnosticsClient.Proofs.Session.Mild
/-
What a step of a session's loop does.

`Stride` has a case for each kind of step: a task is set going, something is settled
between turns, or the running task ends, begins or goes on. Every step of a loop whose
threads fit is one of these, and threads fit again after it (`Fits.stride`). `Tick` has
the same cases, with all that is known of them in a session (`Fits.tick`).
-/
namespace DiagnosticsClient

open Async Async.Machine

namespace Loop

variable {role role' : FutureId → Role} {usage : Usage} {m m' : Loop} {t u : TaskId} {w : FutureId} {root called r : Routine} {F : Frame}
  {stack : List Frame} {o : Ending} {s : Loop × Move} {x : Running Routine Frame Value Failure}

/-- The licence of what happens between the turns of tasks: to settle what timers and callbacks may settle. -/
def bare (role : FutureId → Role) : Licence Routine :=
  { target := fun f => (role f).isScheduled = true, wake := fun _ => False, cancel := fun _ => False, spawn := fun _ => False }

/-- What is settled between the turns of tasks leaves a loop tidy. -/
theorem Tidy.settled (h : m.Tidy role) (hs : Settled (bare role) m m') : m'.Tidy role where
  sound := hs.sound
  special hne := hs.extends_.owner (h.special hne)
  names := by
    rw [hs.state]
    exact names_extends h.names hs.extends_
  exits {f c v} hrole ho := by
    have hplain := h.special (f := f) (by rw [hrole]; exact Role.noConfusion)
    rw [hs.state]
    rcases hs.extends_.settled ho with hold | ⟨-, hset⟩
    · exact h.exits hrole hold
    · rcases hset hplain.lt_size with hscheduled | ⟨hwake, -⟩ | ⟨hcancel, -⟩
      · rw [show (bare role).target f ↔ (role f).isScheduled = true from Iff.rfl, hrole] at hscheduled
        cases hscheduled
      · exact hwake.elim
      · cases hcancel

/-- The running task does `s`, which serves `called`. -/
structure Deed (role role' : FutureId → Role) (m : Loop) (t : TaskId) (root called : Routine) (stack : List Frame)
    (s : Loop × Move) (usage : Usage := .session) : Prop where
  made : m.routine? t = some root
  stacked : Stacked m.routine? root called stack
  does : Does role role' m called s
  fits : Fits role' s.1 usage
  switch : s.1.Switch t (some (s.1.nextThread stack s.2)) (s.1.perform t stack s.2)

/-- What a step of a loop that is not quiet does, whatever the loop is used for. -/
inductive Stride (usage : Usage) (role : FutureId → Role) (m : Loop) : (FutureId → Role) → Loop → Prop
  /-- A task is set going. -/
  | awakes {m' : Loop} {t : TaskId} {th th' : Thread Routine Frame Value Failure} (idle : m.running = none)
      (hth : m.thread? t = some th) (how : m.Awakes t th th') (switch : m.Switch t (some th') m') : Stride usage role m role m'
  /-- Something is settled, and no task moves. -/
  | passes {m' : Loop} (idle : m.running = none) (extends_ : m.Extends (bare role) m') (state : m'.state = m.state) :
      Stride usage role m role m'
  | ends {m' : Loop} {t : TaskId} {o : Ending} (runs : m.running = some (.resume t o [])) (switch : m.Switch t none m')
      (outcome : m'.taskOutcome? t = some o) : Stride usage role m role m'
  | begins {role' : FutureId → Role} {t : TaskId} {r called root : Routine} {stack : List Frame}
      (runs : m.running = some (.begin t r stack)) (valid : r.Valid m.routine?) (stands : r.StandsFor called)
      (deed : Deed role role' m t root called stack (begin r m) usage) :
      Stride usage role m role' ((begin r m).1.perform t stack (begin r m).2)
  | resumes {t : TaskId} {o : Ending} {F : Frame} {called root : Routine} {stack : List Frame}
      (runs : m.running = some (.resume t o (F :: stack))) (serves : F.Serves m.routine? called) (gets : F.Gets m.state o)
      (woke : F.Woke role m o) (deed : Deed role role m t root called stack (resume F o m) usage) :
      Stride usage role m role ((resume F o m).1.perform t stack (resume F o m).2)

/-- **Threads fit after every step.** -/
theorem Fits.stride (hf : Fits role m usage) (hq : m.isQuiet = false) :
    ∃ role', Stride usage role m role' (m.tick program) ∧ Fits role' (m.tick program) usage := by
  cases hr : m.running with
  | none =>
    have hne : m.ready ≠ [] := by
      intro hnil
      simp [isQuiet, hr, hnil] at hq
    obtain ⟨hsound, hor⟩ :=
      Machine.tick_of_not_running program (show m.Sound (bare role).target from hf.tidy.sound) hr hne
    refine ⟨role, ?_⟩
    rcases hor with ⟨t, th, th', hth, haw, hs⟩ | ⟨he, hstate⟩
    · refine ⟨.awakes hr hth haw hs, hf.switch hs hsound ?_ ?_ ?_⟩
      · rintro _ ⟨⟩
        exact hf.awakes hth haw
      · intro f s heq
        cases heq
        cases haw
      · intro root v _ hout
        rw [hsound.taskOutcome?_of_thread? hs.self] at hout
        cases hout
    · exact ⟨.passes hr he hstate, hf.extends he (fun h => h.elim) (hf.tidy.settled ⟨hsound, he, hstate⟩) (fun _ _ => rfl)
        (by rw [hstate]) fun hc => by rwa [hstate]⟩
  | some x =>
    obtain ⟨root, hroot, hfits⟩ := hf.threads (thread?_of_running hr)
    cases x with
    | begin t r stack =>
      cases hfits with
      | @begins _ called _ hv hstands hstack =>
        have hx : m.Executes called := ⟨t, r, root, stack, hr, hstands, hroot, hstack⟩
        obtain ⟨role', hd⟩ := begin_does hf hx hv hstands
        obtain ⟨hmid, hnext, hswitch⟩ := hf.tick_of_does hr hroot hstack hd
        have htick : m.tick program = (begin r m).1.perform t stack (begin r m).2 := by
          simp only [Machine.tick, hr]
          rfl
        rw [htick]
        exact ⟨role', .begins hr hv hstands ⟨hroot, hstack, hd, hmid, hswitch⟩, hnext⟩
    | resume t o stack =>
      cases hfits with
      | ends hgives =>
        obtain ⟨hsound, hswitch, hout⟩ := hf.tidy.sound.endTask hr o
        have htick : m.tick program = m.endTask t o := by simp only [Machine.tick, hr]
        rw [htick]
        refine ⟨role, .ends hr hswitch hout, hf.switch hswitch hsound ?_ ?_ ?_⟩
        · rintro _ ⟨⟩
        · rintro f s ⟨⟩
        · intro root' v hroot' hv
          rw [hroot] at hroot'
          cases hroot'
          exact hgives v (Option.some.inj (hout.symm.trans hv))
      | @resumes _ F called stack hs hg hw hstack =>
        have hd := resume_does hf hs hg hw
        obtain ⟨hmid, hnext, hswitch⟩ := hf.tick_of_does hr hroot hstack hd
        have htick : m.tick program = (resume F o m).1.perform t stack (resume F o m).2 := by
          simp only [Machine.tick, hr]
          rfl
        rw [htick]
        exact ⟨role, .resumes hr hs hg hw ⟨hroot, hstack, hd, hmid, hswitch⟩, hnext⟩

/-- What a step of a session's loop does that is not quiet. -/
inductive Tick (role : FutureId → Role) (m : Loop) : (FutureId → Role) → Loop → Prop
  /-- A task is set going. -/
  | awakes {m' : Loop} {t : TaskId} {th th' : Thread Routine Frame Value Failure} (idle : m.running = none)
      (hth : m.thread? t = some th) (how : m.Awakes t th th') (switch : m.Switch t (some th') m') : Tick role m role m'
  /-- Something is settled, and no task moves. -/
  | passes {m' : Loop} (idle : m.running = none) (extends_ : m.Extends (bare role) m') (state : m'.state = m.state) :
      Tick role m role m'
  | ends {m' : Loop} {t : TaskId} {o : Ending} (runs : m.running = some (.resume t o [])) (switch : m.Switch t none m')
      (outcome : m'.taskOutcome? t = some o) : Tick role m role m'
  | begins {role' : FutureId → Role} {t : TaskId} {r called root : Routine} {stack : List Frame}
      (runs : m.running = some (.begin t r stack)) (valid : r.Valid m.routine?) (stands : r.StandsFor called)
      (how : Begins role m r called) (deed : Deed role role' m t root called stack (begin r m)) :
      Tick role m role' ((begin r m).1.perform t stack (begin r m).2)
  | resumes {t : TaskId} {o : Ending} {F : Frame} {called root : Routine} {stack : List Frame}
      (runs : m.running = some (.resume t o (F :: stack))) (serves : F.Serves m.routine? called) (gets : F.Gets m.state o)
      (woke : F.Woke role m o) (how : Resumes role m o F called) (deed : Deed role role m t root called stack (resume F o m)) :
      Tick role m role ((resume F o m).1.perform t stack (resume F o m).2)

/-- **Threads of a session fit after every step**, and it is known what the step does. -/
theorem Fits.tick (hf : Fits role m) (hq : m.isQuiet = false) :
    ∃ role', Tick role m role' (m.tick program) ∧ Fits role' (m.tick program) := by
  obtain ⟨role', hstride, hf'⟩ := hf.stride hq
  refine ⟨role', ?_, hf'⟩
  generalize m.tick program = m' at hstride
  cases hstride with
  | awakes idle hth how switch => exact .awakes idle hth how switch
  | passes idle extends_ state => exact .passes idle extends_ state
  | ends runs switch outcome => exact .ends runs switch outcome
  | begins runs valid stands deed =>
    exact .begins runs valid stands (begins hf ⟨_, _, _, _, runs, stands, deed.made, deed.stacked⟩ valid stands) deed
  | resumes runs serves gets woke deed => exact .resumes runs serves gets woke (resumes hf serves woke) deed

theorem Tick.stride (ht : Tick role m role' m') : Stride .session role m role' m' := by
  cases ht with
  | awakes idle hth how switch => exact .awakes idle hth how switch
  | passes idle he hstate => exact .passes idle he hstate
  | ends runs switch outcome => exact .ends runs switch outcome
  | begins runs valid stands _ deed => exact .begins runs valid stands deed
  | resumes runs serves gets woke _ deed => exact .resumes runs serves gets woke deed

/-! ## Threads across a step -/

namespace Deed

/-- The thread of a task that does not act was there, or is new. -/
theorem thread_other (hd : Deed role role' m t root called stack s usage) (hf : Fits role m usage) (hu : u ≠ t)
    {th : Thread Routine Frame Value Failure} (hth : (s.1.perform t stack s.2).thread? u = some th) :
    m.thread? u = some th ∨ ∃ r, called.Spawns r ∧ m.tasks.size ≤ u ∧ th = ⟨.fresh r, []⟩ := by
  rw [hd.switch.other hu] at hth
  rcases hd.does.effect.extends.thread?_cases hf.tidy.sound hd.fits.tidy.sound hth with hold | ⟨r, hr, hge, -, rfl⟩
  · exact .inl hold
  · exact .inr ⟨r, hr, hge, rfl⟩

theorem view_other {α : Type} {see : Thread Routine Frame Value Failure → Option α}
    (hd : Deed role role' m t root called stack s usage) (hf : Fits role m usage) (hsee : ∀ r, see ⟨.fresh r, []⟩ = none) (hu : u ≠ t) :
    (s.1.perform t stack s.2).view see u = m.view see u :=
  (hd.switch.view_other hu).trans (hd.does.effect.extends.view hf.tidy.sound hd.fits.tidy.sound hsee u)

theorem view_self {α : Type} {see : Thread Routine Frame Value Failure → Option α}
    (hd : Deed role role' m t root called stack s usage) :
    (s.1.perform t stack s.2).view see t = see (s.1.nextThread stack s.2) :=
  hd.switch.view_self

theorem state (hd : Deed role role' m t root called stack s usage) : (s.1.perform t stack s.2).state = s.1.state :=
  hd.switch.state

theorem keeps (hd : Deed role role' m t root called stack s usage) : m.Keeps (s.1.perform t stack s.2) := by
  have h := keeps_of_extends hd.does.effect.extends
  have h' := keeps_of_switch hd.switch
  exact ⟨fun hr => h'.routine (h.routine hr), fun hx => h'.owner (h.owner hx),
    fun hf ho => h'.outcome (h.owner hf) (h.outcome hf ho)⟩

end Deed

/-! ## Reserved futures across a step -/

/-- Nobody is cancelled who waits for what one task alone waits for. -/
theorem Fits.waitsFor_ne (hf : Fits role m usage) (hw : role w = .reserved) {stack : List Frame}
    (hth : m.thread? u = some ⟨.waits w, stack⟩) {c : TaskId → Prop} (hc : ¬ c u) :
    ∀ t, c t → m.waitsFor? t ≠ some w := by
  intro t ht hwait
  obtain ⟨task, htask, hwaiting⟩ := Option.bind_eq_some_iff.mp hwait
  obtain ⟨stack', hth'⟩ := hf.tidy.sound.waiting htask hwaiting
  exact hc (hf.apart (by rw [hw]; exact Role.noConfusion) hth' hth ▸ ht)

theorem ne_reserved_of_wake {D : ChildId → Prop} {K : TaskId → Prop} {S : Routine → Prop} {f : FutureId}
    (h : (permit role D K S).wake f) : role f ≠ .reserved := by
  intro hf
  rcases h with h | h | ⟨c, h, -⟩ <;> cases hf.symm.trans h

/-- What a session may do leaves a reserved future alone. -/
theorem avoids_of_effect {may : Licence Routine} (he : Effect may m m') (ht : ∀ {f}, may.target f → role f = .other)
    (hk : ∀ {f}, may.wake f → role f ≠ .reserved) (hw : role w = .reserved) (hc : ∀ t, may.cancel t → m.waitsFor? t ≠ some w) :
    Avoids w m m' := by
  refine Effect.avoids he (fun h => ?_) (fun h => hk h hw) hc
  cases hw.symm.trans (ht h)

/-- The running task ends, or does something. -/
theorem Stride.of_running (hs : Stride usage role m role' (m.tick program)) (hr : m.running = some x) :
    (∃ o, m.tick program = m.endTask x.task o) ∨ ∃ (root called : Routine) (stack : List Frame) (s : Loop × Move),
      Deed role role' m x.task root called stack s usage ∧ m.tick program = s.1.perform x.task stack s.2 := by
  generalize hm : m.tick program = m' at hs ⊢
  cases hs with
  | awakes idle => cases idle.symm.trans hr
  | passes idle => cases idle.symm.trans hr
  | ends runs =>
    cases runs.symm.trans hr
    exact .inl ⟨_, by rw [← hm]; simp only [Machine.tick, runs]; rfl⟩
  | begins runs valid stands deed =>
    cases runs.symm.trans hr
    exact .inr ⟨_, _, _, _, deed, rfl⟩
  | resumes runs serves gets woke deed =>
    cases runs.symm.trans hr
    exact .inr ⟨_, _, _, _, deed, rfl⟩

/-- While no task runs it is the turn of the entry that is ready first. -/
theorem tick_of_idle (hr : m.running = none) (hq : m.isQuiet = false) :
    ∃ h rest, m.ready = h :: rest ∧ m.tick program = ({ m with ready := rest } : Loop).handle h := by
  cases hready : m.ready with
  | nil => simp [isQuiet, hr, hready] at hq
  | cons h rest => exact ⟨h, rest, rfl, by simp only [Machine.tick, hr, hready]⟩

/-- What is waited for is there. -/
theorem Deed.lt_size (hd : Deed role role' m t root called stack s usage) (f : FutureId) (F : Frame) (hawait : s.2 = .await f F) :
    f < s.1.futures.size := by
  have hmove := hd.does.move
  rw [hawait] at hmove
  cases hmove with
  | await hs ha hn => exact ha.lt_size

/-- A step of the running task leaves a reserved future alone that another task waits for. -/
theorem Stride.avoids (hs : Stride usage role m role' (m.tick program)) (hf : Fits role m usage) (hr : m.running = some x)
    (hw : role w = .reserved) {stack : List Frame} (hth : m.thread? u = some ⟨.waits w, stack⟩) (hc : ¬ m.Cancellable u) :
    Avoids w m (m.tick program) := by
  rcases hs.of_running hr with ⟨o, htick⟩ | ⟨root, called, stack, s, hd, htick⟩
  · rw [htick]
    exact endTask_avoids hf.tidy.sound hr (hf.tidy.special (by rw [hw]; exact Role.noConfusion)) o
  · rw [htick]
    exact (avoids_of_effect hd.does.effect id ne_reserved_of_wake hw (hf.waitsFor_ne hw hth hc)).trans
      (perform_avoids hd.does.tidy.sound (hd.does.effect.extends.running.trans hr) stack s.2 hd.lt_size)

end Loop

end DiagnosticsClient
