import DiagnosticsClient.Proofs.Session.Courses
import DiagnosticsClient.Proofs.Session.Invariants
/-
One task in a run.

For a task that has not ended a step is its turn to go on, or it rests while others do
(`Turn`). A task begins as a fresh one, and once it has ended it has ended for good, so
a fact about the thread of one task is proved by `IsRun.follow`: it has to hold of the
fresh thread, and each turn has to keep it.

A task that nobody outside cancelled, and that limits no other, is cancelled by nobody
(`IsRun.spares`): what it waits for at the lock or at a listener comes with a value.
-/
namespace DiagnosticsClient

open Async Async.Machine

/-- A frame that waits for this future at the lock, or at a listener, or for the end of a child. -/
def Frame.QueuesAt (f : FutureId) (F : Frame) : Prop := F = .locking f ∨ (∃ l, F = .getting l f) ∨ ∃ c, F = .exiting c

namespace Loop

variable {role role' : FutureId → Role} {m m' : Loop} {t u : TaskId} {f : FutureId} {root : Routine} {stack : List Frame}
  {o : Ending} {th : Thread Routine Frame Value Failure} {held : List ListenerId} {may : Licence Routine} {G : Frame}
  {rest : List Frame}

/-! ## Turns -/

/-- What a step is for a task that has not ended. -/
inductive Turn (role : FutureId → Role) (m : Loop) (u : TaskId) :
    Thread Routine Frame Value Failure → (FutureId → Role) → Loop → Prop
  /-- Others have their turn, or nobody has. -/
  | rests {th : Thread Routine Frame Value Failure} {role' : FutureId → Role} {m' : Loop} (idle : th.top.isIdle = true)
      (runs : ∀ x, m.running = some x → x.task ≠ u) (hth : m'.thread? u = some th) : Turn role m u th role' m'
  | awakes {th th' : Thread Routine Frame Value Failure} {m' : Loop} (how : m.Awakes u th th')
      (switch : m.Switch u (some th') m') : Turn role m u th role m'
  | ends {o : Ending} {m' : Loop} (outcome : m'.taskOutcome? u = some o) : Turn role m u ⟨.resumes o, []⟩ role m'
  | begins {role' : FutureId → Role} {r called root : Routine} {stack : List Frame} (runs : m.running = some (.begin u r stack))
      (valid : r.Valid m.routine?) (stands : r.StandsFor called) (how : Begins role m r called)
      (deed : Deed role role' m u root called stack (begin r m)) :
      Turn role m u ⟨.begins r, stack⟩ role' ((begin r m).1.perform u stack (begin r m).2)
  | resumes {o : Ending} {F : Frame} {called root : Routine} {stack : List Frame}
      (runs : m.running = some (.resume u o (F :: stack))) (serves : F.Serves m.routine? called) (gets : F.Gets m.state o)
      (how : Resumes role m o F called) (deed : Deed role role m u root called stack (resume F o m)) :
      Turn role m u ⟨.resumes o, F :: stack⟩ role ((resume F o m).1.perform u stack (resume F o m).2)

/-- Whoever does not act rests. -/
theorem Deed.rests {called : Routine} {s : Loop × Move} {x : Running Routine Frame Value Failure}
    (hd : Deed role role' m t root called stack s) (hf : Fits role m) (hr : m.running = some x) (hx : x.task = t) (hu : u ≠ t)
    (hth : m.thread? u = some th) : Turn role m u th role' (s.1.perform t stack s.2) := by
  have hne : ∀ y, m.running = some y → y.task ≠ u := by
    intro y hy
    rw [hr] at hy
    cases hy
    exact fun h => hu (h.symm.trans hx)
  refine .rests (isIdle_of_ne hth hne) hne ?_
  rw [hd.switch.other hu, hd.does.effect.extends.thread? hd.does.tidy.sound.owned (lt_size_of_thread? hf.tidy.sound hth), hth]

/-- **A step of the loop is a turn of a task, or it rests.** -/
theorem Tick.turn (ht : Tick role m role' m') (hf : Fits role m) (hf' : Fits role' m') (hth : m.thread? u = some th) :
    Turn role m u th role' m' := by
  have hrest : m.running = none → m'.thread? u = some th → Turn role m u th role' m' := fun hnone hth' =>
    have hne : ∀ x, m.running = some x → x.task ≠ u := fun x hx => by rw [hnone] at hx; cases hx
    .rests (isIdle_of_ne hth hne) hne hth'
  cases ht with
  | @awakes _ t _ _ idle hawake how switch =>
    by_cases hu : u = t
    · subst hu
      cases hth.symm.trans hawake
      exact .awakes how switch
    · exact hrest idle ((switch.other hu).trans hth)
  | passes idle he hstate => exact hrest idle ((he.thread? hf'.tidy.sound.owned (lt_size_of_thread? hf.tidy.sound hth)).trans hth)
  | @ends _ t o runs switch outcome =>
    by_cases hu : u = t
    · subst hu
      cases hth.symm.trans (thread?_of_running runs)
      exact .ends outcome
    · have hne : ∀ x, m.running = some x → x.task ≠ u := by
        intro x hx
        rw [runs] at hx
        cases hx
        exact Ne.symm hu
      exact .rests (isIdle_of_ne hth hne) hne ((switch.other hu).trans hth)
  | @begins _ t _ _ _ _ runs valid stands how deed =>
    by_cases hu : u = t
    · subst hu
      cases hth.symm.trans (thread?_of_running runs)
      exact .begins runs valid stands how deed
    · exact deed.rests hf runs rfl hu hth
  | @resumes t _ _ _ _ _ runs serves gets woke how deed =>
    by_cases hu : u = t
    · subst hu
      cases hth.symm.trans (thread?_of_running runs)
      exact .resumes runs serves gets how deed
    · exact deed.rests hf runs rfl hu hth

theorem Turn.of_begins {r : Routine} (h : Turn role m u ⟨.begins r, stack⟩ role' m') :
    m.running = some (.begin u r stack) ∧ r.Valid m.routine? ∧ ∃ called root, r.StandsFor called ∧ Begins role m r called ∧
      Deed role role' m u root called stack (begin r m) ∧ m' = (begin r m).1.perform u stack (begin r m).2 := by
  cases h with
  | rests idle => cases idle
  | awakes how => cases how
  | begins runs valid stands how deed => exact ⟨runs, valid, _, _, stands, how, deed, rfl⟩

theorem Turn.of_resumes {F : Frame} (h : Turn role m u ⟨.resumes o, F :: stack⟩ role' m') :
    role' = role ∧ m.running = some (.resume u o (F :: stack)) ∧ ∃ called root, F.Serves m.routine? called ∧
      Resumes role m o F called ∧ Deed role role m u root called stack (resume F o m) ∧
      m' = (resume F o m).1.perform u stack (resume F o m).2 := by
  cases h with
  | rests idle => cases idle
  | awakes how => cases how
  | resumes runs serves gets how deed => exact ⟨rfl, runs, _, _, serves, how, deed, rfl⟩

theorem Turn.course (h : Turn role m u th role' m') : Course .session role m u th role' m' := by
  cases h with
  | rests idle runs hth => exact .rests idle runs hth
  | awakes how switch => exact .awakes how switch
  | ends outcome => exact .ends outcome
  | begins runs valid stands how deed => exact .begins runs stands deed
  | resumes runs serves gets how deed => exact .resumes runs serves gets deed

theorem Turn.of_ends (h : Turn role m u ⟨.resumes o, []⟩ role' m') : m'.taskOutcome? u = some o := h.course.of_ends

/-- A task goes on, or has ended. -/
theorem Turn.onward (h : Turn role m u th role' m') : (∃ th', m'.thread? u = some th') ∨ ∃ o, m'.taskOutcome? u = some o := by
  cases h with
  | rests _ _ hth' => exact .inl ⟨_, hth'⟩
  | awakes _ switch => exact .inl ⟨_, switch.self⟩
  | ends outcome => exact .inr ⟨_, outcome⟩
  | begins _ _ _ _ deed => exact .inl ⟨_, deed.switch.self⟩
  | resumes _ _ _ _ deed => exact .inl ⟨_, deed.switch.self⟩

/-- What is below in a stack stays, until the task goes on with it. -/
theorem Turn.beneath (ht : Turn role m u th role' m') (hsuffix : G :: rest <:+ th.stack) :
    (∃ o, th = ⟨.resumes o, G :: rest⟩) ∨ ∃ th', m'.thread? u = some th' ∧ G :: rest <:+ th'.stack :=
  ht.course.beneath hsuffix

/-! ## Beginning and ending -/

theorem Tick.keeps (ht : Tick role m role' m') : m.Keeps m' := ht.stride.keeps

/-- A task that was not there before is fresh. -/
theorem Tick.fresh (ht : Tick role m role' m') (hf : Fits role m) (hf' : Fits role' m') (hn : m.routine? u = none)
    (hr : m'.routine? u = some root) : m'.thread? u = some ⟨.fresh root, []⟩ :=
  ht.stride.fresh hf hf' hn hr

/-- A task that was not there before is one of the session's own, or somebody begins to limit its time, or it is a member of
a check. -/
theorem Tick.born (ht : Tick role m role' m') (hn : m.routine? u = none) (hr : m'.routine? u = some root) :
    root.isOwn = true ∨ (root.isInner = true ∧ ∃ t limit stack, m.running = some (.begin t (.within limit root) stack)) ∨
      (root.isMember = true ∧ ∃ t r, m.routine? t = some r ∧ r.gathers = true) := by
  have hborn : ∀ {m₁ : Loop} {may : Licence Routine}, m.Extends may m₁ → m₁.routine? u = some root → may.spawn root := by
    intro m₁ may he hr
    obtain ⟨task, htask, rfl⟩ := Option.map_eq_some_iff.mp hr
    rcases he.task_cases htask with ⟨task', held, htask', -, -⟩ | ⟨-, hspawn, -⟩
    · rw [Machine.routine?, htask'] at hn
      cases hn
    · exact hspawn
  have hgathers : ∀ {t : TaskId} {root called : Routine} {stack : List Frame}, m.routine? t = some root →
      Stacked m.routine? root called stack → called.gathers = true → ∃ t r, m.routine? t = some r ∧ r.gathers = true := by
    intro t root called stack hroot hstack hgathers
    cases hstack with
    | nil => exact ⟨t, _, hroot, hgathers⟩
    | cons hc => cases hc <;> cases hgathers
  cases ht with
  | awakes _ _ _ switch => cases hn.symm.trans ((switch.routine u).symm.trans hr)
  | passes _ he _ => exact (hborn he hr).elim
  | ends _ switch _ => cases hn.symm.trans ((switch.routine u).symm.trans hr)
  | begins runs _ stands _ deed =>
    rcases hborn deed.does.effect.extends ((deed.switch.routine u).symm.trans hr) with hown | ⟨hinner, limit, rfl⟩ | ⟨hmember, hg⟩
    · exact .inl hown
    · cases stands
      exact .inr (.inl ⟨hinner, _, limit, _, runs⟩)
    · exact .inr (.inr ⟨hmember, hgathers deed.made deed.stacked hg⟩)
  | resumes _ serves _ _ how deed =>
    have hr' := (deed.switch.routine u).symm.trans hr
    rcases hborn deed.does.effect.extends hr' with hown | ⟨hinner, limit, rfl⟩ | ⟨hmember, hg⟩
    · exact .inl hown
    · -- who goes on with a limit on time makes no task
      cases how with
      | minor hd he => exact .inl (hborn he.extends hr')
      | mild hd => cases hd
      | releasing hcalled => rcases hcalled with h | ⟨l, h⟩ <;> cases h
    · exact .inr (.inr ⟨hmember, hgathers deed.made deed.stacked hg⟩)

/-- A task that has ended has ended for good. -/
theorem Tick.ended (ht : Tick role m role' m') (hf : Fits role m) (hf' : Fits role' m') (ho : m.taskOutcome? u = some o) :
    m'.taskOutcome? u = some o :=
  ht.stride.ended hf hf' ho

/-! ## Cancellations -/

/-- No cancellation of a task is held back, and what it waits for in a queue comes with a value. -/
structure Spares (m : Loop) (u : TaskId) : Prop where
  free : ¬ m.IsHeld u
  granted : ∀ {f F stack o}, m.thread? u = some ⟨.waits f, F :: stack⟩ → F.QueuesAt f → m.outcome? f = some o → ∃ v, o = .value v

/-- Whoever waits in a queue waits for a future of a special role. -/
theorem Fits.role_of_queuesAt {F : Frame} (hf : Fits role m) (hth : m.thread? u = some ⟨.waits f, F :: stack⟩)
    (hF : F.QueuesAt f) : m.IsPlain f ∧ (role f).isScheduled = false := by
  obtain ⟨root, -, hfits⟩ := hf.threads hth
  cases hfits with
  | waits _ hawaits =>
    rcases hF with rfl | ⟨l, rfl⟩ | ⟨c, rfl⟩
    · cases hawaits with
      | locking h => exact ⟨h.1, by rw [h.2]; rfl⟩
    · cases hawaits with
      | getting _ h => exact ⟨h.1, by rw [h.2]; rfl⟩
    · cases hawaits with
      | exiting h => exact ⟨h.1, by rw [h.2]; rfl⟩

/-- A new task is not cancelled by what only cancels others. -/
theorem Spares.fresh {T T' : FutureId → Prop} (he : m.Extends may m') (hs : m.Sound T) (hs' : m'.Sound T')
    (hn : m.routine? u = none) (hr : m'.routine? u = some root) (hc : ¬ may.cancel u) : m'.Spares u where
  free := by
    rintro ⟨task, htask, hheld⟩
    rcases he.task_cases htask with ⟨task', held, htask', -, -⟩ | ⟨-, -, -, -, hcancel⟩
    · rw [Machine.routine?, htask'] at hn
      cases hn
    · exact hc (hcancel hheld)
  granted hth := by cases (fresh_of_extends he hs hs' hn hr).symm.trans hth

theorem Spares.switch {th' : Option (Thread Routine Frame Value Failure)} (h : m.Spares u) (hf : Fits role m)
    (hs : m.Switch t th' m') (hself : u = t → ∀ f stack, th' ≠ some ⟨.waits f, stack⟩) : m'.Spares u where
  free hheld := h.free (hs.held hheld)
  granted hth hF ho := by
    by_cases hu : u = t
    · exact absurd (hs.self.symm.trans (hu ▸ hth)) (hself hu _ _)
    · rw [hs.other hu] at hth
      rw [hs.outcome (hf.role_of_queuesAt hth hF).1] at ho
      exact h.granted hth hF ho

/-- Nobody cancels a task by what only cancels others. -/
theorem Spares.extends (h : m.Spares u) (hf : Fits role m) (he : m.Extends may m') (hs' : m'.Owned) (hu : u < m.tasks.size)
    (htarget : ∀ {f}, may.target f → (role f).isScheduled = true) (hc : ¬ may.cancel u) : m'.Spares u where
  free := by
    rintro ⟨task, htask, hheld⟩
    rcases he.task_cases htask with ⟨task', held, htask', rfl, hor⟩ | ⟨hge, -⟩
    · rcases hor with rfl | ⟨hcancel, -⟩
      · exact h.free ⟨task', htask', hheld⟩
      · exact hc hcancel
    · exact Nat.not_lt_of_le hge hu
  granted {f F stack o} hth hF ho := by
    rw [he.thread? hs' hu] at hth
    obtain ⟨hplain, hrole⟩ := hf.role_of_queuesAt hth hF
    have hne : role f ≠ .other := fun hother => by
      rw [hother] at hrole
      cases hrole
    rcases he.settled ho with hold | ⟨-, hset⟩
    · exact h.granted hth hF hold
    · rcases hset hplain.lt_size with hother | ⟨-, hvalue⟩ | ⟨-, t, hcancel, hwaits⟩
      · cases hrole.symm.trans (htarget hother)
      · cases o with
        | value v => exact ⟨v, rfl⟩
        | _ => cases hvalue
      · -- only one task waits for a future of a special role
        obtain ⟨task, htask, hwait⟩ := Option.bind_eq_some_iff.mp hwaits
        obtain ⟨stack', hth'⟩ := hf.tidy.sound.waiting htask hwait
        exact absurd (hf.apart hne hth' hth ▸ hcancel) hc

theorem Deed.spares {called : Routine} {s : Loop × Move} (hd : Deed role role' m t root called stack s) (h : m.Spares u)
    (hf : Fits role m) (hf' : Fits role' (s.1.perform t stack s.2)) (hu : u < m.tasks.size) (hc : ¬ m.Cancellable u) :
    Spares (s.1.perform t stack s.2) u := by
  have hmid : s.1.Spares u := h.extends hf hd.does.effect.extends hd.does.tidy.sound.owned hu (congrArg Role.isScheduled ·) hc
  refine ⟨fun hheld => hmid.free (hd.switch.held hheld), fun {f F stack' o} hth hF ho => ?_⟩
  have hplain : s.1.IsPlain f := (hd.switch.owner f).symm.trans (hf'.role_of_queuesAt hth hF).1
  rw [hd.switch.outcome hplain] at ho
  by_cases hut : u = t
  · -- whoever goes to wait does so for a future without an outcome
    subst hut
    cases (outcome?_of_nextThread (Option.some.inj (hd.switch.self.symm.trans hth))).symm.trans ho
  · exact hmid.granted ((hd.switch.other hut).symm.trans hth) hF ho

/-- The session does not cancel what callers ask for. -/
theorem not_cancellable (hroot : m.routine? u = some root) (hinner : root.isInner = false) : ¬ m.Cancellable u := by
  rintro ⟨⟨r, hr, hinner', -⟩, -⟩
  cases hroot.symm.trans hr
  rw [hinner] at hinner'
  cases hinner'

/-- **A step of the loop spares a task that is not to be cancelled.** -/
theorem Spares.tick (h : m.Spares u) (hf : Fits role m) (hf' : Fits role' m') (ht : Tick role m role' m')
    (hroot : m.routine? u = some root) (hc : ¬ m.Cancellable u) : m'.Spares u := by
  have hu : u < m.tasks.size := by
    obtain ⟨task, htask, -⟩ := Option.map_eq_some_iff.mp hroot
    exact (Array.getElem?_eq_some_iff.mp htask).1
  cases ht with
  | awakes _ _ how switch =>
    refine h.switch hf switch fun _ f stack heq => ?_
    cases heq
    cases how
  | passes _ he _ => exact h.extends hf he hf'.tidy.sound.owned hu id id
  | ends _ switch _ => exact h.switch hf switch fun _ f stack heq => by cases heq
  | begins _ _ _ _ deed => exact deed.spares h hf hf' hu hc
  | resumes _ _ _ _ _ deed => exact deed.spares h hf hf' hu hc

/-- **And so it does with a new one.** -/
theorem Tick.spares (ht : Tick role m role' m') (hf : Fits role m) (hf' : Fits role' m') (hn : m.routine? u = none)
    (hr : m'.routine? u = some root) : m'.Spares u := by
  have hc : ¬ m.Cancellable u := fun h => by
    obtain ⟨⟨r, hroutine, -⟩, -⟩ := h
    cases hn.symm.trans hroutine
  have hdeed : ∀ {t : TaskId} {r called : Routine} {stack : List Frame} {s : Loop × Move},
      Deed role role' m t r called stack s → (s.1.perform t stack s.2).routine? u = some root →
      Spares (s.1.perform t stack s.2) u := fun hd hr => by
    rw [hd.switch.routine] at hr
    refine Spares.switch ?_ hd.fits hd.switch fun heq => ?_
    · exact .fresh hd.does.effect.extends hf.tidy.sound hd.does.tidy.sound hn hr hc
    · subst heq
      cases hn.symm.trans hd.made
  cases ht with
  | awakes _ _ _ switch => cases hn.symm.trans ((switch.routine u).symm.trans hr)
  | passes _ he _ => exact .fresh he hf.tidy.sound hf'.tidy.sound hn hr id
  | ends _ switch _ => cases hn.symm.trans ((switch.routine u).symm.trans hr)
  | begins _ _ _ _ deed => exact hdeed deed hr
  | resumes _ _ _ _ _ deed => exact hdeed deed hr

end Loop

section goes

variable {role role' : FutureId → Role} {a b : Moment} {past : List Moment} {u : TaskId} {root : Routine} {o : Ending}
  {th : Thread Routine Frame Value Failure}

/-- **A step is a turn of a task, or it rests.** -/
theorem Goes.turn (hg : Goes role a role' b) (ha : a.Holds role) (hb : b.Holds role') (hth : a.loop.thread? u = some th) :
    Loop.Turn role a.loop u th role' b.loop := by
  cases hg with
  | tick hq ht => exact ht.turn ha.fits hb.fits hth
  | stimulus hr hs =>
    have hne : ∀ x, a.loop.running = some x → x.task ≠ u := fun x hx => by rw [hr] at hx; cases hx
    have hw := Loop.apply_arrives ha.fits hr hs
    exact .rests (Loop.isIdle_of_ne hth hne) hne
      ((hw.extends_.thread? hw.tidy.sound.owned (lt_size_of_thread? ha.fits.tidy.sound hth)).trans hth)

theorem Goes.keeps (hg : Goes role a role' b) (ha : a.Holds role) : a.loop.Keeps b.loop := by
  cases hg with
  | tick hq ht => exact ht.keeps
  | stimulus hr hs => exact Loop.keeps_of_extends (Loop.apply_arrives ha.fits hr hs).extends_

theorem Goes.fresh (hg : Goes role a role' b) (ha : a.Holds role) (hb : b.Holds role') (hn : a.loop.routine? u = none)
    (hr : b.loop.routine? u = some root) : b.loop.thread? u = some ⟨.fresh root, []⟩ := by
  cases hg with
  | tick hq ht => exact ht.fresh ha.fits hb.fits hn hr
  | stimulus hnot hs =>
    have hw := Loop.apply_arrives ha.fits hnot hs
    exact Loop.fresh_of_extends hw.extends_ ha.fits.tidy.sound hw.tidy.sound hn hr

theorem Goes.ended (hg : Goes role a role' b) (ha : a.Holds role) (hb : b.Holds role')
    (ho : a.loop.taskOutcome? u = some o) : b.loop.taskOutcome? u = some o := by
  cases hg with
  | tick hq ht => exact ht.ended ha.fits hb.fits ho
  | stimulus hr hs =>
    have hw := Loop.apply_arrives ha.fits hr hs
    obtain ⟨task, htask, -⟩ := Option.bind_eq_some_iff.mp ho
    exact (hw.extends_.taskOutcome? hw.tidy.sound.owned (Array.getElem?_eq_some_iff.mp htask).1).trans ho

theorem Goes.cancelled (hg : Goes role a role' b) : a.cancelled ⊆ b.cancelled := by
  cases hg with
  | tick => exact fun _ h => h
  | @stimulus s _ _ =>
    cases s with
    | cancel t => exact List.subset_append_left _ _
    | _ => exact fun _ h => h

/-- A task that was not there before was asked for, or is one of the session's own, or somebody begins to limit its time, or it
is a member of a check. -/
theorem Goes.born (hg : Goes role a role' b) (ha : a.Holds role) (hn : a.loop.routine? u = none)
    (hr : b.loop.routine? u = some root) : root.isAsked = true ∨ root.isOwn = true ∨
      (root.isInner = true ∧ ∃ t limit stack, a.loop.running = some (.begin t (.within limit root) stack)) ∨
      (root.isMember = true ∧ ∃ t r, a.loop.routine? t = some r ∧ r.gathers = true) := by
  cases hg with
  | tick hq ht => exact .inr (ht.born hn hr)
  | @stimulus s hnot hs =>
    obtain ⟨task, htask, rfl⟩ := Option.map_eq_some_iff.mp hr
    rcases (Loop.apply_arrives ha.fits hnot hs).extends_.task_cases htask with ⟨task', held, htask', -, -⟩ | ⟨-, hspawn, -⟩
    · rw [Machine.routine?, htask'] at hn
      cases hn
    · rcases hspawn with rfl | hspawn
      · exact .inl hs.1
      · exact .inr (.inl hspawn)

theorem Goes.step (hg : Goes role a role' b) : Step a b := by
  cases hg with
  | tick hq => exact .tick hq
  | stimulus hr hs => exact .stimulus hr hs

/-- A step leaves a reserved future alone, or it is the turn of an entry, or time passes. -/
theorem Goes.avoids {w : FutureId} {stack : List Frame} (hg : Goes role a role' b) (ha : a.Holds role) (hw : role w = .reserved)
    (hth : a.loop.thread? u = some ⟨.waits w, stack⟩) (hroot : a.loop.routine? u = some root) (hinner : root.isInner = false)
    (hc : u ∉ b.cancelled) :
    Avoids w a.loop b.loop ∨ a.loop.running = none ∧
      ((∃ h rest, a.loop.ready = h :: rest ∧ b.loop = ({ a.loop with ready := rest } : Loop).handle h) ∨
        ∃ now, b.loop = a.loop.setTime now) := by
  cases hg with
  | tick hq ht =>
    cases hr : a.loop.running with
    | some x => exact .inl (ht.stride.avoids ha.fits hr hw hth (Loop.not_cancellable hroot hinner))
    | none => exact .inr ⟨rfl, .inl (Loop.tick_of_idle hr hq)⟩
  | @stimulus s hr hs =>
    by_cases htime : ∃ time, s = .advance time
    · obtain ⟨time, rfl⟩ := htime
      exact .inr ⟨hr, .inr ⟨_, rfl⟩⟩
    · have hworks := Loop.apply_works ha.fits hr hs fun time h => htime ⟨time, h⟩
      refine .inl (Loop.avoids_of_effect hworks.effect id Loop.ne_reserved_of_wake hw (ha.fits.waitsFor_ne hw hth ?_))
      rintro (rfl | hcancel)
      · exact hc (List.mem_append_right _ (List.mem_singleton.mpr rfl))
      · exact Loop.not_cancellable hroot hinner hcancel

/-- Who has ended is not running. -/
theorem Moment.Holds.task_ne_of_ended (hb : b.Holds role) (ho : b.loop.taskOutcome? u = some o) :
    ∀ x, b.loop.running = some x → x.task ≠ u := by
  rintro x hx rfl
  cases ho.symm.trans (hb.fits.tidy.sound.taskOutcome?_of_thread? (thread?_of_running hx))

/-- A task that is not there yet had no thread before. -/
theorem IsRun.unborn (h : IsRun (a :: past)) (hn : a.loop.routine? u = none) : ∀ c ∈ a :: past, c.loop.thread? u = none := by
  have hnone : a.loop.thread? u = none := by
    obtain ⟨role, hholds⟩ := h.holds
    refine Option.eq_none_iff_forall_ne_some.mpr fun th hth => ?_
    obtain ⟨r, hr, -⟩ := hholds.fits.threads hth
    cases hn.symm.trans hr
  induction past generalizing a with
  | nil =>
    intro c hc
    rw [List.mem_singleton.mp hc]
    exact hnone
  | cons b past ih =>
    obtain ⟨hb, role, role', hholds, -, hgoes⟩ := h.lastStep
    have hbefore : b.loop.routine? u = none := by
      cases hroot : b.loop.routine? u with
      | none => rfl
      | some r => cases hn.symm.trans ((hgoes.keeps hholds).routine hroot)
    intro c hc
    rcases List.mem_cons.mp hc with rfl | hc
    · exact hnone
    · refine ih hb hbefore (Option.eq_none_iff_forall_ne_some.mpr fun th hth => ?_) c hc
      obtain ⟨r, hr, -⟩ := hholds.fits.threads hth
      cases hbefore.symm.trans hr

/-- **Following a task through a run.** What holds of its fresh thread and is kept by every turn holds of its thread, and
what follows when it ends holds from then on. -/
theorem IsRun.follow {P : Moment → List Moment → Thread Routine Frame Value Failure → Prop}
    {Q : Moment → List Moment → Ending → Prop}
    (hfresh : ∀ {a past}, (∀ c ∈ past, c.loop.thread? u = none) → a.loop.thread? u = some ⟨.fresh root, []⟩ →
      P a past ⟨.fresh root, []⟩)
    (hturn : ∀ {role role' a b past th}, IsRun (a :: past) → a.Holds role → b.Holds role' → Goes role a role' b →
      a.loop.thread? u = some th → a.loop.routine? u = some root → Loop.Turn role a.loop u th role' b.loop → P a past th →
      (∃ th', b.loop.thread? u = some th' ∧ P b (a :: past) th') ∨
        ∃ o, b.loop.taskOutcome? u = some o ∧ Q b (a :: past) o)
    (hended : ∀ {role role' a b past o}, IsRun (a :: past) → a.Holds role → b.Holds role' → Goes role a role' b →
      a.loop.taskOutcome? u = some o → Q a past o → Q b (a :: past) o)
    (h : IsRun (a :: past)) (hroot : a.loop.routine? u = some root) :
    (∃ th, a.loop.thread? u = some th ∧ P a past th) ∨ ∃ o, a.loop.taskOutcome? u = some o ∧ Q a past o := by
  induction past generalizing a with
  | nil =>
    cases h with
    | new hm => cases hm.isEmpty.routine?.symm.trans hroot
  | cons b past ih =>
    obtain ⟨hb, role, role', hholds, hholds', hgoes⟩ := h.lastStep
    cases hbefore : b.loop.routine? u with
    | none =>
      have hth := hgoes.fresh hholds hholds' hbefore hroot
      exact .inl ⟨_, hth, hfresh (hb.unborn hbefore) hth⟩
    | some r =>
      cases ((hgoes.keeps hholds).routine hbefore).symm.trans hroot
      rcases ih hb hbefore with ⟨th, hth, hp⟩ | ⟨o, ho, hq⟩
      · exact hturn hb hholds hholds' hgoes hth hbefore (hgoes.turn hholds hholds' hth) hp
      · exact .inr ⟨o, hgoes.ended hholds hholds' ho, hended hb hholds hholds' hgoes ho hq⟩

/-- Who may not be cancelled in a step is not. -/
theorem Goes.spares (hg : Goes role a role' b) (ha : a.Holds role) (hb : b.Holds role') (hroot : b.loop.routine? u = some root)
    (hc : u ∉ b.cancelled) (hn : ¬ a.loop.Cancellable u) (h : ∀ r, a.loop.routine? u = some r → a.loop.Spares u) :
    b.loop.Spares u := by
  have hkeeps := hg.keeps ha
  cases hg with
  | tick hq ht =>
    cases hbefore : a.loop.routine? u with
    | none => exact ht.spares ha.fits hb.fits hbefore hroot
    | some r => exact (h r hbefore).tick ha.fits hb.fits ht hbefore hn
  | @stimulus s hr hs =>
    have hw := Loop.apply_arrives ha.fits hr hs
    have hno : ¬ a.loop.MayCancel s u := by
      rintro (rfl | hcancel)
      · exact hc (List.mem_append_right _ (List.mem_singleton.mpr rfl))
      · exact hn hcancel
    cases hbefore : a.loop.routine? u with
    | none => exact .fresh hw.extends_ ha.fits.tidy.sound hw.tidy.sound hbefore hroot hno
    | some r =>
      obtain ⟨task, htask, -⟩ := Option.map_eq_some_iff.mp hbefore
      exact (h r hbefore).extends ha.fits hw.extends_ hw.tidy.sound.owned (Array.getElem?_eq_some_iff.mp htask).1 id hno

/-- A task that the session may not cancel, and callers have not cancelled, is cancelled by nobody. -/
theorem IsRun.spares_of_not_cancellable (h : IsRun (a :: past)) (hroot : a.loop.routine? u = some root)
    (hc : u ∉ a.cancelled) (hn : ∀ b ∈ past, ¬ b.loop.Cancellable u) : a.loop.Spares u := by
  induction past generalizing a root with
  | nil =>
    cases h with
    | new hm => cases hm.isEmpty.routine?.symm.trans hroot
  | cons b past ih =>
    obtain ⟨hb, role, role', hholds, hholds', hgoes⟩ := h.lastStep
    exact hgoes.spares hholds hholds' hroot hc (hn b List.mem_cons_self) fun r hbefore =>
      ih hb hbefore (fun hmem => hc (hgoes.cancelled hmem)) fun c hmem => hn c (List.mem_cons_of_mem _ hmem)

/-- What a task was made for stays known. -/
theorem IsRun.routine_of_mem (h : IsRun (a :: past)) {r : Routine} (hb : b ∈ past) (hr : b.loop.routine? u = some r) :
    a.loop.routine? u = some r := by
  induction past generalizing a with
  | nil => cases hb
  | cons c past ih =>
    obtain ⟨hc, role, role', hholds, -, hgoes⟩ := h.lastStep
    refine (hgoes.keeps hholds).routine ?_
    rcases List.mem_cons.mp hb with rfl | hb
    · exact hr
    · exact ih hc hb

/-- **Nobody cancels a task behind its caller's back**, unless it is one whose time is limited. -/
theorem IsRun.spares (h : IsRun (a :: past)) (hroot : a.loop.routine? u = some root) (hinner : root.isInner = false)
    (hc : u ∉ a.cancelled) : a.loop.Spares u := by
  refine h.spares_of_not_cancellable hroot hc fun b hb hcancel => ?_
  obtain ⟨⟨r, hr, -⟩, -⟩ := id hcancel
  cases (h.routine_of_mem hb hr).symm.trans hroot
  exact Loop.not_cancellable hr hinner hcancel

end goes

end DiagnosticsClient
