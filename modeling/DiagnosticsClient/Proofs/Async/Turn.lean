import DiagnosticsClient.Proofs.Async.Effect
/-
What one step of a machine does.

A step is the turn of an entry of the ready queue, or the next thing the
running task does. Either way it moves one thread and no other (`Switch`): an
entry's turn sets a fresh or waiting task going, and the running task goes on,
waits, or ends. Only the turn of an entry that names no task moves none, and
is an extension.

`tick_of_not_running` and `tick_of_running` have all cases; both keep the queues
in order, given that what the program does is an effect.
-/
namespace DiagnosticsClient

namespace Async

namespace Machine

variable {σ ρ φ ν ε : Type} {m m' m'' : Machine σ ρ φ ν ε} {t u : TaskId} {f g : FutureId} {may : Licence ρ}
  {T : FutureId → Prop} {x y : Running ρ φ ν ε} {th : Option (Thread ρ φ ν ε)}

/-- One thread moves and no other; nothing is settled but perhaps the future of its task. -/
structure Switch (t : TaskId) (th : Option (Thread ρ φ ν ε)) (m m' : Machine σ ρ φ ν ε) : Prop where
  state : m'.state = m.state
  size : m'.tasks.size = m.tasks.size
  room : m'.futures.size = m.futures.size
  owner : ∀ f, m'.owner? f = m.owner? f
  routine : ∀ u, m'.routine? u = m.routine? u
  held : ∀ {u}, m'.IsHeld u → m.IsHeld u
  self : m'.thread? t = th
  other : ∀ {u}, u ≠ t → m'.thread? u = m.thread? u
  task : ∀ {u}, u ≠ t → m'.tasks[u]? = m.tasks[u]?
  ended : ∀ {u}, u ≠ t → m'.taskOutcome? u = m.taskOutcome? u
  outcome : ∀ {f}, m.IsPlain f → m'.outcome? f = m.outcome? f

theorem Switch.view_self {α : Type} {see : Thread ρ φ ν ε → Option α} (h : m.Switch t th m') : m'.view see t = th.bind see := by
  rw [Machine.view, h.self]

theorem Switch.view_other {α : Type} {see : Thread ρ φ ν ε → Option α} (h : m.Switch t th m') (hu : u ≠ t) :
    m'.view see u = m.view see u := by
  rw [Machine.view, Machine.view, h.other hu]

/-- A cancellation that is held back stays so while another task moves. -/
theorem Switch.isHeld (h : m.Switch t th m') (hu : u ≠ t) (hheld : m.IsHeld u) : m'.IsHeld u := by
  obtain ⟨task, htask, hcancel⟩ := hheld
  exact ⟨task, (h.task hu).trans htask, hcancel⟩

/-! ## An entry's turn -/

/-- The turn of an entry sets the task it names going. -/
structure Claims (h : Handle ν ε) (t : TaskId) (x : Running ρ φ ν ε) (m m' : Machine σ ρ φ ν ε) : Prop where
  idle : m.running = none
  ready : m.ready = h :: m'.ready
  names : h.task? = some t
  runs : m'.running = some x
  task : x.task = t
  state : m'.state = m.state
  futures : m'.futures = m.futures
  timers : m'.timers = m.timers
  groups : m'.groups = m.groups
  size : m'.tasks.size = m.tasks.size
  self : ∃ task, m.tasks[t]? = some task ∧
    m'.tasks[t]? = some { task with waiting := none, mustCancel := false }
  other : ∀ {u}, u ≠ t → m'.tasks[u]? = m.tasks[u]?

namespace Claims

variable {h : Handle ν ε}

theorem outcome (hc : Claims h t x m m') (f : FutureId) : m'.outcome? f = m.outcome? f := by
  unfold Machine.outcome?
  rw [hc.futures]

theorem isSettled (hc : Claims h t x m m') (f : FutureId) : m'.isSettled f = m.isSettled f := by
  unfold Machine.isSettled
  rw [hc.outcome]

theorem owner (hc : Claims h t x m m') (f : FutureId) : m'.owner? f = m.owner? f := by
  unfold Machine.owner?
  rw [hc.futures]

theorem callbacks (hc : Claims h t x m m') (f : FutureId) : m'.callbacksOf f = m.callbacksOf f := by
  unfold Machine.callbacksOf
  rw [hc.futures]

theorem thread_self (hc : Claims h t x m m') : m'.thread? t = some x.thread := by
  rw [← hc.task]
  exact thread?_of_running hc.runs

theorem thread_other (hc : Claims h t x m m') (hu : u ≠ t) : m'.thread? u = m.thread? u := by
  rw [thread?_of_ne hc.runs (by rw [hc.task]; exact hu.symm), thread?_of_not_running hc.idle]
  exact idle?_congr (hc.other hu) fun _ => hc.isSettled _

theorem task_cases (hc : Claims h t x m m') {task : Task ρ φ} (htask : m'.tasks[u]? = some task) :
    ∃ task', m.tasks[u]? = some task' ∧ task.future = task'.future ∧ task.routine = task'.routine ∧
      (u = t ∧ task.waiting = none ∧ task.mustCancel = false ∨ u ≠ t ∧ task = task') := by
  by_cases hu : u = t
  · subst hu
    obtain ⟨task', h, h'⟩ := hc.self
    rw [h'] at htask
    cases htask
    exact ⟨task', h, rfl, rfl, .inl ⟨rfl, rfl, rfl⟩⟩
  · rw [hc.other hu] at htask
    exact ⟨task, htask, rfl, rfl, .inr ⟨hu, rfl⟩⟩

theorem future_of_task (hc : Claims h t x m m') {task : Task ρ φ} (htask : m.tasks[u]? = some task) :
    ∃ task', m'.tasks[u]? = some task' ∧ task'.future = task.future ∧ task'.routine = task.routine := by
  by_cases hu : u = t
  · subst hu
    obtain ⟨task', h, h'⟩ := hc.self
    rw [h] at htask
    cases htask
    exact ⟨_, h', rfl, rfl⟩
  · exact ⟨task, by rw [hc.other hu, htask], rfl, rfl⟩

theorem switch (hc : Claims h t x m m') : m.Switch t (some x.thread) m' where
  state := hc.state
  size := hc.size
  room := by rw [hc.futures]
  owner := hc.owner
  routine u := by
    unfold routine?
    cases hu : m.tasks[u]? with
    | none =>
      have hge : m'.tasks.size ≤ u := by rw [hc.size]; exact Array.getElem?_eq_none_iff.mp hu
      rw [Array.getElem?_eq_none hge]
    | some task =>
      obtain ⟨task', hu', -, hroutine⟩ := hc.future_of_task hu
      simp [hu', hroutine]
  held {u} := by
    rintro ⟨task, htask, hheld⟩
    obtain ⟨task', htask', -, -, hor⟩ := hc.task_cases htask
    rcases hor with ⟨-, -, hno⟩ | ⟨-, rfl⟩
    · rw [hno] at hheld
      cases hheld
    · exact ⟨_, htask', hheld⟩
  self := hc.thread_self
  other := hc.thread_other
  task := hc.other
  ended hu := by
    unfold taskOutcome?
    simp only [hc.other hu, hc.outcome]
  outcome _ := hc.outcome _

/-- The task named has not ended. -/
theorem unsettled (hc : Claims h t x m m') (hs : m.Sound T) {task : Task ρ φ} (htask : m.tasks[t]? = some task) :
    m.isSettled task.future = false := by
  have hsome : ∃ th, m.thread? t = some th := by
    have hmem : h ∈ m.ready := by rw [hc.ready]; exact List.mem_cons_self
    cases h with
    | start u =>
      cases hc.names
      obtain ⟨r, hfresh⟩ := hs.woken.start.mp hmem
      exact ⟨_, hfresh⟩
    | notify c f =>
      cases c with
      | wake u =>
        cases hc.names
        obtain ⟨-, stack, hwaits⟩ := hs.woken.notify.mp hmem
        exact ⟨_, hwaits⟩
      | release w => cases hc.names
      | tally g => cases hc.names
    | expire w => cases hc.names
    | deliver f o => cases hc.names
  obtain ⟨th, hth⟩ := hsome
  rw [thread?_of_not_running hc.idle] at hth
  cases hset : m.isSettled task.future with
  | false => rfl
  | true => simp [idle?, htask, hset] at hth

theorem sound (hc : Claims h t x m m') (hs : m.Sound T) : m'.Sound T := by
  have hmem : h ∈ m.ready := by rw [hc.ready]; exact List.mem_cons_self
  have hnodup : (t :: m'.ready.filterMap Handle.task?).Nodup := by
    have hready := hs.woken.readyNodup
    rwa [hc.ready, List.filterMap_cons_some hc.names] at hready
  -- the entries that are left do not name the task
  have hrest : ∀ {h' : Handle ν ε} {u}, h'.task? = some u → (h' ∈ m'.ready ↔ h' ∈ m.ready ∧ u ≠ t) := by
    intro h' u hu
    rw [hc.ready, List.mem_cons]
    constructor
    · intro hmem'
      refine ⟨.inr hmem', ?_⟩
      rintro rfl
      exact (List.nodup_cons.mp hnodup).1 (List.mem_filterMap.mpr ⟨h', hmem', hu⟩)
    · rintro ⟨rfl | hmem', hne⟩
      · rw [hc.names] at hu
        cases hu
        exact absurd rfl hne
      · exact hmem'
  have htop : ∀ {top : Top ρ ν ε} {stack}, m'.thread? t = some ⟨top, stack⟩ → x.thread.top = top := by
    intro top stack hth
    rw [hc.thread_self] at hth
    exact congrArg Thread.top (Option.some.inj hth)
  have hfresh : ∀ {r : ρ}, x.thread.top ≠ .fresh r := by
    intro r
    cases x <;> simp [Running.thread]
  have hwaits : ∀ {f}, x.thread.top ≠ .waits f := by
    intro f
    cases x <;> simp [Running.thread]
  refine ⟨⟨?_, ?_⟩, ⟨?_, ?_, ?_, ?_⟩, ⟨?_, ?_, ?_, ?_, ?_, ?_⟩, ?_, ?_⟩
  · intro u task htask
    obtain ⟨task', htask', hfut, -, -⟩ := hc.task_cases htask
    rw [hc.owner, hfut, hs.owned.future htask']
  · intro f u hf
    obtain ⟨task, htask, rfl⟩ := hs.owned.task (hc.owner f ▸ hf)
    obtain ⟨task', htask', hfut, -⟩ := hc.future_of_task htask
    exact ⟨task', htask', hfut⟩
  · intro h' f hmem' hf
    rw [IsPlain, hc.owner]
    exact hs.targets.ready (by rw [hc.ready]; exact List.mem_cons_of_mem _ hmem') hf
  · intro f c g hmem' hg
    rw [IsPlain, hc.owner]
    exact hs.targets.callbacks (hc.callbacks f ▸ hmem') hg
  · intro i hmem'
    rw [IsPlain, hc.owner]
    exact hs.targets.timers (hc.timers ▸ hmem')
  · intro i hmem'
    rw [IsPlain, hc.owner]
    exact hs.targets.groups (hc.groups ▸ hmem')
  · intro f hf
    rw [hc.callbacks, hs.woken.settled (hc.isSettled f ▸ hf)]
  · exact (List.nodup_cons.mp hnodup).2
  · intro f
    rw [hc.callbacks]
    exact hs.woken.callbacksNodup
  · intro u
    rw [hrest rfl, hs.woken.start]
    by_cases hu : u = t
    · subst hu
      simp only [ne_eq, not_true, and_false, false_iff]
      rintro ⟨r, hth⟩
      exact hfresh (htop hth)
    · simp [hc.thread_other hu, hu]
  · intro u f
    rw [hrest rfl, hs.woken.notify, hc.isSettled]
    by_cases hu : u = t
    · subst hu
      simp only [ne_eq, not_true, and_false, false_iff]
      rintro ⟨-, stack, hth⟩
      exact hwaits (htop hth)
    · simp [hc.thread_other hu, hu]
  · intro u f
    rw [hc.callbacks, hs.woken.wake, hc.isSettled]
    by_cases hu : u = t
    · subst hu
      have hnot : ¬ (m.isSettled f = false ∧ ∃ stack, m'.thread? u = some ⟨.waits f, stack⟩) := by
        rintro ⟨-, stack, hth⟩
        exact hwaits (htop hth)
      refine iff_of_false ?_ hnot
      rintro ⟨hun, stack, hth⟩
      -- the entry named the task because it is fresh, or because what it waits for is settled
      cases h with
      | start v =>
        cases hc.names
        obtain ⟨r, hth'⟩ := hs.woken.start.mp hmem
        rw [hth] at hth'
        cases hth'
      | notify c g =>
        cases c with
        | wake v =>
          cases hc.names
          obtain ⟨hset, stack', hth'⟩ := hs.woken.notify.mp hmem
          rw [hth] at hth'
          cases hth'
          rw [hun] at hset
          cases hset
        | release w => cases hc.names
        | tally i => cases hc.names
      | expire w => cases hc.names
      | deliver i o => cases hc.names
    · rw [hc.thread_other hu]
  · intro y hy
    obtain ⟨task, htask, htask'⟩ := hc.self
    rw [hc.runs] at hy
    cases hy
    rw [hc.task]
    have hun := hc.unsettled hs htask
    refine ⟨_, htask', ?_, rfl⟩
    rw [hc.isSettled]
    exact hun
  · intro u task f htask hwait
    obtain ⟨task', htask', -, -, hor⟩ := hc.task_cases htask
    rcases hor with ⟨-, hnone, -⟩ | ⟨hu, rfl⟩
    · rw [hnone] at hwait
      cases hwait
    · rw [hc.thread_other hu]
      exact hs.waiting htask' hwait

end Claims

/-- The thread of a task that does not run and has not ended, in terms of its task. -/
theorem exists_task_of_thread? (hr : m.running = none) {th : Thread ρ φ ν ε} (h : m.thread? t = some th) :
    ∃ task, m.tasks[t]? = some task ∧ m.isSettled task.future = false ∧
      (task.stack = none ∧ th = ⟨.fresh task.routine, []⟩ ∨
        ∃ stack f, task.stack = some stack ∧ task.waiting = some f ∧ th = ⟨.waits f, stack⟩) := by
  rw [thread?_of_not_running hr] at h
  unfold idle? at h
  cases htask : m.tasks[t]? with
  | none => simp [htask] at h
  | some task =>
    simp only [htask] at h
    split at h
    · cases h
    · next hset =>
      refine ⟨task, rfl, Bool.eq_false_iff.mpr hset, ?_⟩
      split at h
      · next _ hstack => exact .inl ⟨hstack, (Option.some.inj h).symm⟩
      · next hstack hwait => exact .inr ⟨_, _, hstack, hwait, (Option.some.inj h).symm⟩
      · cases h

theorem modifyTask_getElem?_self {c : Task ρ φ → Task ρ φ} {task : Task ρ φ} (h : m.tasks[t]? = some task) :
    (m.modifyTask t c).tasks[t]? = some (c task) := by
  simp [modifyTask, Array.getElem?_modify, h]

theorem modifyTask_getElem?_of_ne {c : Task ρ φ → Task ρ φ} (h : u ≠ t) :
    (m.modifyTask t c).tasks[u]? = m.tasks[u]? := by
  simp [modifyTask, Array.getElem?_modify, h.symm]

/-- The first turn of a task. -/
theorem startTask_claims (hs : m.Sound T) (hr : m.running = none) {rest : List (Handle ν ε)}
    (hready : m.ready = .start t :: rest) :
    ∃ r, m.thread? t = some ⟨.fresh r, []⟩ ∧
      ((¬ m.IsHeld t ∧ Claims (.start t) t (.begin t r []) m ({ m with ready := rest }.startTask t)) ∨
        (m.IsHeld t ∧ Claims (.start t) t (.resume t .cancelled []) m ({ m with ready := rest }.startTask t))) := by
  obtain ⟨r, hth⟩ := hs.woken.start.mp (hready ▸ List.mem_cons_self)
  obtain ⟨task, htask, -, hor⟩ := exists_task_of_thread? hr hth
  obtain ⟨hstack, heq⟩ : task.stack = none ∧ r = task.routine := by
    rcases hor with ⟨hstack, heq⟩ | ⟨_, _, -, -, heq⟩
    · cases heq
      exact ⟨hstack, rfl⟩
    · cases heq
  have hwait : task.waiting = none := by
    cases hw : task.waiting with
    | none => rfl
    | some f =>
      obtain ⟨stack, hth'⟩ := hs.waiting htask hw
      rw [hth] at hth'
      cases hth'
  refine ⟨r, hth, ?_⟩
  cases hheld : task.mustCancel with
  | true =>
    refine .inr ⟨⟨task, htask, hheld⟩, ?_⟩
    have hm : ({ m with ready := rest } : Machine σ ρ φ ν ε).startTask t =
        { m.modifyTask t (fun task => { task with mustCancel := false }) with
          ready := rest, running := some (.resume t .cancelled []) } := by
      simp only [startTask, htask, hheld, if_true]
      rfl
    rw [hm]
    refine ⟨hr, hready, rfl, rfl, rfl, rfl, rfl, rfl, rfl, by simp [modifyTask], ?_, fun hu => modifyTask_getElem?_of_ne hu⟩
    refine ⟨task, htask, ?_⟩
    rw [← hwait]
    exact modifyTask_getElem?_self htask
  | false =>
    have hnot : ¬ m.IsHeld t := by
      rintro ⟨task', htask', hheld'⟩
      rw [htask] at htask'
      cases htask'
      rw [hheld] at hheld'
      cases hheld'
    refine .inl ⟨hnot, ?_⟩
    have hm : ({ m with ready := rest } : Machine σ ρ φ ν ε).startTask t =
        { m with ready := rest, running := some (.begin t r []) } := by
      simp only [startTask, htask, hheld, hstack, heq, Bool.false_eq_true, if_false]
    rw [hm]
    refine ⟨hr, hready, rfl, rfl, rfl, rfl, rfl, rfl, rfl, rfl, ?_, fun _ => rfl⟩
    refine ⟨task, htask, ?_⟩
    rw [← hwait, ← hheld]
    exact htask

/-- The turn of a task whose wait is over. -/
theorem resumeTask_claims (hs : m.Sound T) (hr : m.running = none) {rest : List (Handle ν ε)}
    (hready : m.ready = .notify (.wake t) f :: rest) (d : Outcome ν ε) :
    ∃ stack o, m.thread? t = some ⟨.waits f, stack⟩ ∧
      (¬ m.IsHeld t ∧ m.outcome? f = some o ∨ m.IsHeld t ∧ m.isSettled f = true ∧ o = .cancelled) ∧
      Claims (.notify (.wake t) f) t (.resume t o stack) m
        ({ m with ready := rest }.resumeTask t ((m.outcome? f).getD d)) := by
  obtain ⟨hset, stack, hth⟩ := hs.woken.notify.mp (hready ▸ List.mem_cons_self)
  obtain ⟨o, ho⟩ := isSettled_iff.mp hset
  obtain ⟨task, htask, -, hor⟩ := exists_task_of_thread? hr hth
  have hstack : task.stack = some stack := by
    rcases hor with ⟨-, heq⟩ | ⟨_, _, hstack, -, heq⟩
    · cases heq
    · cases heq
      exact hstack
  refine ⟨stack, if task.mustCancel then .cancelled else o, hth, ?_, ?_⟩
  · cases hheld : task.mustCancel with
    | true => exact .inr ⟨⟨task, htask, hheld⟩, hset, rfl⟩
    | false =>
      refine .inl ⟨?_, ho⟩
      rintro ⟨task', htask', hheld'⟩
      rw [htask] at htask'
      cases htask'
      rw [hheld] at hheld'
      cases hheld'
  · have hm : ({ m with ready := rest } : Machine σ ρ φ ν ε).resumeTask t ((m.outcome? f).getD d) =
        { m.modifyTask t (fun task => { task with waiting := none, mustCancel := false }) with
          ready := rest, running := some (.resume t (if task.mustCancel then .cancelled else o) stack) } := by
      simp only [resumeTask, htask, ho, hstack, Option.getD_some]
      rfl
    rw [hm]
    refine ⟨hr, hready, rfl, rfl, rfl, rfl, rfl, rfl, rfl, by simp [modifyTask], ?_, fun hu => modifyTask_getElem?_of_ne hu⟩
    exact ⟨task, htask, modifyTask_getElem?_self htask⟩

/-- How the turn of its entry sets a task going. -/
inductive Awakes (m : Machine σ ρ φ ν ε) (t : TaskId) : Thread ρ φ ν ε → Thread ρ φ ν ε → Prop
  | begins {r : ρ} (h : ¬ m.IsHeld t) : Awakes m t ⟨.fresh r, []⟩ ⟨.begins r, []⟩
  | dropped {r : ρ} (h : m.IsHeld t) : Awakes m t ⟨.fresh r, []⟩ ⟨.resumes .cancelled, []⟩
  | resumes {f : FutureId} {o : Outcome ν ε} {stack : List φ} (h : ¬ m.IsHeld t) (ho : m.outcome? f = some o) :
      Awakes m t ⟨.waits f, stack⟩ ⟨.resumes o, stack⟩
  | interrupted {f : FutureId} {stack : List φ} (h : m.IsHeld t) (hf : m.isSettled f = true) :
      Awakes m t ⟨.waits f, stack⟩ ⟨.resumes .cancelled, stack⟩

/-- An entry that names no task leaves the ready queue. -/
theorem drop_alike {h : Handle ν ε} {rest : List (Handle ν ε)} (hready : m.ready = h :: rest) (hh : h.task? = none) :
    m.Alike { m with ready := rest } where
  running := rfl
  tasks := rfl
  outcome _ := rfl
  owner hx := hx
  task hx := hx
  ready {h'} hne := by
    rw [hready, List.mem_cons]
    refine ⟨.inr, fun hmem => hmem.resolve_left ?_⟩
    rintro rfl
    exact hne hh
  readyTasks := by rw [hready, List.filterMap_cons_none hh]
  callbacks _ := rfl

theorem Sound.drop {h : Handle ν ε} {rest : List (Handle ν ε)} (hs : m.Sound T) (hready : m.ready = h :: rest)
    (hh : h.task? = none) : ({ m with ready := rest } : Machine σ ρ φ ν ε).Sound T :=
  (drop_alike hready hh).sound hs
    ⟨fun hmem hf => hs.targets.ready (by rw [hready]; exact List.mem_cons_of_mem _ hmem) hf, hs.targets.callbacks,
      hs.targets.timers, hs.targets.groups⟩ hs.woken.settled

/-- What is settled between the turns of tasks leaves the queues in order. -/
structure Settled (may : Licence ρ) (m m' : Machine σ ρ φ ν ε) : Prop where
  sound : m'.Sound may.target
  extends_ : m.Extends may m'
  state : m'.state = m.state

theorem Settled.settle (hs : m.Sound may.target) (hf : m.IsPlain f ∧ may.target f) (o : Outcome ν ε) :
    Settled may m (m.settle f o) :=
  ⟨hs.settle hf.1, settle_extends hf.1 (.inl hf.2), settle_state⟩

/-- A group takes note that a member ended. -/
theorem Settled.tally [Inhabited ν] (hs : m.Sound may.target) (group : Nat) (f : FutureId) :
    Settled may m (m.tally group f) := by
  unfold Machine.tally
  cases hget : m.groups[group]? with
  | none => exact ⟨hs, .refl m, rfl⟩
  | some g =>
    let m₁ : Machine σ ρ φ ν ε := { m with groups := m.groups.set group { g with left := g.left - 1 } }
    have houter := hs.targets.groups (List.mem_of_getElem? hget)
    have hset : Settled may m m₁ := by
      refine ⟨hs.of_eq rfl rfl rfl rfl (fun _ => hs.targets.timers) fun i hi => ?_, .of_eq rfl rfl rfl rfl, rfl⟩
      rcases List.mem_or_eq_of_mem_set hi with hi | rfl
      · exact hs.targets.groups hi
      · exact houter
    have hsettle : ∀ o, Settled may m (m₁.settle g.outer o) := fun o =>
      have h := Settled.settle hset.sound (f := g.outer) houter o
      ⟨h.sound, hset.extends_.trans h.extends_, h.state⟩
    dsimp only
    split
    · split
      · exact hsettle _
      · exact hset
    · exact hsettle _
    · exact hset

/-- The turn of an entry that names no task settles something, or nothing. -/
theorem Settled.handle [Inhabited ν] (hs : m.Sound may.target) {h : Handle ν ε} (hh : h.task? = none)
    (hp : ∀ {f}, h.target? = some f → m.IsPlain f ∧ may.target f) : Settled may m (m.handle h) := by
  cases h with
  | start t => cases hh
  | notify c f =>
    cases c with
    | wake t => cases hh
    | release w => exact .settle hs (hp rfl) _
    | tally group => exact .tally hs group f
  | expire w => exact .settle hs (hp rfl) _
  | deliver f o => exact .settle hs (hp rfl) _

/-- **A step between the turns of tasks** sets one task going, or it moves none and keeps what the tasks share. -/
theorem tick_of_not_running [Inhabited ν] (program : Program σ ρ φ ν ε) (hs : m.Sound may.target) (hr : m.running = none)
    (hne : m.ready ≠ []) :
    (m.tick program).Sound may.target ∧
      ((∃ t th th', m.thread? t = some th ∧ m.Awakes t th th' ∧ m.Switch t (some th') (m.tick program)) ∨
        (m.Extends may (m.tick program) ∧ (m.tick program).state = m.state)) := by
  cases hready : m.ready with
  | nil => exact absurd hready hne
  | cons h rest =>
    have htick : m.tick program = ({ m with ready := rest } : Machine σ ρ φ ν ε).handle h := by
      simp only [tick, hr, hready]
    rw [htick]
    cases ht : h.task? with
    | none =>
      have hs' := hs.drop hready ht
      have hset := Settled.handle hs' ht fun hf => hs.targets.ready (by rw [hready]; exact List.mem_cons_self) hf
      exact ⟨hset.sound, .inr ⟨((drop_alike hready ht).extends (Nat.le_refl _)).trans hset.extends_, hset.state⟩⟩
    | some t =>
      cases h with
      | start u =>
        cases ht
        obtain ⟨r, hth, ⟨hheld, hc⟩ | ⟨hheld, hc⟩⟩ := startTask_claims hs hr hready
        · exact ⟨hc.sound hs, .inl ⟨t, _, _, hth, .begins hheld, hc.switch⟩⟩
        · exact ⟨hc.sound hs, .inl ⟨t, _, _, hth, .dropped hheld, hc.switch⟩⟩
      | notify c f =>
        cases c with
        | wake u =>
          cases ht
          obtain ⟨stack, o, hth, hor, hc⟩ := resumeTask_claims hs hr hready (.value default)
          refine ⟨hc.sound hs, .inl ⟨t, _, _, hth, ?_, hc.switch⟩⟩
          rcases hor with ⟨hheld, ho⟩ | ⟨hheld, hset, rfl⟩
          · exact .resumes hheld ho
          · exact .interrupted hheld hset
        | release w => cases ht
        | tally group => cases ht
      | expire w => cases ht
      | deliver g o => cases ht

/-! ## The running task goes on -/

/-- What the running task does next, when an action is carried out. -/
def nextThread (m : Machine σ ρ φ ν ε) (stack : List φ) : Action ρ φ ν ε → Thread ρ φ ν ε
  | .done o => ⟨.resumes o, stack⟩
  | .call r frame => ⟨.begins r, frame :: stack⟩
  | .become r => ⟨.begins r, stack⟩
  | .await f frame =>
    match m.outcome? f with
    | some o => ⟨.resumes o, frame :: stack⟩
    | none => ⟨.waits f, frame :: stack⟩

/-- Whoever waits has the frame for it on top, even if the wait is over at once. -/
theorem stack_nextThread_await (m : Machine σ ρ φ ν ε) (stack : List φ) (f : FutureId) (frame : φ) :
    (m.nextThread stack (.await f frame)).stack = frame :: stack := by
  unfold nextThread
  dsimp only
  split <;> rfl

/-- The running task goes on without a wait. -/
theorem Sound.proceed (hs : m.Sound T) (hr : m.running = some x) (hx : y.task = x.task) :
    ({ m with running := some y } : Machine σ ρ φ ν ε).Sound T ∧
      m.Switch x.task (some y.thread) { m with running := some y } := by
  have hself : ({ m with running := some y } : Machine σ ρ φ ν ε).thread? x.task = some y.thread := by
    rw [← hx]
    exact thread?_of_running rfl
  have hother : ∀ {u}, u ≠ x.task → ({ m with running := some y } : Machine σ ρ φ ν ε).thread? u = m.thread? u := by
    intro u hu
    rw [thread?_of_ne (r := y) rfl (by rw [hx]; exact hu.symm), thread?_of_ne hr hu.symm]
    rfl
  have hidle : ∀ {u : TaskId} {th : Thread ρ φ ν ε}, th.top.isIdle = true →
      (({ m with running := some y } : Machine σ ρ φ ν ε).thread? u = some th ↔ m.thread? u = some th) := by
    intro u th hth
    by_cases hu : u = x.task
    · subst hu
      rw [hself, thread?_of_running hr]
      constructor <;> rintro ⟨⟩ <;> simp at hth
    · rw [hother hu]
  refine ⟨⟨⟨hs.owned.future, hs.owned.task⟩, ⟨hs.targets.ready, hs.targets.callbacks, hs.targets.timers, hs.targets.groups⟩,
    hs.woken.congr rfl (fun _ => rfl) (fun _ => rfl) hidle, ?_, ?_⟩,
    ⟨rfl, rfl, rfl, fun _ => rfl, fun _ => rfl, id, hself, hother, fun _ => rfl, fun _ => rfl, fun _ => rfl⟩⟩
  · intro z hy
    cases hy
    rw [hx]
    exact hs.running hr
  · intro u task f htask hwait
    obtain ⟨stack, hth⟩ := hs.waiting htask hwait
    exact ⟨stack, (hidle rfl).mpr hth⟩

/-- The running task waits for a future, which names it from now on. -/
structure Parks (x : Running ρ φ ν ε) (f : FutureId) (stack : List φ) (m m' : Machine σ ρ φ ν ε) : Prop where
  runs : m.running = some x
  idle : m'.running = none
  state : m'.state = m.state
  ready : m'.ready = m.ready
  timers : m'.timers = m.timers
  groups : m'.groups = m.groups
  size : m'.tasks.size = m.tasks.size
  room : m'.futures.size = m.futures.size
  owner : ∀ g, m'.owner? g = m.owner? g
  outcome : ∀ g, m'.outcome? g = m.outcome? g
  callbacks : ∀ g, m'.callbacksOf g = if g = f then m.callbacksOf f ++ [.wake x.task] else m.callbacksOf g
  self : ∃ task, m.tasks[x.task]? = some task ∧
    m'.tasks[x.task]? = some { task with waiting := some f, stack := some stack }
  other : ∀ {u}, u ≠ x.task → m'.tasks[u]? = m.tasks[u]?

theorem suspend_parks (hs : m.Sound T) (hr : m.running = some x) (hf : f < m.futures.size) (hun : m.isSettled f = false)
    (stack : List φ) : Parks x f stack m (m.suspend x.task f stack) := by
  obtain ⟨task, htask, -, hheld⟩ := hs.running hr
  let m₀ : Machine σ ρ φ ν ε :=
    { m.modifyTask x.task (fun task => { task with waiting := some f, stack := some stack }) with running := none }
  have hm : m.suspend x.task f stack = m₀.mapCallbacks f (· ++ [.wake x.task]) := by
    have hun' : m₀.isSettled f = false := hun
    simp only [Machine.suspend, htask, Option.map_some, Option.getD_some, hheld, Bool.false_eq_true, if_false]
    unfold Machine.addCallback
    rw [if_neg (by rw [hun']; simp)]
    rfl
  rw [hm]
  exact ⟨hr, rfl, rfl, rfl, rfl, rfl, Array.size_modify, size_futures_mapCallbacks, owner?_mapCallbacks,
    outcome?_mapCallbacks, callbacksOf_mapCallbacks (m := m₀) hf, ⟨task, htask, modifyTask_getElem?_self htask⟩,
    fun hu => modifyTask_getElem?_of_ne hu⟩

namespace Parks

variable {stack : List φ}

theorem isSettled (hp : Parks x f stack m m') (g : FutureId) : m'.isSettled g = m.isSettled g := by
  unfold Machine.isSettled
  rw [hp.outcome]

theorem thread_self (hp : Parks x f stack m m') (hs : m.Sound T) : m'.thread? x.task = some ⟨.waits f, stack⟩ := by
  obtain ⟨task, htask, htask'⟩ := hp.self
  obtain ⟨task'', htask'', hset, -⟩ := hs.running hp.runs
  rw [htask] at htask''
  cases htask''
  rw [thread?_of_not_running hp.idle]
  unfold idle?
  simp only [htask', hp.isSettled, hset, Bool.false_eq_true, if_false]

theorem thread_other (hp : Parks x f stack m m') (hu : u ≠ x.task) : m'.thread? u = m.thread? u := by
  rw [thread?_of_not_running hp.idle, thread?_of_ne hp.runs hu.symm]
  exact idle?_congr (hp.other hu) fun _ => hp.isSettled _

/-- The running task was not named by anything. -/
theorem not_idle (hp : Parks x f stack m m') {th : Thread ρ φ ν ε} (hth : th.top.isIdle = true) :
    m.thread? x.task ≠ some th := by
  intro h
  rw [thread?_of_running hp.runs] at h
  have hidle := x.thread_isIdle
  rw [Option.some.inj h, hth] at hidle
  cases hidle

theorem task_cases (hp : Parks x f stack m m') {task : Task ρ φ} (htask : m'.tasks[u]? = some task) :
    ∃ task', m.tasks[u]? = some task' ∧ task.future = task'.future ∧ task.routine = task'.routine ∧
      task.mustCancel = task'.mustCancel ∧ (u = x.task ∧ task.waiting = some f ∨ u ≠ x.task ∧ task = task') := by
  by_cases hu : u = x.task
  · subst hu
    obtain ⟨task', h, h'⟩ := hp.self
    rw [h'] at htask
    cases htask
    exact ⟨task', h, rfl, rfl, rfl, .inl ⟨rfl, rfl⟩⟩
  · exact ⟨task, hp.other hu ▸ htask, rfl, rfl, rfl, .inr ⟨hu, rfl⟩⟩

theorem future_of_task (hp : Parks x f stack m m') {task : Task ρ φ} (htask : m.tasks[u]? = some task) :
    ∃ task', m'.tasks[u]? = some task' ∧ task'.future = task.future ∧ task'.routine = task.routine := by
  by_cases hu : u = x.task
  · subst hu
    obtain ⟨task', h, h'⟩ := hp.self
    rw [h] at htask
    cases htask
    exact ⟨_, h', rfl, rfl⟩
  · exact ⟨task, by rw [hp.other hu, htask], rfl, rfl⟩

theorem woken (hp : Parks x f stack m m') (hs : m.Sound T) (hun : m.isSettled f = false) : m'.Woken := by
  have hself := hp.thread_self hs
  refine ⟨?_, ?_, ?_, ?_, ?_, ?_⟩
  · intro g hg
    rw [hp.isSettled] at hg
    rw [hp.callbacks]
    split
    · next heq => rw [heq, hun] at hg; cases hg
    · exact hs.woken.settled hg
  · rw [hp.ready]
    exact hs.woken.readyNodup
  · intro g
    rw [hp.callbacks]
    split
    · rw [List.filterMap_append, List.nodup_append]
      refine ⟨hs.woken.callbacksNodup, by simp [Callback.task?], ?_⟩
      simp only [List.filterMap_cons, Callback.task?, List.filterMap_nil, List.mem_singleton]
      rintro u hu _ rfl rfl
      obtain ⟨-, stack', hth⟩ := hs.woken.wake.mp (mem_callbacks_task?.mp hu)
      exact hp.not_idle rfl hth
    · exact hs.woken.callbacksNodup
  · intro u
    rw [hp.ready, hs.woken.start]
    by_cases hu : u = x.task
    · subst hu
      rw [hself]
      refine iff_of_false ?_ ?_
      · rintro ⟨r, hth⟩
        exact hp.not_idle rfl hth
      · rintro ⟨r, hth⟩
        cases hth
    · rw [hp.thread_other hu]
  · intro u g
    rw [hp.ready, hp.isSettled, hs.woken.notify]
    by_cases hu : u = x.task
    · subst hu
      rw [hself]
      refine iff_of_false ?_ ?_
      · rintro ⟨-, stack', hth⟩
        exact hp.not_idle rfl hth
      · rintro ⟨hg, stack', hth⟩
        cases hth
        rw [hun] at hg
        cases hg
    · rw [hp.thread_other hu]
  · intro u g
    rw [hp.isSettled, hp.callbacks]
    by_cases hu : u = x.task
    · subst hu
      rw [hself]
      constructor
      · intro hmem
        split at hmem
        · next heq => exact ⟨heq ▸ hun, stack, by rw [heq]⟩
        · obtain ⟨-, stack', hth⟩ := hs.woken.wake.mp hmem
          exact absurd hth (hp.not_idle rfl)
      · rintro ⟨-, stack', hth⟩
        cases hth
        simp
    · rw [hp.thread_other hu, ← hs.woken.wake]
      split
      · next heq => subst heq; simp [hu]
      · rfl

theorem sound (hp : Parks x f stack m m') (hs : m.Sound T) (hun : m.isSettled f = false) : m'.Sound T := by
  refine ⟨⟨?_, ?_⟩, ⟨?_, ?_, ?_, ?_⟩, hp.woken hs hun, ?_, ?_⟩
  · intro u task htask
    obtain ⟨task', htask', hfut, -⟩ := hp.task_cases htask
    rw [hp.owner, hfut, hs.owned.future htask']
  · intro g u hg
    obtain ⟨task, htask, rfl⟩ := hs.owned.task (hp.owner g ▸ hg)
    obtain ⟨task', htask', hfut, -⟩ := hp.future_of_task htask
    exact ⟨task', htask', hfut⟩
  · intro h g hmem hg
    rw [IsPlain, hp.owner]
    exact hs.targets.ready (hp.ready ▸ hmem) hg
  · intro g c w hmem hw
    rw [IsPlain, hp.owner]
    rw [hp.callbacks] at hmem
    split at hmem
    · rcases List.mem_append.mp hmem with hmem | hmem
      · exact hs.targets.callbacks hmem hw
      · cases List.mem_singleton.mp hmem
        cases hw
    · exact hs.targets.callbacks hmem hw
  · intro i hmem
    rw [IsPlain, hp.owner]
    exact hs.targets.timers (hp.timers ▸ hmem)
  · intro i hmem
    rw [IsPlain, hp.owner]
    exact hs.targets.groups (hp.groups ▸ hmem)
  · intro y hy
    rw [hp.idle] at hy
    cases hy
  · intro u task g htask hwait
    obtain ⟨task', htask', -, -, -, ⟨rfl, hwait'⟩ | ⟨hu, rfl⟩⟩ := hp.task_cases htask
    · rw [hwait'] at hwait
      cases hwait
      exact ⟨stack, hp.thread_self hs⟩
    · rw [hp.thread_other hu]
      exact hs.waiting htask' hwait

theorem switch (hp : Parks x f stack m m') (hs : m.Sound T) : m.Switch x.task (some ⟨.waits f, stack⟩) m' where
  state := hp.state
  size := hp.size
  room := hp.room
  owner := hp.owner
  routine u := by
    unfold routine?
    cases hu : m.tasks[u]? with
    | none =>
      have hge : m'.tasks.size ≤ u := by rw [hp.size]; exact Array.getElem?_eq_none_iff.mp hu
      rw [Array.getElem?_eq_none hge]
    | some task =>
      obtain ⟨task', hu', -, hroutine⟩ := hp.future_of_task hu
      simp [hu', hroutine]
  held {u} := by
    rintro ⟨task, htask, hheld⟩
    obtain ⟨task', htask', -, -, hsame, -⟩ := hp.task_cases htask
    exact ⟨task', htask', hsame ▸ hheld⟩
  self := hp.thread_self hs
  other := hp.thread_other
  task := hp.other
  ended hu := by
    unfold taskOutcome?
    simp only [hp.other hu, hp.outcome]
  outcome _ := hp.outcome _

end Parks

/-- Settling has nothing to do with tasks. -/
theorem settle_with (m : Machine σ ρ φ ν ε) (tasks : Array (Task ρ φ)) (running : Option (Running ρ φ ν ε)) (f : FutureId)
    (o : Outcome ν ε) :
    ({ m with tasks, running } : Machine σ ρ φ ν ε).settle f o = { m.settle f o with tasks, running } := by
  unfold settle
  dsimp only
  split
  · rfl
  · split <;> rfl

theorem endTask_eq {task : Task ρ φ} (htask : m.tasks[t]? = some task) (hheld : task.mustCancel = false) (o : Outcome ν ε) :
    m.endTask t o = { m.settle task.future o with tasks := (m.setHeld t false).tasks, running := none } := by
  have h : ∀ o, ({ m.setHeld t false with running := none } : Machine σ ρ φ ν ε).settle task.future o =
      { m.settle task.future o with tasks := (m.setHeld t false).tasks, running := none } :=
    settle_with m (m.setHeld t false).tasks none task.future
  cases o <;> simp only [Machine.endTask, htask, hheld, Bool.false_eq_true, if_false] <;> exact h _

/-- The running task ends. -/
theorem Sound.endTask (hs : m.Sound T) (hr : m.running = some x) (o : Outcome ν ε) :
    (m.endTask x.task o).Sound T ∧ m.Switch x.task none (m.endTask x.task o) ∧
      (m.endTask x.task o).taskOutcome? x.task = some o := by
  obtain ⟨task, htask, hset, hheld⟩ := hs.running hr
  have hown := hs.owned.future htask
  have hlt := lt_size_of_owner? hown
  rw [endTask_eq htask hheld]
  let m' : Machine σ ρ φ ν ε :=
    { m.settle task.future o with tasks := (m.setHeld x.task false).tasks, running := none }
  have hsettled : ∀ f, m'.isSettled f = (decide (f = task.future) || m.isSettled f) := isSettled_settle hlt hset
  have howner : ∀ f, m'.owner? f = m.owner? f := fun f => owner?_settle
  have hkeep : ∀ {u : TaskId} {task' : Task ρ φ}, m'.tasks[u]? = some task' → ∃ task : Task ρ φ, m.tasks[u]? = some task ∧
      task' = { task with mustCancel := if x.task = u then false else task.mustCancel } := exists_of_setHeld
  have htasks : ∀ {u : TaskId} {task' : Task ρ φ}, m.tasks[u]? = some task' → m'.tasks[u]? =
      some { task' with mustCancel := if x.task = u then false else task'.mustCancel } := getElem?_setHeld
  have hother : ∀ {u}, u ≠ x.task → m'.tasks[u]? = m.tasks[u]? := fun hu => modifyTask_getElem?_of_ne hu
  have hne : ∀ {u task'}, u ≠ x.task → m.tasks[u]? = some task' → task'.future ≠ task.future :=
    fun hu htask' heq => hu (hs.owned.eq_of_future_eq htask' htask heq)
  -- while the task runs, nothing depends on its future
  have hrun : ∀ u, (m.settle task.future o).thread? u = m.thread? u := by
    intro u
    by_cases hu : u = x.task
    · subst hu
      rw [thread?_of_running hr, thread?_of_running (by rw [settle_running, hr])]
    · refine thread?_congr settle_running (idle?_congr (by rw [settle_tasks]) fun htask' => ?_)
      exact isSettled_settle_of_ne (hne hu htask')
  have hself : m'.thread? x.task = none := by
    rw [thread?_of_not_running rfl]
    unfold idle?
    simp only [htasks htask, hsettled, decide_true, Bool.true_or, if_true]
  have hthread : ∀ {u}, u ≠ x.task → m'.thread? u = m.thread? u := by
    intro u hu
    rw [thread?_of_not_running rfl, thread?_of_ne hr hu.symm]
    refine idle?_congr (hother hu) fun htask' => ?_
    simp [hsettled, hne hu htask']
  have hidle : ∀ {u : TaskId} {th : Thread ρ φ ν ε}, th.top.isIdle = true →
      (m'.thread? u = some th ↔ (m.settle task.future o).thread? u = some th) := by
    intro u th hth
    rw [hrun]
    by_cases hu : u = x.task
    · subst hu
      rw [hself, thread?_of_running hr]
      constructor <;> rintro ⟨⟩
      simp at hth
    · rw [hthread hu]
  have houtcome : ∀ f, f ≠ task.future → m'.outcome? f = m.outcome? f := by
    intro f hf
    have hget := Array.getElem?_eq_getElem hlt
    have hnone : m.futures[task.future].outcome = none := by simpa [isSettled, outcome?_of_getElem? hget] using hset
    exact (outcome?_settle hget hnone f).trans (if_neg hf)
  refine ⟨⟨⟨?_, ?_⟩, ?_, ?_, ?_, ?_⟩, ⟨settle_state, ?_, size_futures_settle, howner, ?_, ?_, hself, hthread, hother, ?_, ?_⟩, ?_⟩
  · intro u task' htask'
    obtain ⟨task'', htask'', rfl⟩ := hkeep htask'
    have hown' := hs.owned.future htask''
    exact (howner _).trans hown'
  · intro f u hf
    obtain ⟨task', htask', hfut⟩ := hs.owned.task ((howner f).symm.trans hf)
    exact ⟨_, htasks htask', hfut⟩
  · have ht : (m.settle task.future o).Targets T := hs.targets.settle
    exact ⟨ht.ready, ht.callbacks, ht.timers, ht.groups⟩
  · exact (hs.woken.settle hlt hrun).congr rfl (fun _ => rfl) (fun _ => rfl) hidle
  · intro y hy
    cases hy
  · intro u task' f htask' hwait
    obtain ⟨task'', htask'', rfl⟩ := hkeep htask'
    obtain ⟨stack, hth⟩ := hs.waiting htask'' hwait
    exact ⟨stack, (hidle rfl).mpr ((hrun u).trans hth)⟩
  · exact Array.size_modify
  · intro u
    unfold routine?
    cases hu : m.tasks[u]? with
    | none =>
      have hge : m'.tasks.size ≤ u := by
        rw [show m'.tasks.size = m.tasks.size from Array.size_modify]
        exact Array.getElem?_eq_none_iff.mp hu
      exact congrArg _ (Array.getElem?_eq_none hge)
    | some task' =>
      have hmap := congrArg (Option.map (·.routine)) (htasks hu)
      exact hmap
  · rintro u ⟨task', htask', hheld'⟩
    obtain ⟨task'', htask'', rfl⟩ := hkeep htask'
    refine ⟨task'', htask'', ?_⟩
    dsimp only at hheld'
    split at hheld'
    · cases hheld'
    · exact hheld'
  · intro u hu
    unfold taskOutcome?
    change m'.tasks[u]?.bind _ = _
    rw [hother hu]
    cases htask' : m.tasks[u]? with
    | none => rfl
    | some task' => exact houtcome _ (hne hu htask')
  · intro f hf
    exact houtcome f (hs.owned.ne_of_isPlain htask hf).symm
  · unfold taskOutcome?
    change m'.tasks[x.task]?.bind _ = _
    rw [htasks htask]
    have hget := Array.getElem?_eq_getElem hlt
    have hnone : m.futures[task.future].outcome = none := by simpa [isSettled, outcome?_of_getElem? hget] using hset
    exact (outcome?_settle hget hnone task.future).trans (if_pos rfl)

/-- **A step of the running task** ends it, or is what the program does and then the action it gives. The future that it
is to wait for has to be there. -/
theorem perform_switch (hs : m.Sound T) (hr : m.running = some x) (stack : List φ) (a : Action ρ φ ν ε)
    (ha : ∀ f frame, a = .await f frame → f < m.futures.size) :
    (m.perform x.task stack a).Sound T ∧ m.Switch x.task (some (m.nextThread stack a)) (m.perform x.task stack a) := by
  cases a with
  | done o => exact hs.proceed hr (y := .resume x.task o stack) rfl
  | call r frame => exact hs.proceed hr (y := .begin x.task r (frame :: stack)) rfl
  | become r => exact hs.proceed hr (y := .begin x.task r stack) rfl
  | await f frame =>
    simp only [perform, nextThread]
    cases ho : m.outcome? f with
    | some o => exact hs.proceed hr (y := .resume x.task o (frame :: stack)) rfl
    | none =>
      have hun := isSettled_eq_false.mpr ho
      have hp := suspend_parks hs hr (ha f frame rfl) hun (frame :: stack)
      exact ⟨hp.sound hs hun, hp.switch hs⟩

end Machine

end Async

end DiagnosticsClient
