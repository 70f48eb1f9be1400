import DiagnosticsClient.Proofs.Async.Queues
import Mathlib.Logic.Relation
/-
What a routine does to a machine at once.

Between two waits a routine settles futures, spawns tasks, sets timers, makes
groups and changes what is shared, in any order: `Op` has a constructor for each,
and an `Effect` is any number of them. A `Licence` says which futures it may
settle, which tasks it may cancel, what it may spawn, and whether it may make
groups. The clock is not for a routine to change.

No effect touches a thread (`Extends`), and every one keeps the queues in order.
-/
namespace DiagnosticsClient

namespace Async

/-- Whether an outcome is a value. -/
def Outcome.isValue {ν ε : Type} : Outcome ν ε → Bool
  | .value _ => true
  | _ => false

/-- What an effect may do. -/
structure Licence (ρ : Type) where
  /-- The futures it may settle with anything, now or later. -/
  target : FutureId → Prop
  /-- The futures it may settle with a value, now. -/
  wake : FutureId → Prop
  /-- The tasks it may cancel. -/
  cancel : TaskId → Prop
  /-- The routines it may have run as tasks. -/
  spawn : ρ → Prop
  /-- Whether it may make groups and have members noted by them. -/
  gather : Prop := False

/-- One licence allows all that another does. -/
structure Licence.Covers {ρ : Type} (may may' : Licence ρ) : Prop where
  target : ∀ {f : FutureId}, may'.target f → may.target f
  wake : ∀ {f : FutureId}, may'.wake f → may.wake f
  cancel : ∀ {t : TaskId}, may'.cancel t → may.cancel t
  spawn : ∀ {r : ρ}, may'.spawn r → may.spawn r
  gather : may'.gather → may.gather

namespace Machine

variable {σ ρ φ ν ε : Type} {m m' m'' : Machine σ ρ φ ν ε} {t u : TaskId} {f g : FutureId} {may : Licence ρ}

/-- What a task waits for. -/
def waitsFor? (m : Machine σ ρ φ ν ε) (t : TaskId) : Option FutureId := m.tasks[t]?.bind (·.waiting)

/-- One thing that a routine does to a machine. -/
inductive Op (may : Licence ρ) : Machine σ ρ φ ν ε → Machine σ ρ φ ν ε → Prop
  | share (m : Machine σ ρ φ ν ε) (s : σ) : Op may m { m with state := s }
  | newFuture (m : Machine σ ρ φ ν ε) : Op may m m.newFuture.1
  | settle {m : Machine σ ρ φ ν ε} {f : FutureId} (o : Outcome ν ε) (hf : m.IsPlain f)
      (h : may.target f ∨ may.wake f ∧ o.isValue = true) : Op may m (m.settle f o)
  /-- What a task waits for is settled, because the task is cancelled. -/
  | interrupt {m : Machine σ ρ φ ν ε} {t : TaskId} {f : FutureId} (hf : m.IsPlain f) (ht : may.cancel t)
      (hw : m.waitsFor? t = some f) : Op may m (m.settle f .cancelled)
  /-- The cancellation of a task is held back. -/
  | hold (m : Machine σ ρ φ ν ε) {t : TaskId} (ht : may.cancel t) (hr : ∀ r, m.running = some r → r.task ≠ t) :
      Op may m (m.modifyTask t fun task => { task with mustCancel := true })
  | spawn (m : Machine σ ρ φ ν ε) {r : ρ} (hr : may.spawn r) : Op may m (m.spawn r).1
  | addCallback {m : Machine σ ρ φ ν ε} {w : FutureId} (f : FutureId) (hw : m.IsPlain w) (ht : may.target w) :
      Op may m (m.addCallback f (.release w))
  | removeCallback (m : Machine σ ρ φ ν ε) (f w : FutureId) : Op may m (m.removeCallback f (.release w))
  /-- A group is to take note of a future. -/
  | member (m : Machine σ ρ φ ν ε) (f : FutureId) (group : Nat) (hg : may.gather) : Op may m (m.addCallback f (.tally group))
  | group {m : Machine σ ρ φ ν ε} {g : Group} (hg : may.gather) (hw : m.IsPlain g.outer) (ht : may.target g.outer) :
      Op may m { m with groups := m.groups ++ [g] }
  | enqueue {m : Machine σ ρ φ ν ε} {h : Handle ν ε} {w : FutureId} (hh : h.target? = some w) (hw : m.IsPlain w)
      (ht : may.target w) : Op may m (m.enqueue h)
  /-- Timers are dropped, given up or added. -/
  | setTimers {m : Machine σ ρ φ ν ε} {timers : Array Timer}
      (h : ∀ i ∈ timers, (∃ j ∈ m.timers, j.waiter = i.waiter ∧ j.time = i.time) ∨ m.IsPlain i.waiter ∧ may.target i.waiter) :
      Op may m { m with timers }

/-- What a routine does to a machine between two waits. -/
abbrev Effect (may : Licence ρ) : Machine σ ρ φ ν ε → Machine σ ρ φ ν ε → Prop := Relation.ReflTransGen (Op may)

/-- Why a future came to be settled. -/
def Settles (may : Licence ρ) (m : Machine σ ρ φ ν ε) (f : FutureId) (o : Outcome ν ε) : Prop :=
  may.target f ∨ may.wake f ∧ o.isValue = true ∨ o = .cancelled ∧ ∃ t, may.cancel t ∧ m.waitsFor? t = some f

/-- No thread is touched: each task is as it was, but for a cancellation held back, and the new ones are fresh. -/
structure Extends (may : Licence ρ) (m m' : Machine σ ρ φ ν ε) : Prop where
  running : m'.running = m.running
  size : m.tasks.size ≤ m'.tasks.size
  room : m.futures.size ≤ m'.futures.size
  task : ∀ {t : TaskId} {task : Task ρ φ}, m.tasks[t]? = some task →
    ∃ held, m'.tasks[t]? = some { task with mustCancel := held } ∧
      (held = task.mustCancel ∨ may.cancel t ∧ ∀ r, m.running = some r → r.task ≠ t)
  spawned : ∀ {t : TaskId} {task : Task ρ φ}, m.tasks.size ≤ t → m'.tasks[t]? = some task →
    may.spawn task.routine ∧ task.stack = none ∧ task.waiting = none ∧ (task.mustCancel = true → may.cancel t)
  owner : ∀ {f : FutureId} {x : Option TaskId}, m.owner? f = some x → m'.owner? f = some x
  outcome : ∀ {f : FutureId} {o : Outcome ν ε}, m.outcome? f = some o → m'.outcome? f = some o
  settled : ∀ {f : FutureId} {o : Outcome ν ε}, m'.outcome? f = some o →
    m.outcome? f = some o ∨ m'.IsPlain f ∧ (f < m.futures.size → m.Settles may f o)

/-! ## One thing -/

theorem Alike.extends (h : m.Alike m') (hsize : m.futures.size ≤ m'.futures.size) : m.Extends may m' where
  running := h.running
  size := Nat.le_of_eq (by rw [h.tasks])
  room := hsize
  task htask := ⟨_, h.tasks ▸ htask, .inl rfl⟩
  spawned hge htask := by
    rw [h.tasks, Array.getElem?_eq_none hge] at htask
    cases htask
  owner := h.owner
  outcome ho := by rw [h.outcome, ho]
  settled ho := .inl (by rw [← h.outcome, ho])

theorem Extends.of_eq (hr : m'.running = m.running) (ht : m'.tasks = m.tasks) (hf : m'.futures = m.futures)
    (hq : m'.ready = m.ready) : m.Extends may m' :=
  (Alike.of_eq hr ht hf hq).extends (Nat.le_of_eq (by rw [hf]))

theorem Op.sound {T : FutureId → Prop} (h : Op may m m') (hT : ∀ {f}, may.target f → T f) (hs : m.Sound T) : m'.Sound T := by
  cases h with
  | share s => exact hs.of_eq rfl rfl rfl rfl (fun _ => hs.targets.timers) fun _ => hs.targets.groups
  | newFuture => exact hs.newFuture
  | settle o hf h => exact hs.settle hf
  | interrupt hf ht hw => exact hs.settle hf
  | hold ht hr => exact hs.setHeld fun r hrun heq => absurd heq (hr r hrun)
  | spawn hr => exact hs.spawn _
  | addCallback f hw ht => exact hs.addCallback rfl fun heq => Option.some.inj heq ▸ ⟨hw, hT ht⟩
  | removeCallback f w => exact hs.removeCallback rfl
  | member f group => exact hs.addCallback rfl fun heq => by cases heq
  | group hg hw ht =>
    refine hs.of_eq rfl rfl rfl rfl (fun _ => hs.targets.timers) fun i hi => ?_
    rcases List.mem_append.mp hi with hi | hi
    · exact hs.targets.groups hi
    · rw [List.mem_singleton.mp hi]
      exact ⟨hw, hT ht⟩
  | enqueue hh hw ht =>
    refine hs.enqueue (Handle.task?_of_target? hh) fun heq => ?_
    cases hh.symm.trans heq
    exact ⟨hw, hT ht⟩
  | setTimers h =>
    refine hs.of_eq rfl rfl rfl rfl (fun i hi => ?_) fun _ => hs.targets.groups
    rcases h i hi with ⟨j, hj, hwaiter, -⟩ | ⟨hplain, htarget⟩
    · exact hwaiter ▸ hs.targets.timers hj
    · exact ⟨hplain, hT htarget⟩

/-- What is settled stays, and only a plain future is settled. -/
theorem settle_extends {o : Outcome ν ε} (hf : m.IsPlain f) (h : m.Settles may f o) : m.Extends may (m.settle f o) where
  running := settle_running
  size := Nat.le_of_eq (by rw [settle_tasks])
  room := Nat.le_of_eq size_futures_settle.symm
  task {t task} htask := ⟨task.mustCancel, by rw [settle_tasks, htask], .inl rfl⟩
  spawned hge htask := by
    rw [settle_tasks, Array.getElem?_eq_none hge] at htask
    cases htask
  owner hx := by rw [owner?_settle, hx]
  outcome ho := outcome?_settle_of_some ho
  settled {g o'} ho := by
    cases hset : m.isSettled f with
    | true => rw [settle_of_isSettled hset] at ho; exact .inl ho
    | false =>
      obtain ⟨future, hget, -⟩ := Option.map_eq_some_iff.mp hf
      rw [outcome?_settle hget (by simpa [isSettled, outcome?_of_getElem? hget] using hset)] at ho
      split at ho
      · next heq => subst heq; cases ho; exact .inr ⟨by rwa [IsPlain, owner?_settle], fun _ => h⟩
      · exact .inl ho

theorem setHeld_extends (ht : may.cancel t) (hr : ∀ r, m.running = some r → r.task ≠ t) :
    m.Extends may (m.setHeld t true) where
  running := rfl
  size := by simp [setHeld, modifyTask]
  room := Nat.le_refl _
  task {u task} htask := by
    refine ⟨_, getElem?_setHeld htask, ?_⟩
    split
    · next heq => subst heq; exact .inr ⟨ht, hr⟩
    · exact .inl rfl
  spawned hge htask := by
    obtain ⟨task', htask', -⟩ := exists_of_setHeld htask
    rw [Array.getElem?_eq_none hge] at htask'
    cases htask'
  owner hx := hx
  outcome ho := ho
  settled ho := .inl ho

theorem spawn_extends (m : Machine σ ρ φ ν ε) {r : ρ} (hr : may.spawn r) : m.Extends may (m.spawn r).1 where
  running := rfl
  size := by simp [Machine.spawn]
  room := by simp [Machine.spawn]
  task {t task} htask := by
    have hne : t ≠ m.tasks.size := Nat.ne_of_lt (Array.getElem?_eq_some_iff.mp htask).1
    exact ⟨_, by rw [getElem?_spawn, if_neg hne, htask], .inl rfl⟩
  spawned {t task} hge htask := by
    rw [getElem?_spawn] at htask
    split at htask
    · cases htask
      exact ⟨hr, rfl, rfl, fun h => by cases h⟩
    · rw [Array.getElem?_eq_none hge] at htask
      cases htask
  owner {f x} hx := by rw [owner?_spawn, if_neg (Nat.ne_of_lt (lt_size_of_owner? hx)), hx]
  outcome ho := by rw [outcome?_spawn, ho]
  settled ho := .inl (by rwa [outcome?_spawn] at ho)

theorem addCallback_extends {c : Callback} (hc : c.task? = none) : m.Extends may (m.addCallback f c) := by
  unfold Machine.addCallback
  split
  · exact (enqueue_alike (h := .notify c f) (by cases c <;> first | rfl | cases hc)).extends (Nat.le_refl _)
  · exact (mapCallbacks_alike (k := (· ++ [c])) fun cs => by simp [hc]).extends (by simp [mapCallbacks])

theorem Op.extends (h : Op may m m') : m.Extends may m' := by
  cases h with
  | share s => exact .of_eq rfl rfl rfl rfl
  | newFuture => exact m.newFuture_alike.extends (by simp [Machine.newFuture])
  | settle o hf h => exact settle_extends hf (h.elim .inl fun h => .inr (.inl h))
  | interrupt hf ht hw => exact settle_extends hf (.inr (.inr ⟨rfl, _, ht, hw⟩))
  | hold ht hr => exact setHeld_extends ht hr
  | spawn hr => exact m.spawn_extends hr
  | addCallback f hw ht => exact addCallback_extends rfl
  | removeCallback f w =>
    exact (mapCallbacks_alike (filterMap_task?_filter (c := .release w) rfl)).extends (by simp [mapCallbacks])
  | member f group => exact addCallback_extends rfl
  | group => exact .of_eq rfl rfl rfl rfl
  | enqueue hh hw ht => exact (enqueue_alike (Handle.task?_of_target? hh)).extends (Nat.le_refl _)
  | setTimers h => exact .of_eq rfl rfl rfl rfl

/-! ## Any number of them -/

theorem Extends.refl (m : Machine σ ρ φ ν ε) : m.Extends may m := .of_eq rfl rfl rfl rfl

/-- A task of the extended machine was there before, or is new. -/
theorem Extends.task_cases (h : m.Extends may m') {task : Task ρ φ} (htask : m'.tasks[t]? = some task) :
    (∃ task' held, m.tasks[t]? = some task' ∧ task = { task' with mustCancel := held } ∧
      (held = task'.mustCancel ∨ may.cancel t ∧ ∀ r, m.running = some r → r.task ≠ t)) ∨
    (m.tasks.size ≤ t ∧ may.spawn task.routine ∧ task.stack = none ∧ task.waiting = none ∧
      (task.mustCancel = true → may.cancel t)) := by
  rcases Nat.lt_or_ge t m.tasks.size with hlt | hge
  · obtain ⟨held, htask', hheld⟩ := h.task (Array.getElem?_eq_getElem hlt)
    rw [htask] at htask'
    exact .inl ⟨_, held, Array.getElem?_eq_getElem hlt, Option.some.inj htask', hheld⟩
  · exact .inr ⟨hge, h.spawned hge htask⟩

theorem Extends.waitsFor? (h : m.Extends may m') (hw : m'.waitsFor? t = some f) : m.waitsFor? t = some f := by
  unfold Machine.waitsFor? at *
  obtain ⟨task, htask, hwait⟩ := Option.bind_eq_some_iff.mp hw
  rcases h.task_cases htask with ⟨task', held, htask', rfl, -⟩ | ⟨-, -, -, hnone, -⟩
  · rw [htask']
    exact hwait
  · rw [hnone] at hwait
    cases hwait

theorem Extends.trans (h : m.Extends may m') (h' : m'.Extends may m'') : m.Extends may m'' where
  running := h'.running.trans h.running
  size := Nat.le_trans h.size h'.size
  room := Nat.le_trans h.room h'.room
  task {t task} htask := by
    obtain ⟨held, htask', hheld⟩ := h.task htask
    obtain ⟨held', htask'', hheld'⟩ := h'.task htask'
    refine ⟨held', htask'', ?_⟩
    rcases hheld' with rfl | ⟨hc, hr⟩
    · exact hheld
    · exact .inr ⟨hc, fun r hrun => hr r (h.running.trans hrun)⟩
  spawned {t task} hge htask := by
    rcases h'.task_cases htask with ⟨task', held, htask', rfl, hheld⟩ | ⟨-, hnew⟩
    · obtain ⟨hr, hstack, hwait, hheld'⟩ := h.spawned hge htask'
      refine ⟨hr, hstack, hwait, fun htrue => ?_⟩
      rcases hheld with rfl | ⟨hc, -⟩
      · exact hheld' htrue
      · exact hc
    · exact hnew
  owner hx := h'.owner (h.owner hx)
  outcome ho := h'.outcome (h.outcome ho)
  settled {f o} ho := by
    rcases h'.settled ho with ho | ⟨hplain, hset⟩
    · rcases h.settled ho with ho | ⟨hplain, hset⟩
      · exact .inl ho
      · exact .inr ⟨h'.owner hplain, hset⟩
    · refine .inr ⟨hplain, fun hlt => ?_⟩
      rcases hset (Nat.lt_of_lt_of_le hlt h.room) with ht | hw | ⟨rfl, t, ht, hw⟩
      · exact .inl ht
      · exact .inr (.inl hw)
      · exact .inr (.inr ⟨rfl, t, ht, h.waitsFor? hw⟩)

/-- **An effect keeps the queues in order.** -/
theorem Effect.sound {T : FutureId → Prop} (h : Effect may m m') (hT : ∀ {f}, may.target f → T f) (hs : m.Sound T) :
    m'.Sound T := by
  induction h with
  | refl => exact hs
  | tail _ hop ih => exact hop.sound hT ih

/-- **An effect touches no thread.** -/
theorem Effect.extends (h : Effect may m m') : m.Extends may m' := by
  induction h with
  | refl => exact .refl m
  | tail _ hop ih => exact ih.trans hop.extends

theorem Op.mono {may' : Licence ρ} (h : Op may' m m') (hl : may.Covers may') : Op may m m' := by
  cases h with
  | share s => exact .share m s
  | newFuture => exact .newFuture m
  | settle o hf h => exact .settle o hf (h.imp hl.target fun h => ⟨hl.wake h.1, h.2⟩)
  | interrupt hf ht hw => exact .interrupt hf (hl.cancel ht) hw
  | hold ht hr => exact .hold m (hl.cancel ht) hr
  | spawn hr => exact .spawn m (hl.spawn hr)
  | addCallback f hw ht => exact .addCallback f hw (hl.target ht)
  | removeCallback f w => exact .removeCallback m f w
  | member f group hg => exact .member m f group (hl.gather hg)
  | group hg hw ht => exact .group (hl.gather hg) hw (hl.target ht)
  | enqueue hh hw ht => exact .enqueue hh hw (hl.target ht)
  | setTimers h => exact .setTimers fun i hi => (h i hi).imp_right (And.imp_right hl.target)

theorem Effect.mono {may' : Licence ρ} (h : Effect may' m m') (hl : may.Covers may') : Effect may m m' :=
  Relation.ReflTransGen.mono (fun _ _ hop => Op.mono hop hl) _ _ h

/-! ## What an extension leaves -/

namespace Extends

theorem mono {may' : Licence ρ} (h : m.Extends may' m') (hl : may.Covers may') : m.Extends may m' where
  running := h.running
  size := h.size
  room := h.room
  task htask :=
    have ⟨held, htask', hheld⟩ := h.task htask
    ⟨held, htask', hheld.imp_right (And.imp_left hl.cancel)⟩
  spawned hge htask :=
    have ⟨hr, hstack, hwait, hheld⟩ := h.spawned hge htask
    ⟨hl.spawn hr, hstack, hwait, fun htrue => hl.cancel (hheld htrue)⟩
  owner := h.owner
  outcome := h.outcome
  settled ho := (h.settled ho).imp_right (And.imp_right fun hset hlt =>
    (hset hlt).imp hl.target (Or.imp (And.imp_left hl.wake) (And.imp_right fun ⟨t, ht, hw⟩ => ⟨t, hl.cancel ht, hw⟩)))

theorem routine? (h : m.Extends may m') {r : ρ} (hr : m.routine? t = some r) : m'.routine? t = some r := by
  obtain ⟨task, htask, rfl⟩ := Option.map_eq_some_iff.mp hr
  obtain ⟨held, htask', -⟩ := h.task htask
  simp [Machine.routine?, htask']

theorem futureSettled (h : m.Extends may m') (ho : m'.Owned) {task : Task ρ φ} (htask : m.tasks[t]? = some task) :
    m'.outcome? task.future = m.outcome? task.future := by
  obtain ⟨held, htask', -⟩ := h.task htask
  cases hout : m'.outcome? task.future with
  | none =>
    cases hout' : m.outcome? task.future with
    | none => rfl
    | some o => rw [h.outcome hout'] at hout; cases hout
  | some o =>
    rcases h.settled hout with hout' | ⟨hplain, -⟩
    · rw [hout']
    · exact absurd rfl (ho.ne_of_isPlain htask' hplain)

theorem thread? (h : m.Extends may m') (ho : m'.Owned) (hlt : t < m.tasks.size) : m'.thread? t = m.thread? t := by
  have htask : m.tasks[t]? = some m.tasks[t] := Array.getElem?_eq_getElem hlt
  obtain ⟨held, htask', -⟩ := h.task htask
  refine thread?_congr h.running ?_
  have hset : m'.isSettled m.tasks[t].future = m.isSettled m.tasks[t].future := by
    unfold Machine.isSettled
    rw [h.futureSettled ho htask]
  unfold idle?
  simp only [htask, htask', hset]

theorem taskOutcome? (h : m.Extends may m') (ho : m'.Owned) (hlt : t < m.tasks.size) :
    m'.taskOutcome? t = m.taskOutcome? t := by
  have htask : m.tasks[t]? = some m.tasks[t] := Array.getElem?_eq_getElem hlt
  obtain ⟨held, htask', -⟩ := h.task htask
  simp only [Machine.taskOutcome?, htask, htask', Option.bind_some, h.futureSettled ho htask]

/-- A new task is fresh. -/
theorem thread?_new {T : FutureId → Prop} (h : m.Extends may m') (ho : m.Owned) (hs : m'.Sound T) {task : Task ρ φ}
    (hge : m.tasks.size ≤ t) (htask : m'.tasks[t]? = some task) (hrun : ∀ r, m.running = some r → r.task < m.tasks.size) :
    m'.thread? t = some ⟨.fresh task.routine, []⟩ := by
  obtain ⟨-, hstack, -, -⟩ := h.spawned hge htask
  have hunset : m'.isSettled task.future = false := by
    rw [isSettled_eq_false]
    cases hout : m'.outcome? task.future with
    | none => rfl
    | some o =>
      rcases h.settled hout with hold | ⟨hplain, -⟩
      · -- a future that was there before is not that of a new task
        obtain ⟨future, hget, -⟩ := Option.bind_eq_some_iff.mp hold
        have hown : m.owner? task.future = some future.task := by simp [owner?, hget]
        have hown' := h.owner hown
        rw [hs.owned.future htask] at hown'
        rw [← Option.some.inj hown'] at hown
        obtain ⟨task', htask', -⟩ := ho.task hown
        exact absurd (Array.getElem?_eq_some_iff.mp htask').1 (Nat.not_lt_of_le hge)
      · exact absurd rfl (hs.owned.ne_of_isPlain htask hplain)
  have hidle : m'.idle? t = some ⟨.fresh task.routine, []⟩ := by
    unfold idle?
    simp only [htask, hunset, hstack, Bool.false_eq_true, if_false]
  cases hr : m'.running with
  | none => rw [thread?_of_not_running hr, hidle]
  | some x =>
    have hlt : x.task < t := Nat.lt_of_lt_of_le (hrun x (h.running ▸ hr)) hge
    rw [thread?_of_ne hr (Nat.ne_of_lt hlt), hidle]

/-- A thread is as it was, or that of a new task. -/
theorem thread?_cases {T T' : FutureId → Prop} (h : m.Extends may m') (hs : m.Sound T) (hs' : m'.Sound T')
    {th : Thread ρ φ ν ε} (hth : m'.thread? t = some th) :
    m.thread? t = some th ∨
      ∃ r, may.spawn r ∧ m.tasks.size ≤ t ∧ m'.routine? t = some r ∧ th = ⟨.fresh r, []⟩ := by
  rcases Nat.lt_or_ge t m.tasks.size with hlt | hge
  · rw [h.thread? hs'.owned hlt] at hth
    exact .inl hth
  · obtain ⟨task, htask⟩ : ∃ task, m'.tasks[t]? = some task :=
      ⟨_, Array.getElem?_eq_getElem (lt_size_of_thread? hs' hth)⟩
    rw [h.thread?_new hs.owned hs' hge htask fun x hx => (hs.running hx).lt_size] at hth
    cases hth
    exact .inr ⟨_, (h.spawned hge htask).1, hge, by simp [Machine.routine?, htask], rfl⟩

end Extends

/-! ## What is seen of threads -/

/-- Something that is seen of the thread of a task. -/
def view {α : Type} (m : Machine σ ρ φ ν ε) (see : Thread ρ φ ν ε → Option α) (t : TaskId) : Option α :=
  (m.thread? t).bind see

/-- What is not seen of fresh threads stays as it was. -/
theorem Extends.view {α : Type} {see : Thread ρ φ ν ε → Option α} {T T' : FutureId → Prop} (h : m.Extends may m')
    (hs : m.Sound T) (hs' : m'.Sound T') (hsee : ∀ r, see ⟨.fresh r, []⟩ = none) (t : TaskId) :
    m'.view see t = m.view see t := by
  unfold Machine.view
  rcases Nat.lt_or_ge t m.tasks.size with hlt | hge
  · rw [h.thread? hs'.owned hlt]
  · have hnone : m.thread? t = none := by
      cases hth : m.thread? t with
      | none => rfl
      | some th => exact absurd (lt_size_of_thread? hs hth) (Nat.not_lt_of_le hge)
    rw [hnone]
    cases hth : m'.thread? t with
    | none => rfl
    | some th =>
      rcases h.thread?_cases hs hs' hth with hold | ⟨r, -, -, -, rfl⟩
      · rw [hnone] at hold
        cases hold
      · exact hsee r

end Machine

end Async

end DiagnosticsClient
