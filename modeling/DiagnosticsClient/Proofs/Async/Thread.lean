import DiagnosticsClient.Async.Machine
/-
The threads of a machine, and when its queues are sound.

`Machine.thread?` puts together what a machine keeps apart: a task that has not
ended is fresh, waits for a future, or is the one that runs, and has a stack of
frames below. `Machine.Sound` says that the ready queue and the callbacks of
futures name each waiting task exactly once, where its future is, and that
nothing but the end of a task settles the future of a task. So the turn of an
entry finds the task as it left it. `Sound` has a parameter: the futures that
callbacks, timers and groups may settle, whatever else waits for them.
-/
namespace DiagnosticsClient

namespace Async

/-- What a task does next. -/
inductive Top (ρ ν ε : Type) where
  /-- It begins a routine, when its first turn comes. -/
  | fresh (routine : ρ)
  /-- It goes on when a future is settled. -/
  | waits (future : FutureId)
  /-- It begins a routine, now. -/
  | begins (routine : ρ)
  /-- It goes on with an outcome, now. -/
  | resumes (outcome : Outcome ν ε)

/-- A task with this next does not run. -/
def Top.isIdle {ρ ν ε : Type} : Top ρ ν ε → Bool
  | .fresh _ => true
  | .waits _ => true
  | _ => false

/-- A task that has not ended: what it does next, and the frames below. -/
structure Thread (ρ φ ν ε : Type) where
  top : Top ρ ν ε
  stack : List φ

/-- The task that a callback wakes. -/
def Callback.task? : Callback → Option TaskId
  | .wake t => some t
  | _ => none

/-- The future that a callback settles. -/
def Callback.target? : Callback → Option FutureId
  | .release w => some w
  | _ => none

namespace Handle

variable {ν ε : Type}

/-- The task whose turn an entry is. -/
def task? : Handle ν ε → Option TaskId
  | .start t => some t
  | .notify c _ => c.task?
  | _ => none

/-- The future that an entry settles. -/
def target? : Handle ν ε → Option FutureId
  | .start _ => none
  | .notify c _ => c.target?
  | .expire w => some w
  | .deliver f _ => some f

@[simp] theorem task?_notify (c : Callback) (f : FutureId) : (Handle.notify c f : Handle ν ε).task? = c.task? := rfl

@[simp] theorem target?_notify (c : Callback) (f : FutureId) :
    (Handle.notify c f : Handle ν ε).target? = c.target? := rfl

/-- An entry that settles a future is nobody's turn. -/
theorem task?_of_target? {h : Handle ν ε} {w : FutureId} (hh : h.target? = some w) : h.task? = none := by
  cases h with
  | start t => cases hh
  | notify c f => cases c <;> first | rfl | cases hh
  | _ => rfl

end Handle

/-- The task that runs. -/
def Running.task {ρ φ ν ε : Type} : Running ρ φ ν ε → TaskId
  | .begin t _ _ => t
  | .resume t _ _ => t

/-- What the task that runs does next. -/
def Running.thread {ρ φ ν ε : Type} : Running ρ φ ν ε → Thread ρ φ ν ε
  | .begin _ r stack => ⟨.begins r, stack⟩
  | .resume _ o stack => ⟨.resumes o, stack⟩

@[simp] theorem Running.thread_isIdle {ρ φ ν ε : Type} (r : Running ρ φ ν ε) : r.thread.top.isIdle = false := by
  cases r <;> rfl

namespace Machine

variable {σ ρ φ ν ε : Type} {m m' : Machine σ ρ φ ν ε} {t u : TaskId} {f g : FutureId} {T : FutureId → Prop}

/-! ## Threads -/

/-- The routine that a task was made for. -/
def routine? (m : Machine σ ρ φ ν ε) (t : TaskId) : Option ρ := m.tasks[t]?.map (·.routine)

/-- A cancellation of a task is held back. -/
def IsHeld (m : Machine σ ρ φ ν ε) (t : TaskId) : Prop := ∃ task, m.tasks[t]? = some task ∧ task.mustCancel = true

/-- The thread of a task that does not run. -/
def idle? (m : Machine σ ρ φ ν ε) (t : TaskId) : Option (Thread ρ φ ν ε) :=
  match m.tasks[t]? with
  | none => none
  | some task =>
    if m.isSettled task.future then none
    else
      match task.stack, task.waiting with
      | none, _ => some ⟨.fresh task.routine, []⟩
      | some stack, some f => some ⟨.waits f, stack⟩
      | some _, none => none

/-- The thread of a task, unless it has ended. -/
def thread? (m : Machine σ ρ φ ν ε) (t : TaskId) : Option (Thread ρ φ ν ε) :=
  match m.running with
  | some r => if r.task = t then some r.thread else m.idle? t
  | none => m.idle? t

/-- The task whose end a future stands for, if it is there. -/
def owner? (m : Machine σ ρ φ ν ε) (f : FutureId) : Option (Option TaskId) := m.futures[f]?.map (·.task)

/-- What is to be done once a future is settled. -/
def callbacksOf (m : Machine σ ρ φ ν ε) (f : FutureId) : List Callback := (m.futures[f]?.map (·.callbacks)).getD []

/-- A future that stands for itself and not for the end of a task. -/
def IsPlain (m : Machine σ ρ φ ν ε) (f : FutureId) : Prop := m.owner? f = some none

/-- Every task has a future of its own. -/
structure Owned (m : Machine σ ρ φ ν ε) : Prop where
  future : ∀ {t : TaskId} {task : Task ρ φ}, m.tasks[t]? = some task → m.owner? task.future = some (some t)
  task : ∀ {f : FutureId} {t : TaskId}, m.owner? f = some (some t) → ∃ task, m.tasks[t]? = some task ∧ task.future = f

/-- The task whose turn some entry is. -/
theorem mem_filterMap_task? {ready : List (Handle ν ε)} :
    t ∈ ready.filterMap Handle.task? ↔ .start t ∈ ready ∨ ∃ f, .notify (.wake t) f ∈ ready := by
  simp only [List.mem_filterMap]
  constructor
  · rintro ⟨h, hmem, ht⟩
    cases h with
    | start u => cases ht; exact .inl hmem
    | notify c f => cases c <;> cases ht; exact .inr ⟨f, hmem⟩
    | expire w => cases ht
    | deliver f o => cases ht
  · rintro (h | ⟨f, h⟩)
    · exact ⟨_, h, rfl⟩
    · exact ⟨_, h, rfl⟩

theorem mem_callbacks_task? {callbacks : List Callback} : t ∈ callbacks.filterMap Callback.task? ↔ .wake t ∈ callbacks := by
  simp only [List.mem_filterMap]
  constructor
  · rintro ⟨c, hmem, ht⟩
    cases c <;> cases ht
    exact hmem
  · exact fun h => ⟨_, h, rfl⟩

/-- What is going to be settled stands for no task, and is one of some futures. -/
structure Targets (T : FutureId → Prop) (m : Machine σ ρ φ ν ε) : Prop where
  ready : ∀ {h : Handle ν ε} {f : FutureId}, h ∈ m.ready → h.target? = some f → m.IsPlain f ∧ T f
  callbacks : ∀ {f : FutureId} {c : Callback} {g : FutureId}, c ∈ m.callbacksOf f → c.target? = some g →
    m.IsPlain g ∧ T g
  timers : ∀ {i : Timer}, i ∈ m.timers → m.IsPlain i.waiter ∧ T i.waiter
  groups : ∀ {i : Group}, i ∈ m.groups → m.IsPlain i.outer ∧ T i.outer

/-- Every task that waits is named once, by the future it waits for or by the ready queue; so is every fresh one. -/
structure Woken (m : Machine σ ρ φ ν ε) : Prop where
  settled : ∀ {f : FutureId}, m.isSettled f = true → m.callbacksOf f = []
  readyNodup : (m.ready.filterMap Handle.task?).Nodup
  callbacksNodup : ∀ {f : FutureId}, ((m.callbacksOf f).filterMap Callback.task?).Nodup
  start : ∀ {t : TaskId}, .start t ∈ m.ready ↔ ∃ r, m.thread? t = some ⟨.fresh r, []⟩
  notify : ∀ {t : TaskId} {f : FutureId}, .notify (.wake t) f ∈ m.ready ↔
    m.isSettled f = true ∧ ∃ stack, m.thread? t = some ⟨.waits f, stack⟩
  wake : ∀ {t : TaskId} {f : FutureId}, .wake t ∈ m.callbacksOf f ↔
    m.isSettled f = false ∧ ∃ stack, m.thread? t = some ⟨.waits f, stack⟩

/-- Whether the queues name the right tasks depends on those alone that do not run. -/
theorem Woken.congr (h : m.Woken) (hready : m'.ready = m.ready) (hcall : ∀ f, m'.callbacksOf f = m.callbacksOf f)
    (hset : ∀ f, m'.isSettled f = m.isSettled f)
    (hth : ∀ {t : TaskId} {th : Thread ρ φ ν ε}, th.top.isIdle = true → (m'.thread? t = some th ↔ m.thread? t = some th)) :
    m'.Woken where
  settled {f} hf := by rw [hcall, h.settled (hset f ▸ hf)]
  readyNodup := by rw [hready]; exact h.readyNodup
  callbacksNodup {f} := by rw [hcall]; exact h.callbacksNodup
  start {t} := by
    rw [hready, h.start]
    exact exists_congr fun r => (hth rfl).symm
  notify {t f} := by
    rw [hready, hset, h.notify]
    exact and_congr_right fun _ => exists_congr fun stack => (hth rfl).symm
  wake {t f} := by
    rw [hcall, hset, h.wake]
    exact and_congr_right fun _ => exists_congr fun stack => (hth rfl).symm

/-- The task that runs has not ended, and no cancellation of it is held back. -/
def Runs (m : Machine σ ρ φ ν ε) (t : TaskId) : Prop :=
  ∃ task, m.tasks[t]? = some task ∧ m.isSettled task.future = false ∧ task.mustCancel = false

/-- The queues of a machine are in order. -/
structure Sound (T : FutureId → Prop) (m : Machine σ ρ φ ν ε) : Prop where
  owned : m.Owned
  targets : m.Targets T
  woken : m.Woken
  running : ∀ {r : Running ρ φ ν ε}, m.running = some r → m.Runs r.task
  waiting : ∀ {t : TaskId} {task : Task ρ φ} {f : FutureId}, m.tasks[t]? = some task → task.waiting = some f →
    ∃ stack, m.thread? t = some ⟨.waits f, stack⟩

theorem Sound.mono {T' : FutureId → Prop} (hs : m.Sound T) (h : ∀ {f}, m.IsPlain f → T f → T' f) : m.Sound T' :=
  have hand : ∀ {f}, m.IsPlain f ∧ T f → m.IsPlain f ∧ T' f := fun hf => ⟨hf.1, h hf.1 hf.2⟩
  ⟨hs.owned, ⟨fun hm ht => hand (hs.targets.ready hm ht), fun hm ht => hand (hs.targets.callbacks hm ht),
    fun hm => hand (hs.targets.timers hm), fun hm => hand (hs.targets.groups hm)⟩, hs.woken, hs.running, hs.waiting⟩

/-! ## What stays -/

theorem thread?_of_running {r : Running ρ φ ν ε} (h : m.running = some r) : m.thread? r.task = some r.thread := by
  simp [thread?, h]

theorem thread?_of_ne {r : Running ρ φ ν ε} (h : m.running = some r) (hne : r.task ≠ t) : m.thread? t = m.idle? t := by
  simp [thread?, h, hne]

theorem thread?_of_not_running (h : m.running = none) : m.thread? t = m.idle? t := by
  simp [thread?, h]

/-- A task that does not run has nothing to do now. -/
theorem isIdle_of_idle? {th : Thread ρ φ ν ε} (h : m.idle? t = some th) : th.top.isIdle = true := by
  unfold idle? at h
  split at h
  · cases h
  · split at h
    · cases h
    · split at h <;> cases h <;> rfl

/-- Only the running task has something to do now. -/
theorem running_of_thread? {th : Thread ρ φ ν ε} (h : m.thread? t = some th) (hth : th.top.isIdle = false) :
    ∃ r, m.running = some r ∧ r.task = t ∧ r.thread = th := by
  unfold thread? at h
  split at h
  · next r hr =>
    split at h
    · next heq => exact ⟨r, hr, heq, Option.some.inj h⟩
    · rw [isIdle_of_idle? h] at hth
      cases hth
  · rw [isIdle_of_idle? h] at hth
    cases hth

theorem isSettled_eq_false : m.isSettled f = false ↔ m.outcome? f = none := by
  simp [isSettled]

theorem isSettled_iff : m.isSettled f = true ↔ ∃ o, m.outcome? f = some o := by
  simp [isSettled, Option.isSome_iff_exists]

theorem outcome?_of_getElem? {future : Future ν ε} (h : m.futures[f]? = some future) : m.outcome? f = future.outcome := by
  simp [outcome?, h]

theorem idle?_congr (ht : m'.tasks[t]? = m.tasks[t]?)
    (hs : ∀ {task : Task ρ φ}, m.tasks[t]? = some task → m'.isSettled task.future = m.isSettled task.future) :
    m'.idle? t = m.idle? t := by
  unfold idle?
  rw [ht]
  cases h : m.tasks[t]? with
  | none => rfl
  | some task => simp only [hs h]

theorem thread?_congr (hr : m'.running = m.running) (hi : m'.idle? t = m.idle? t) : m'.thread? t = m.thread? t := by
  unfold thread?
  rw [hr, hi]

theorem idle?_eq_none (h : m.tasks.size ≤ t) : m.idle? t = none := by
  simp [idle?, Array.getElem?_eq_none h]

/-- A task with a thread has not ended. -/
theorem Sound.taskOutcome?_of_thread? (hs : m.Sound T) {th : Thread ρ φ ν ε} (h : m.thread? t = some th) :
    m.taskOutcome? t = none := by
  have hidle : ∀ {th}, m.idle? t = some th → m.taskOutcome? t = none := by
    intro th h
    unfold idle? at h
    unfold taskOutcome?
    cases htask : m.tasks[t]? with
    | none => rfl
    | some task =>
      simp only [htask] at h
      split at h
      · cases h
      · next hset => exact isSettled_eq_false.mp (Bool.eq_false_iff.mpr hset)
  unfold thread? at h
  split at h
  · next r hr =>
    split at h
    · next heq =>
      obtain ⟨task, htask, hun, -⟩ := hs.running hr
      rw [heq] at htask
      unfold taskOutcome?
      rw [htask]
      exact isSettled_eq_false.mp hun
    · exact hidle h
  · exact hidle h

theorem lt_size_of_owner? {x : Option TaskId} (h : m.owner? f = some x) : f < m.futures.size := by
  unfold owner? at h
  obtain ⟨future, hget, -⟩ := Option.map_eq_some_iff.mp h
  exact (Array.getElem?_eq_some_iff.mp hget).1

theorem IsPlain.lt_size (h : m.IsPlain f) : f < m.futures.size := lt_size_of_owner? h

/-- The future of a task is not plain. -/
theorem Owned.ne_of_isPlain (h : m.Owned) {task : Task ρ φ} (ht : m.tasks[t]? = some task) (hf : m.IsPlain f) :
    task.future ≠ f := by
  rintro rfl
  have hown := h.future ht
  rw [IsPlain, hown] at hf
  cases hf

/-- Two tasks have two futures. -/
theorem Owned.eq_of_future_eq (h : m.Owned) {task task' : Task ρ φ} (ht : m.tasks[t]? = some task)
    (hu : m.tasks[u]? = some task') (hf : task.future = task'.future) : t = u := by
  have hown := h.future ht
  rw [hf, h.future hu] at hown
  cases hown
  rfl

/-! ## A new machine -/

/-- A machine without tasks and futures. -/
structure IsEmpty (m : Machine σ ρ φ ν ε) : Prop where
  futures : m.futures = #[]
  tasks : m.tasks = #[]
  groups : m.groups = []
  timers : m.timers = #[]
  ready : m.ready = []
  running : m.running = none

theorem IsEmpty.thread? (h : m.IsEmpty) : m.thread? t = none := by
  simp [thread?_of_not_running h.running, idle?, h.tasks]

theorem IsEmpty.routine? (h : m.IsEmpty) : m.routine? t = none := by
  simp [Machine.routine?, h.tasks]

theorem IsEmpty.sound (h : m.IsEmpty) : m.Sound T where
  owned := ⟨fun ht => by simp [h.tasks] at ht, fun hf => by simp [owner?, h.futures] at hf⟩
  targets :=
    { ready := fun hm => by simp [h.ready] at hm
      callbacks := fun hm => by simp [callbacksOf, h.futures] at hm
      timers := fun hm => by simp [h.timers] at hm
      groups := fun hm => by simp [h.groups] at hm }
  woken :=
    { settled := fun _ => by simp [callbacksOf, h.futures]
      readyNodup := by simp [h.ready]
      callbacksNodup := by simp [callbacksOf, h.futures]
      start := by simp [h.ready, h.thread?]
      notify := by simp [h.ready, h.thread?]
      wake := by simp [callbacksOf, h.futures, h.thread?] }
  running hr := by simp [h.running] at hr
  waiting ht := by simp [h.tasks] at ht

end Machine

end Async

end DiagnosticsClient
