import DiagnosticsClient.Proofs.Async.Thread
/-
What a routine can do to the queues.

Each of the things a routine does to a machine at once keeps the queues in
order: it settles a plain future, makes a new one, adds and removes callbacks
that wake no task, puts such entries into the ready queue, holds the
cancellation of a task back, or spawns a task. Most of the work is that of
`settle`, which moves the wake-up of each waiting task from a future to the
ready queue. What leaves the tasks and those who name them alone is treated at
once (`Alike`).
-/
namespace DiagnosticsClient

namespace Async

namespace Machine

variable {σ ρ φ ν ε : Type} {m m' : Machine σ ρ φ ν ε} {t u : TaskId} {f g : FutureId} {T : FutureId → Prop}

/-! ## Settling -/

theorem settle_of_isSettled {o : Outcome ν ε} (h : m.isSettled f = true) : m.settle f o = m := by
  obtain ⟨o', ho⟩ := isSettled_iff.mp h
  unfold settle
  cases hf : m.futures[f]? with
  | none => rfl
  | some future =>
    rw [outcome?_of_getElem? hf] at ho
    simp only [ho]

theorem settle_of_unsettled {o : Outcome ν ε} {future : Future ν ε} (hf : m.futures[f]? = some future)
    (ho : future.outcome = none) :
    m.settle f o =
      { m with
        futures := m.futures.modify f fun future => { future with outcome := some o, callbacks := [] }
        ready := m.ready ++ future.callbacks.map fun c => .notify c f } := by
  simp only [settle, hf, ho]

@[simp] theorem settle_state {o : Outcome ν ε} : (m.settle f o).state = m.state := by
  unfold settle
  split
  · rfl
  · split <;> rfl

@[simp] theorem settle_tasks {o : Outcome ν ε} : (m.settle f o).tasks = m.tasks := by
  unfold settle
  split
  · rfl
  · split <;> rfl

@[simp] theorem settle_running {o : Outcome ν ε} : (m.settle f o).running = m.running := by
  unfold settle
  split
  · rfl
  · split <;> rfl

@[simp] theorem settle_timers {o : Outcome ν ε} : (m.settle f o).timers = m.timers := by
  unfold settle
  split
  · rfl
  · split <;> rfl

@[simp] theorem settle_groups {o : Outcome ν ε} : (m.settle f o).groups = m.groups := by
  unfold settle
  split
  · rfl
  · split <;> rfl

@[simp] theorem size_futures_settle {o : Outcome ν ε} : (m.settle f o).futures.size = m.futures.size := by
  unfold settle
  split
  · rfl
  · split <;> simp

theorem outcome?_settle {o : Outcome ν ε} {future : Future ν ε} (hf : m.futures[f]? = some future)
    (ho : future.outcome = none) (g : FutureId) :
    (m.settle f o).outcome? g = if g = f then some o else m.outcome? g := by
  rw [settle_of_unsettled hf ho]
  unfold outcome?
  rw [Array.getElem?_modify]
  by_cases h : f = g
  · subst h; simp [hf]
  · simp [h, Ne.symm h]

theorem outcome?_settle_of_some {o o' : Outcome ν ε} (h : m.outcome? g = some o') :
    (m.settle f o).outcome? g = some o' := by
  cases hf : m.futures[f]? with
  | none => simpa [settle, hf] using h
  | some future =>
    cases ho : future.outcome with
    | some o'' => simpa [settle, hf, ho] using h
    | none =>
      rw [outcome?_settle hf ho, if_neg, h]
      rintro rfl
      rw [outcome?_of_getElem? hf, ho] at h
      cases h

theorem isSettled_settle_of_ne {o : Outcome ν ε} (h : g ≠ f) : (m.settle f o).isSettled g = m.isSettled g := by
  unfold isSettled
  cases hf : m.futures[f]? with
  | none => simp [settle, hf]
  | some future =>
    cases ho : future.outcome with
    | some o' => simp [settle, hf, ho]
    | none => rw [outcome?_settle hf ho, if_neg h]

@[simp] theorem owner?_settle {o : Outcome ν ε} : (m.settle f o).owner? g = m.owner? g := by
  unfold owner?
  cases hf : m.futures[f]? with
  | none => simp [settle, hf]
  | some future =>
    cases ho : future.outcome with
    | some o' => simp [settle, hf, ho]
    | none =>
      rw [settle_of_unsettled hf ho]
      simp only [Array.getElem?_modify]
      by_cases h : f = g
      · subst h; simp [hf]
      · simp [h]

/-- Settling a plain future touches no thread. -/
theorem thread?_settle {o : Outcome ν ε} (ho : m.Owned) (hf : m.IsPlain f) (t : TaskId) :
    (m.settle f o).thread? t = m.thread? t := by
  refine thread?_congr settle_running (idle?_congr (by rw [settle_tasks]) fun htask => ?_)
  exact isSettled_settle_of_ne (ho.ne_of_isPlain htask hf)

section settle

variable {o : Outcome ν ε}

theorem isSettled_settle (hf : f < m.futures.size) (hun : m.isSettled f = false) (g : FutureId) :
    (m.settle f o).isSettled g = (decide (g = f) || m.isSettled g) := by
  have hget := Array.getElem?_eq_getElem hf
  have hnone : m.futures[f].outcome = none := by simpa [isSettled, outcome?_of_getElem? hget] using hun
  unfold isSettled
  rw [outcome?_settle hget hnone]
  by_cases h : g = f <;> simp [h]

theorem callbacksOf_settle (hf : f < m.futures.size) (hun : m.isSettled f = false) (g : FutureId) :
    (m.settle f o).callbacksOf g = if g = f then [] else m.callbacksOf g := by
  have hget := Array.getElem?_eq_getElem hf
  rw [settle_of_unsettled hget (by simpa [isSettled, outcome?_of_getElem? hget] using hun)]
  unfold callbacksOf
  rw [Array.getElem?_modify]
  by_cases h : f = g
  · subst h; simp [hget]
  · simp [h, Ne.symm h]

theorem ready_settle (hun : m.isSettled f = false) :
    (m.settle f o).ready = m.ready ++ (m.callbacksOf f).map fun c => .notify c f := by
  cases hget : m.futures[f]? with
  | none => simp [settle, callbacksOf, hget]
  | some future =>
    rw [settle_of_unsettled hget (by simpa [isSettled, outcome?_of_getElem? hget] using hun)]
    simp [callbacksOf, hget]

theorem Owned.settle (h : m.Owned) : (m.settle f o).Owned where
  future {t task} := by simpa using h.future
  task {g t} := by simpa using h.task

theorem Targets.settle (h : m.Targets T) : (m.settle f o).Targets T := by
  cases hun : m.isSettled f with
  | true => rwa [settle_of_isSettled hun]
  | false =>
    refine ⟨?_, ?_, ?_, ?_⟩
    · intro e g hmem hg
      rw [ready_settle hun] at hmem
      simp only [List.mem_append, List.mem_map] at hmem
      rcases hmem with hmem | ⟨c, hmem, rfl⟩
      · simpa [IsPlain] using h.ready hmem hg
      · simpa [IsPlain] using h.callbacks hmem hg
    · intro g c w hmem hw
      rcases Nat.lt_or_ge f m.futures.size with hlt | hge
      · rw [callbacksOf_settle hlt hun] at hmem
        split at hmem
        · cases hmem
        · simpa [IsPlain] using h.callbacks hmem hw
      · simp only [Machine.settle, Array.getElem?_eq_none hge] at hmem ⊢
        exact h.callbacks hmem hw
    · intro i
      simpa [IsPlain] using h.timers
    · intro i
      simpa [IsPlain] using h.groups

/-- Each wake-up moves from the future to the ready queue. -/
theorem Woken.settle (h : m.Woken) (hf : f < m.futures.size) (hthread : ∀ t, (m.settle f o).thread? t = m.thread? t) :
    (m.settle f o).Woken := by
  cases hun : m.isSettled f with
  | true => rwa [settle_of_isSettled hun]
  | false =>
    have hcallbacks := callbacksOf_settle (o := o) hf hun
    have hready := ready_settle (o := o) hun
    have hsettled := isSettled_settle (o := o) hf hun
    refine ⟨?_, ?_, ?_, ?_, ?_, ?_⟩
    · intro g hg
      rw [hcallbacks]
      split
      · rfl
      · next hne => exact h.settled (by simpa [hsettled, hne] using hg)
    · -- a task named by the future waits for it, so the ready queue does not name it yet
      have hmap : ((m.callbacksOf f).map fun c => (Handle.notify c f : Handle ν ε)).filterMap Handle.task? =
          (m.callbacksOf f).filterMap Callback.task? := by
        rw [List.filterMap_map]
        rfl
      rw [hready, List.filterMap_append, hmap, List.nodup_append]
      refine ⟨h.readyNodup, h.callbacksNodup, ?_⟩
      rintro t ht u hu rfl
      obtain ⟨-, stack, hwaits⟩ := h.wake.mp (mem_callbacks_task?.mp hu)
      rcases mem_filterMap_task?.mp ht with hstart | ⟨g, hnotify⟩
      · obtain ⟨r, hfresh⟩ := h.start.mp hstart
        rw [hwaits] at hfresh
        cases hfresh
      · obtain ⟨hg, stack', hwaits'⟩ := h.notify.mp hnotify
        rw [hwaits] at hwaits'
        cases hwaits'
        rw [hun] at hg
        cases hg
    · intro g
      rw [hcallbacks]
      split
      · exact List.nodup_nil
      · exact h.callbacksNodup
    · intro t
      rw [hready, hthread, ← h.start]
      simp
    · intro t g
      rw [hready, hthread, hsettled, List.mem_append, h.notify]
      simp only [List.mem_map, Handle.notify.injEq]
      by_cases heq : g = f
      · subst heq
        simp [h.wake, hun]
      · simp [heq, Ne.symm heq]
    · intro t g
      rw [hthread, hsettled, hcallbacks]
      by_cases heq : g = f
      · simp [heq]
      · simp [heq, h.wake]

end settle

/-- Settling a plain future keeps the queues in order. -/
theorem Sound.settle {o : Outcome ν ε} (hs : m.Sound T) (hf : m.IsPlain f) : (m.settle f o).Sound T where
  owned := hs.owned.settle
  targets := hs.targets.settle
  woken := hs.woken.settle hf.lt_size (thread?_settle hs.owned hf)
  running {r} hr := by
    obtain ⟨task, htask, hun, hno⟩ := hs.running (by simpa using hr)
    refine ⟨task, by simpa using htask, ?_, hno⟩
    rw [isSettled_settle_of_ne (hs.owned.ne_of_isPlain htask hf), hun]
  waiting {t task g} htask hwait := by
    rw [thread?_settle hs.owned hf]
    exact hs.waiting (by simpa using htask) hwait

/-! ## What leaves the tasks alone -/

/-- Two machines whose tasks are the same, and named by the same entries and callbacks. -/
structure Alike (m m' : Machine σ ρ φ ν ε) : Prop where
  running : m'.running = m.running
  tasks : m'.tasks = m.tasks
  outcome : ∀ f, m'.outcome? f = m.outcome? f
  owner : ∀ {f : FutureId} {x : Option TaskId}, m.owner? f = some x → m'.owner? f = some x
  task : ∀ {f : FutureId} {t : TaskId}, m'.owner? f = some (some t) → m.owner? f = some (some t)
  ready : ∀ {h : Handle ν ε}, h.task? ≠ none → (h ∈ m'.ready ↔ h ∈ m.ready)
  readyTasks : m'.ready.filterMap Handle.task? = m.ready.filterMap Handle.task?
  callbacks : ∀ f, (m'.callbacksOf f).filterMap Callback.task? = (m.callbacksOf f).filterMap Callback.task?

theorem Alike.isSettled (h : m.Alike m') (f : FutureId) : m'.isSettled f = m.isSettled f := by
  unfold Machine.isSettled
  rw [h.outcome]

theorem Alike.thread? (h : m.Alike m') (t : TaskId) : m'.thread? t = m.thread? t :=
  thread?_congr h.running (idle?_congr (by rw [h.tasks]) fun _ => h.isSettled _)

theorem Alike.sound (h : m.Alike m') (hs : m.Sound T) (ht : m'.Targets T)
    (hc : ∀ {f}, m.isSettled f = true → m'.callbacksOf f = []) : m'.Sound T := by
  have hwake : ∀ {t f}, .wake t ∈ m'.callbacksOf f ↔ .wake t ∈ m.callbacksOf f := by
    intro t f
    rw [← mem_callbacks_task?, h.callbacks, mem_callbacks_task?]
  refine ⟨⟨?_, ?_⟩, ht, ⟨?_, ?_, ?_, ?_, ?_, ?_⟩, ?_, ?_⟩
  · intro t task htask
    exact h.owner (hs.owned.future (h.tasks ▸ htask))
  · intro f t hf
    rw [h.tasks]
    exact hs.owned.task (h.task hf)
  · intro f hf
    exact hc (h.isSettled f ▸ hf)
  · rw [h.readyTasks]
    exact hs.woken.readyNodup
  · intro f
    rw [h.callbacks]
    exact hs.woken.callbacksNodup
  · intro t
    rw [h.ready (by simp [Handle.task?]), h.thread?, hs.woken.start]
  · intro t f
    rw [h.ready (by simp [Callback.task?]), h.thread?, h.isSettled, hs.woken.notify]
  · intro t f
    rw [hwake, h.thread?, h.isSettled, hs.woken.wake]
  · intro r hr
    obtain ⟨task, htask, hun, hno⟩ := hs.running (h.running ▸ hr)
    exact ⟨task, h.tasks ▸ htask, by rw [h.isSettled, hun], hno⟩
  · intro t task f htask hwait
    rw [h.thread?]
    exact hs.waiting (h.tasks ▸ htask) hwait

theorem Alike.of_eq (hr : m'.running = m.running) (ht : m'.tasks = m.tasks) (hf : m'.futures = m.futures)
    (hq : m'.ready = m.ready) : m.Alike m' where
  running := hr
  tasks := ht
  outcome f := by unfold outcome?; rw [hf]
  owner h := by unfold owner? at *; rw [hf, h]
  task h := by unfold owner? at *; rw [← h, hf]
  ready _ := by rw [hq]
  readyTasks := by rw [hq]
  callbacks f := by unfold callbacksOf; rw [hf]

/-- What is no part of the queues may be changed, but for timers and groups to other futures. -/
theorem Sound.of_eq (hs : m.Sound T) (hr : m'.running = m.running) (ht : m'.tasks = m.tasks)
    (hf : m'.futures = m.futures) (hq : m'.ready = m.ready)
    (htimers : ∀ i ∈ m'.timers, m.IsPlain i.waiter ∧ T i.waiter)
    (hgroups : ∀ i ∈ m'.groups, m.IsPlain i.outer ∧ T i.outer) : m'.Sound T := by
  have hown : ∀ f, m'.owner? f = m.owner? f := fun f => by unfold owner?; rw [hf]
  have hcall : ∀ f, m'.callbacksOf f = m.callbacksOf f := fun f => by unfold callbacksOf; rw [hf]
  refine (Alike.of_eq hr ht hf hq).sound hs ⟨?_, ?_, ?_, ?_⟩ fun h => by rw [hcall, hs.woken.settled h]
  · intro h f hmem hg
    rw [IsPlain, hown]
    exact hs.targets.ready (hq ▸ hmem) hg
  · intro f c g hmem hg
    rw [IsPlain, hown]
    exact hs.targets.callbacks (hcall f ▸ hmem) hg
  · intro i hmem
    rw [IsPlain, hown]
    exact htimers i hmem
  · intro i hmem
    rw [IsPlain, hown]
    exact hgroups i hmem

/-! ### New futures -/

theorem outcome?_push {future : Future ν ε} (h : future.outcome = none) (f : FutureId) :
    ({ m with futures := m.futures.push future } : Machine σ ρ φ ν ε).outcome? f = m.outcome? f := by
  unfold outcome?
  simp only [Array.getElem?_push]
  split
  · next heq => subst heq; simp [h]
  · rfl

theorem owner?_push (future : Future ν ε) (f : FutureId) :
    ({ m with futures := m.futures.push future } : Machine σ ρ φ ν ε).owner? f =
      if f = m.futures.size then some future.task else m.owner? f := by
  unfold owner?
  simp only [Array.getElem?_push]
  split <;> rfl

theorem callbacksOf_push {future : Future ν ε} (h : future.callbacks = []) (f : FutureId) :
    ({ m with futures := m.futures.push future } : Machine σ ρ φ ν ε).callbacksOf f = m.callbacksOf f := by
  unfold callbacksOf
  simp only [Array.getElem?_push]
  split
  · next heq => subst heq; simp [h]
  · rfl

theorem newFuture_alike (m : Machine σ ρ φ ν ε) : m.Alike m.newFuture.1 where
  running := rfl
  tasks := rfl
  outcome := outcome?_push rfl
  owner {f x} h := by
    have hne : f ≠ m.futures.size := Nat.ne_of_lt (lt_size_of_owner? h)
    rw [newFuture, owner?_push, if_neg hne, h]
  task {f t} h := by
    rw [newFuture, owner?_push] at h
    split at h
    · cases h
    · exact h
  ready _ := .rfl
  readyTasks := rfl
  callbacks f := by rw [newFuture, callbacksOf_push rfl]

theorem Sound.newFuture (hs : m.Sound T) : m.newFuture.1.Sound T := by
  have hcall : ∀ f, m.newFuture.1.callbacksOf f = m.callbacksOf f := callbacksOf_push (m := m) rfl
  have hal := m.newFuture_alike
  refine hal.sound hs ⟨?_, ?_, ?_, ?_⟩ fun h => by rw [hcall, hs.woken.settled h]
  · exact fun hmem hf => ⟨hal.owner (hs.targets.ready hmem hf).1, (hs.targets.ready hmem hf).2⟩
  · intro f c g hmem hg
    rw [hcall] at hmem
    exact ⟨hal.owner (hs.targets.callbacks hmem hg).1, (hs.targets.callbacks hmem hg).2⟩
  · exact fun hmem => ⟨hal.owner (hs.targets.timers hmem).1, (hs.targets.timers hmem).2⟩
  · exact fun hmem => ⟨hal.owner (hs.targets.groups hmem).1, (hs.targets.groups hmem).2⟩

/-! ### Callbacks -/

/-- The machine with the callbacks of a future changed. -/
def mapCallbacks (m : Machine σ ρ φ ν ε) (f : FutureId) (k : List Callback → List Callback) : Machine σ ρ φ ν ε :=
  { m with futures := m.futures.modify f fun future => { future with callbacks := k future.callbacks } }

theorem callbacksOf_mapCallbacks {k : List Callback → List Callback} (hlt : f < m.futures.size) (g : FutureId) :
    (m.mapCallbacks f k).callbacksOf g = if g = f then k (m.callbacksOf f) else m.callbacksOf g := by
  unfold callbacksOf mapCallbacks
  simp only [Array.getElem?_modify]
  by_cases h : f = g
  · subst h
    simp [Array.getElem?_eq_getElem hlt]
  · simp [h, Ne.symm h]

theorem mapCallbacks_of_ge {k : List Callback → List Callback} (hge : m.futures.size ≤ f) :
    m.mapCallbacks f k = m := by
  unfold mapCallbacks
  have hsame : (m.futures.modify f fun future => { future with callbacks := k future.callbacks }) = m.futures := by
    apply Array.ext_getElem?
    intro g
    rw [Array.getElem?_modify]
    split
    · next heq => subst heq; simp [Array.getElem?_eq_none hge]
    · rfl
  rw [hsame]

@[simp] theorem size_futures_mapCallbacks {k : List Callback → List Callback} :
    (m.mapCallbacks f k).futures.size = m.futures.size := by
  simp [mapCallbacks]

@[simp] theorem outcome?_mapCallbacks {k : List Callback → List Callback} (g : FutureId) :
    (m.mapCallbacks f k).outcome? g = m.outcome? g := by
  unfold outcome? mapCallbacks
  simp only [Array.getElem?_modify]
  split
  · next heq => subst heq; cases m.futures[f]? <;> rfl
  · rfl

@[simp] theorem owner?_mapCallbacks {k : List Callback → List Callback} (g : FutureId) :
    (m.mapCallbacks f k).owner? g = m.owner? g := by
  unfold owner? mapCallbacks
  simp only [Array.getElem?_modify]
  split
  · next heq => subst heq; cases m.futures[f]? <;> rfl
  · rfl

theorem mapCallbacks_alike {k : List Callback → List Callback}
    (hc : ∀ cs : List Callback, (k cs).filterMap Callback.task? = cs.filterMap Callback.task?) :
    m.Alike (m.mapCallbacks f k) where
  running := rfl
  tasks := rfl
  outcome := outcome?_mapCallbacks
  owner h := by rw [owner?_mapCallbacks, h]
  task h := by rwa [owner?_mapCallbacks] at h
  ready _ := .rfl
  readyTasks := rfl
  callbacks g := by
    rcases Nat.lt_or_ge f m.futures.size with hlt | hge
    · rw [callbacksOf_mapCallbacks hlt]
      split
      · next heq => rw [hc, heq]
      · rfl
    · rw [mapCallbacks_of_ge hge]

/-- Changing the callbacks of a future keeps the queues in order, if the change names the same tasks. -/
theorem Sound.mapCallbacks {k : List Callback → List Callback} (hs : m.Sound T)
    (hc : ∀ cs : List Callback, (k cs).filterMap Callback.task? = cs.filterMap Callback.task?)
    (hset : m.isSettled f = true → k [] = [])
    (hp : ∀ {c w}, c ∈ k (m.callbacksOf f) → c.target? = some w → c ∈ m.callbacksOf f ∨ m.IsPlain w ∧ T w) :
    (m.mapCallbacks f k).Sound T := by
  have hal : m.Alike (m.mapCallbacks f k) := mapCallbacks_alike hc
  rcases Nat.lt_or_ge f m.futures.size with hlt | hge
  · have hcall := callbacksOf_mapCallbacks (m := m) (k := k) hlt
    refine hal.sound hs ⟨?_, ?_, ?_, ?_⟩ ?_
    · intro h g hmem hg
      obtain ⟨hplain, ht⟩ := hs.targets.ready hmem hg
      exact ⟨hal.owner hplain, ht⟩
    · intro g c w hmem hw
      rw [hcall] at hmem
      have hor : c ∈ m.callbacksOf g ∨ m.IsPlain w ∧ T w := by
        split at hmem
        · next heq => subst heq; exact hp hmem hw
        · exact .inl hmem
      rcases hor with hmem | ⟨hplain, ht⟩
      · obtain ⟨hplain, ht⟩ := hs.targets.callbacks hmem hw
        exact ⟨hal.owner hplain, ht⟩
      · exact ⟨hal.owner hplain, ht⟩
    · intro i hmem
      obtain ⟨hplain, ht⟩ := hs.targets.timers hmem
      exact ⟨hal.owner hplain, ht⟩
    · intro i hmem
      obtain ⟨hplain, ht⟩ := hs.targets.groups hmem
      exact ⟨hal.owner hplain, ht⟩
    · intro g hg
      rw [hcall]
      split
      · next heq => subst heq; rw [hs.woken.settled hg, hset hg]
      · exact hs.woken.settled hg
  · rwa [mapCallbacks_of_ge hge]

theorem filterMap_task?_filter {c : Callback} (hc : c.task? = none) (cs : List Callback) :
    (cs.filter (· ≠ c)).filterMap Callback.task? = cs.filterMap Callback.task? := by
  rw [List.filterMap_filter]
  congr 1
  funext c'
  by_cases h : c' = c <;> simp [h, hc]

theorem Sound.removeCallback {c : Callback} (hs : m.Sound T) (hc : c.task? = none) : (m.removeCallback f c).Sound T := by
  refine hs.mapCallbacks (f := f) (k := fun cs => cs.filter (· ≠ c)) (filterMap_task?_filter hc) (fun _ => rfl) ?_
  exact fun hmem _ => .inl (List.mem_filter.mp hmem).1

/-! ### Entries of the ready queue -/

theorem enqueue_alike {h : Handle ν ε} (hh : h.task? = none) : m.Alike (m.enqueue h) where
  running := rfl
  tasks := rfl
  outcome _ := rfl
  owner hx := hx
  task hx := hx
  ready {h'} hne := by
    simp only [enqueue, List.mem_append, List.mem_singleton, or_iff_left_iff_imp]
    rintro rfl
    exact absurd hh hne
  readyTasks := by simp [enqueue, hh]
  callbacks _ := rfl

theorem Sound.enqueue {h : Handle ν ε} (hs : m.Sound T) (hh : h.task? = none)
    (hp : ∀ {w}, h.target? = some w → m.IsPlain w ∧ T w) : (m.enqueue h).Sound T := by
  refine (enqueue_alike hh).sound hs ⟨?_, hs.targets.callbacks, hs.targets.timers, hs.targets.groups⟩ hs.woken.settled
  intro h' f hmem hf
  simp only [Machine.enqueue, List.mem_append, List.mem_singleton] at hmem
  rcases hmem with hmem | rfl
  · exact hs.targets.ready hmem hf
  · exact hp hf

theorem Sound.addCallback {c : Callback} (hs : m.Sound T) (hc : c.task? = none)
    (hp : ∀ {w}, c.target? = some w → m.IsPlain w ∧ T w) : (m.addCallback f c).Sound T := by
  unfold Machine.addCallback
  split
  · exact hs.enqueue hc hp
  · next hset =>
    refine hs.mapCallbacks (f := f) (k := (· ++ [c])) (fun cs => ?_) (fun h => absurd h hset) fun hmem hw => ?_
    · simp [hc]
    · rcases List.mem_append.mp hmem with hmem | hmem
      · exact .inl hmem
      · cases List.mem_singleton.mp hmem
        exact .inr (hp hw)

/-! ## What changes the tasks -/

/-- The machine with the cancellation of a task held back or taken back. -/
def setHeld (m : Machine σ ρ φ ν ε) (t : TaskId) (held : Bool) : Machine σ ρ φ ν ε :=
  m.modifyTask t fun task => { task with mustCancel := held }

theorem getElem?_setHeld {held : Bool} {u : TaskId} {task : Task ρ φ} (h : m.tasks[u]? = some task) :
    (m.setHeld t held).tasks[u]? = some { task with mustCancel := if t = u then held else task.mustCancel } := by
  simp only [setHeld, modifyTask, Array.getElem?_modify, h]
  split <;> rfl

theorem thread?_setHeld (m : Machine σ ρ φ ν ε) (t : TaskId) (held : Bool) (u : TaskId) :
    (m.setHeld t held).thread? u = m.thread? u := by
  refine thread?_congr rfl ?_
  unfold idle?
  cases h : m.tasks[u]? with
  | none =>
    have hnone : (m.setHeld t held).tasks[u]? = none := by
      simp [setHeld, modifyTask, Array.getElem?_modify, h]
    simp only [hnone]
  | some task => simp only [getElem?_setHeld h]; rfl

theorem exists_of_setHeld {held : Bool} {u : TaskId} {task : Task ρ φ} (h : (m.setHeld t held).tasks[u]? = some task) :
    ∃ task', m.tasks[u]? = some task' ∧ task = { task' with mustCancel := if t = u then held else task'.mustCancel } := by
  cases h' : m.tasks[u]? with
  | none => simp [setHeld, modifyTask, Array.getElem?_modify, h'] at h
  | some task' =>
    rw [getElem?_setHeld h'] at h
    exact ⟨task', rfl, (Option.some.inj h).symm⟩

/-- Holding a cancellation back keeps the queues in order, unless the task runs. -/
theorem Sound.setHeld {held : Bool} (hs : m.Sound T) (hr : ∀ r, m.running = some r → r.task = t → held = false) :
    (m.setHeld t held).Sound T := by
  refine ⟨⟨?_, ?_⟩, ⟨hs.targets.ready, hs.targets.callbacks, hs.targets.timers, hs.targets.groups⟩,
    ⟨hs.woken.settled, hs.woken.readyNodup, hs.woken.callbacksNodup, ?_, ?_, ?_⟩, ?_, ?_⟩
  · intro u task h
    obtain ⟨task', h', rfl⟩ := exists_of_setHeld h
    have hown := hs.owned.future h'
    exact hown
  · intro f u hf
    obtain ⟨task, h, hfut⟩ := hs.owned.task hf
    exact ⟨_, getElem?_setHeld h, hfut⟩
  · intro u
    rw [thread?_setHeld]
    exact hs.woken.start
  · intro u f
    rw [thread?_setHeld]
    exact hs.woken.notify
  · intro u f
    rw [thread?_setHeld]
    exact hs.woken.wake
  · intro r hrun
    obtain ⟨task, h, hun, hno⟩ := hs.running hrun
    refine ⟨_, getElem?_setHeld h, hun, ?_⟩
    split
    · next heq => exact hr r hrun heq.symm
    · exact hno
  · intro u task f h hw
    obtain ⟨task', h', rfl⟩ := exists_of_setHeld h
    rw [thread?_setHeld]
    have hwaits := hs.waiting h' hw
    exact hwaits

/-- Whoever waits does so as his task says. -/
theorem waiting_of_thread? {task : Task ρ φ} {w : FutureId} {stack : List φ} (h : m.thread? t = some ⟨.waits w, stack⟩)
    (htask : m.tasks[t]? = some task) : task.waiting = some w := by
  have hidle : m.idle? t = some ⟨.waits w, stack⟩ := by
    cases hr : m.running with
    | none => rwa [thread?_of_not_running hr] at h
    | some x =>
      refine (thread?_of_ne hr fun heq => ?_).symm.trans h
      have hbusy := x.thread_isIdle
      rw [Option.some.inj ((thread?_of_running hr).symm.trans (heq ▸ h))] at hbusy
      cases hbusy
  simp only [idle?, htask] at hidle
  split at hidle
  · cases hidle
  · split at hidle <;> cases hidle
    assumption

/-- **What it does to cancel a task** that does not run, and waits, if it waits, for a future that is no task's: nothing if
the task has ended; else that future is settled, or the cancellation is held back. -/
theorem Sound.cancelTask_cases (hs : m.Sound T) (hlt : t < m.tasks.size) (hidle : ∀ x, m.running = some x → x.task ≠ t)
    (hplain : ∀ {w stack}, m.thread? t = some ⟨.waits w, stack⟩ → m.IsPlain w) :
    ((m.cancelTask t).1 = m ∧ m.thread? t = none) ∨
      (∃ w stack, m.thread? t = some ⟨.waits w, stack⟩ ∧ m.isSettled w = false ∧ (m.cancelTask t).1 = m.settle w .cancelled) ∨
      (m.cancelTask t).1 = m.setHeld t true ∧ ∀ w stack, m.thread? t = some ⟨.waits w, stack⟩ → m.isSettled w = true := by
  have htask := Array.getElem?_eq_getElem hlt
  generalize m.tasks[t] = task at htask
  have hof : m.futureOf t = task.future := by simp [futureOf, htask]
  obtain ⟨own, hown, howner⟩ := Option.map_eq_some_iff.mp (hs.owned.future htask)
  unfold Machine.cancelTask Machine.cancelFuture
  simp only [hof, hown, howner]
  split
  · next hsome =>
    have hset : m.isSettled task.future = true := by
      unfold isSettled
      rw [outcome?_of_getElem? hown]
      exact hsome
    have hnone : m.idle? t = none := by simp [idle?, htask, hset]
    refine .inl ⟨rfl, ?_⟩
    cases hr : m.running with
    | none => rw [thread?_of_not_running hr, hnone]
    | some x => rw [thread?_of_ne hr (hidle x hr), hnone]
  · simp only [htask, Option.bind_some]
    cases hw : task.waiting with
    | none => exact .inr (.inr ⟨rfl, fun w stack hth => by cases hw.symm.trans (waiting_of_thread? hth htask)⟩)
    | some w =>
      obtain ⟨stack, hth⟩ := hs.waiting htask hw
      obtain ⟨waited, hget, hnone⟩ := Option.map_eq_some_iff.mp (hplain hth)
      obtain ⟨n, hn⟩ := Nat.exists_eq_add_of_lt hlt
      simp only [hn, Machine.cancelFuture, hget, hnone]
      have hset : m.isSettled w = waited.outcome.isSome := by rw [isSettled, outcome?_of_getElem? hget]
      cases hout : waited.outcome with
      | some o =>
        refine .inr (.inr ⟨rfl, fun w' stack' hth' => ?_⟩)
        cases hth.symm.trans hth'
        rw [hset, hout]
        rfl
      | none => exact .inr (.inl ⟨w, stack, hth, by rw [hset, hout]; rfl, rfl⟩)

/-! ### New tasks -/

section spawn

variable (m : Machine σ ρ φ ν ε) (r : ρ)

theorem getElem?_spawn (u : TaskId) :
    (m.spawn r).1.tasks[u]? = if u = m.tasks.size then some { future := m.futures.size, routine := r } else m.tasks[u]? := by
  simp only [spawn, Array.getElem?_push]

theorem outcome?_spawn (f : FutureId) : (m.spawn r).1.outcome? f = m.outcome? f :=
  outcome?_push (m := m) rfl f

theorem owner?_spawn (f : FutureId) :
    (m.spawn r).1.owner? f = if f = m.futures.size then some (some m.tasks.size) else m.owner? f :=
  owner?_push (m := m) { task := some m.tasks.size } f

theorem callbacksOf_spawn (f : FutureId) : (m.spawn r).1.callbacksOf f = m.callbacksOf f :=
  callbacksOf_push (m := m) rfl f

theorem isSettled_spawn (f : FutureId) : (m.spawn r).1.isSettled f = m.isSettled f := by
  unfold isSettled
  rw [outcome?_spawn]

variable {m r}

theorem thread?_spawn_of_ne (hu : u ≠ m.tasks.size) : (m.spawn r).1.thread? u = m.thread? u :=
  thread?_congr rfl (idle?_congr (by rw [getElem?_spawn, if_neg hu]) fun _ => isSettled_spawn m r _)

theorem thread?_spawn_self (hr : ∀ x, m.running = some x → x.task < m.tasks.size) :
    (m.spawn r).1.thread? m.tasks.size = some ⟨.fresh r, []⟩ := by
  have hidle : (m.spawn r).1.idle? m.tasks.size = some ⟨.fresh r, []⟩ := by
    unfold idle?
    have hset : m.isSettled m.futures.size = false := by simp [isSettled, outcome?]
    simp only [getElem?_spawn, if_pos, isSettled_spawn, hset, Bool.false_eq_true, if_false]
  cases h : m.running with
  | none => rw [thread?_of_not_running (show (m.spawn r).1.running = none from h), hidle]
  | some x => rw [thread?_of_ne (show (m.spawn r).1.running = some x from h) (Nat.ne_of_lt (hr x h)), hidle]

end spawn

theorem Runs.lt_size (h : m.Runs t) : t < m.tasks.size := by
  obtain ⟨task, htask, -⟩ := h
  exact (Array.getElem?_eq_some_iff.mp htask).1

theorem lt_size_of_thread? {th : Thread ρ φ ν ε} (hs : m.Sound T) (h : m.thread? t = some th) : t < m.tasks.size := by
  rcases Nat.lt_or_ge t m.tasks.size with hlt | hge
  · exact hlt
  · cases hr : m.running with
    | none => rw [thread?_of_not_running hr, idle?_eq_none hge] at h; cases h
    | some x =>
      have hne : x.task ≠ t := Nat.ne_of_lt (Nat.lt_of_lt_of_le (hs.running hr).lt_size hge)
      rw [thread?_of_ne hr hne, idle?_eq_none hge] at h
      cases h

/-- A new task keeps the queues in order: the ready queue names it. -/
theorem Sound.spawn (hs : m.Sound T) (r : ρ) : (m.spawn r).1.Sound T := by
  have hself := thread?_spawn_self (r := r) fun x hx => (hs.running hx).lt_size
  have hready : (m.spawn r).1.ready = m.ready ++ [.start m.tasks.size] := rfl
  have hplain : ∀ {f}, m.IsPlain f → (m.spawn r).1.IsPlain f := by
    intro f hf
    rw [IsPlain, owner?_spawn, if_neg (Nat.ne_of_lt hf.lt_size)]
    exact hf
  have hnew : ∀ {top stack}, m.thread? m.tasks.size ≠ some ⟨top, stack⟩ :=
    fun h => Nat.lt_irrefl _ (lt_size_of_thread? hs h)
  refine ⟨⟨?_, ?_⟩, ⟨?_, ?_, ?_, ?_⟩, ⟨?_, ?_, ?_, ?_, ?_, ?_⟩, ?_, ?_⟩
  · intro u task h
    rw [getElem?_spawn] at h
    rw [owner?_spawn]
    split at h
    · next heq => cases h; simp [heq]
    · have hown := hs.owned.future h
      rw [if_neg (Nat.ne_of_lt (lt_size_of_owner? hown)), hown]
  · intro f u hf
    rw [owner?_spawn] at hf
    simp only [getElem?_spawn]
    split at hf
    · next heq => cases hf; exact ⟨_, if_pos rfl, heq.symm⟩
    · obtain ⟨task, h, hfut⟩ := hs.owned.task hf
      have hne : u ≠ m.tasks.size := Nat.ne_of_lt (Array.getElem?_eq_some_iff.mp h).1
      exact ⟨task, by rw [if_neg hne, h], hfut⟩
  · intro h f hmem hf
    rw [hready, List.mem_append, List.mem_singleton] at hmem
    rcases hmem with hmem | rfl
    · exact ⟨hplain (hs.targets.ready hmem hf).1, (hs.targets.ready hmem hf).2⟩
    · cases hf
  · intro f c g hmem hg
    rw [callbacksOf_spawn] at hmem
    exact ⟨hplain (hs.targets.callbacks hmem hg).1, (hs.targets.callbacks hmem hg).2⟩
  · exact fun hmem => ⟨hplain (hs.targets.timers hmem).1, (hs.targets.timers hmem).2⟩
  · exact fun hmem => ⟨hplain (hs.targets.groups hmem).1, (hs.targets.groups hmem).2⟩
  · intro f hf
    rw [isSettled_spawn] at hf
    rw [callbacksOf_spawn, hs.woken.settled hf]
  · rw [hready, List.filterMap_append, List.nodup_append]
    refine ⟨hs.woken.readyNodup, by simp [Handle.task?], ?_⟩
    simp only [List.filterMap_cons, Handle.task?, List.filterMap_nil, List.mem_singleton]
    rintro u hu _ rfl rfl
    rcases mem_filterMap_task?.mp hu with hstart | ⟨g, hnotify⟩
    · obtain ⟨r', h⟩ := hs.woken.start.mp hstart
      exact hnew h
    · obtain ⟨-, stack, h⟩ := hs.woken.notify.mp hnotify
      exact hnew h
  · intro f
    rw [callbacksOf_spawn]
    exact hs.woken.callbacksNodup
  · intro u
    rw [hready, List.mem_append, List.mem_singleton]
    by_cases hu : u = m.tasks.size
    · subst hu
      simp [hself]
    · simp [thread?_spawn_of_ne hu, hs.woken.start, hu]
  · intro u f
    rw [hready, List.mem_append, List.mem_singleton, isSettled_spawn]
    by_cases hu : u = m.tasks.size
    · subst hu
      rw [hself, hs.woken.notify]
      simp [hnew]
    · simp [thread?_spawn_of_ne hu, hs.woken.notify]
  · intro u f
    rw [callbacksOf_spawn, isSettled_spawn, hs.woken.wake]
    by_cases hu : u = m.tasks.size
    · subst hu
      rw [hself]
      simp [hnew]
    · rw [thread?_spawn_of_ne hu]
  · intro x hx
    obtain ⟨task, h, hun, hno⟩ := hs.running hx
    have hne : x.task ≠ m.tasks.size := Nat.ne_of_lt (Array.getElem?_eq_some_iff.mp h).1
    exact ⟨task, by rw [getElem?_spawn, if_neg hne, h], by rw [isSettled_spawn, hun], hno⟩
  · intro u task f h hw
    rw [getElem?_spawn] at h
    split at h
    · cases h; cases hw
    · next hne => rw [thread?_spawn_of_ne hne]; exact hs.waiting h hw

end Machine

end Async

end DiagnosticsClient
