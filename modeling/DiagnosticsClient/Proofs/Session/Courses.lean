import DiagnosticsClient.Proofs.Session.Ticks
/-
The course of one task.

For a task that has not ended a step of the loop is its turn to go on, or it rests while
others do (`Course`), whatever the loop is used for. A task begins as a fresh one
(`Stride.fresh`), and once it has ended it has ended for good (`Stride.ended`).
-/
namespace DiagnosticsClient

open Async Async.Machine

namespace Loop

variable {role role' : FutureId → Role} {m m' : Loop} {t u : TaskId} {root : Routine} {stack rest : List Frame} {o : Ending}
  {F G : Frame} {th : Thread Routine Frame Value Failure} {usage : Usage} {s : Loop × Move}

/-- What a step is for a task that has not ended. -/
inductive Course (usage : Usage) (role : FutureId → Role) (m : Loop) (u : TaskId) :
    Thread Routine Frame Value Failure → (FutureId → Role) → Loop → Prop
  /-- Others have their turn, or nobody has. -/
  | rests {th : Thread Routine Frame Value Failure} {role' : FutureId → Role} {m' : Loop} (idle : th.top.isIdle = true)
      (runs : ∀ x, m.running = some x → x.task ≠ u) (hth : m'.thread? u = some th) : Course usage role m u th role' m'
  | awakes {th th' : Thread Routine Frame Value Failure} {m' : Loop} (how : m.Awakes u th th')
      (switch : m.Switch u (some th') m') : Course usage role m u th role m'
  | ends {o : Ending} {m' : Loop} (outcome : m'.taskOutcome? u = some o) : Course usage role m u ⟨.resumes o, []⟩ role m'
  | begins {role' : FutureId → Role} {r called root : Routine} {stack : List Frame} (runs : m.running = some (.begin u r stack))
      (stands : r.StandsFor called) (deed : Deed role role' m u root called stack (begin r m) usage) :
      Course usage role m u ⟨.begins r, stack⟩ role' ((begin r m).1.perform u stack (begin r m).2)
  | resumes {o : Ending} {F : Frame} {called root : Routine} {stack : List Frame}
      (runs : m.running = some (.resume u o (F :: stack))) (serves : F.Serves m.routine? called) (gets : F.Gets m.state o)
      (deed : Deed role role m u root called stack (resume F o m) usage) :
      Course usage role m u ⟨.resumes o, F :: stack⟩ role ((resume F o m).1.perform u stack (resume F o m).2)

theorem isIdle_of_ne (hth : m.thread? u = some th) (hr : ∀ x, m.running = some x → x.task ≠ u) : th.top.isIdle = true := by
  cases hidle : th.top.isIdle with
  | true => rfl
  | false =>
    obtain ⟨x, hx, htask, -⟩ := running_of_thread? hth hidle
    exact absurd htask (hr x hx)

/-- Whoever does not act rests. -/
theorem Deed.course {called : Routine} {x : Running Routine Frame Value Failure} (hd : Deed role role' m t root called stack s usage)
    (hf : Fits role m usage) (hr : m.running = some x) (hx : x.task = t) (hu : u ≠ t) (hth : m.thread? u = some th) :
    Course usage role m u th role' (s.1.perform t stack s.2) := by
  have hne : ∀ y, m.running = some y → y.task ≠ u := by
    intro y hy
    rw [hr] at hy
    cases hy
    exact fun h => hu (h.symm.trans hx)
  refine .rests (isIdle_of_ne hth hne) hne ?_
  rw [hd.switch.other hu, hd.does.effect.extends.thread? hd.does.tidy.sound.owned (lt_size_of_thread? hf.tidy.sound hth), hth]

/-- **A step of the loop is part of the course of a task.** -/
theorem Stride.course (hs : Stride usage role m role' m') (hf : Fits role m usage) (hf' : Fits role' m' usage)
    (hth : m.thread? u = some th) : Course usage role m u th role' m' := by
  have hrest : m.running = none → m'.thread? u = some th → Course usage role m u th role' m' := fun hnone hth' =>
    have hne : ∀ x, m.running = some x → x.task ≠ u := fun x hx => by rw [hnone] at hx; cases hx
    .rests (isIdle_of_ne hth hne) hne hth'
  cases hs with
  | @awakes _ t _ _ idle hawake how switch =>
    by_cases hu : u = t
    · subst hu
      cases hth.symm.trans hawake
      exact .awakes how switch
    · exact hrest idle ((switch.other hu).trans hth)
  | passes idle he hstate => exact hrest idle ((he.thread? hf'.tidy.sound.owned (lt_size_of_thread? hf.tidy.sound hth)).trans hth)
  | @ends _ t o runs switch outcome =>
    by_cases hu : u = t
    · subst hu
      cases hth.symm.trans (thread?_of_running runs)
      exact .ends outcome
    · have hne : ∀ x, m.running = some x → x.task ≠ u := by
        intro x hx
        rw [runs] at hx
        cases hx
        exact Ne.symm hu
      exact .rests (isIdle_of_ne hth hne) hne ((switch.other hu).trans hth)
  | @begins _ t _ _ _ _ runs valid stands deed =>
    by_cases hu : u = t
    · subst hu
      cases hth.symm.trans (thread?_of_running runs)
      exact .begins runs stands deed
    · exact deed.course hf runs rfl hu hth
  | @resumes t _ _ _ _ _ runs serves gets woke deed =>
    by_cases hu : u = t
    · subst hu
      cases hth.symm.trans (thread?_of_running runs)
      exact .resumes runs serves gets deed
    · exact deed.course hf runs rfl hu hth

/-- What a task still has to go on with stays below what it does next. -/
theorem suffix_nextThread (m : Loop) (stack : List Frame) (a : Move) : stack <:+ (m.nextThread stack a).stack := by
  cases a with
  | done o => exact List.suffix_refl _
  | call r F => exact List.suffix_cons _ _
  | become r => exact List.suffix_refl _
  | await f F =>
    rw [stack_nextThread_await]
    exact List.suffix_cons _ _

/-- Whoever goes to wait does so for a future without an outcome. -/
theorem outcome?_of_nextThread {a : Move} {f : FutureId} {stack' : List Frame} (h : m.nextThread stack a = ⟨.waits f, stack'⟩) :
    m.outcome? f = none := by
  unfold nextThread at h
  split at h
  · cases h
  · cases h
  · cases h
  · split at h
    · cases h
    · next hnone =>
      cases h
      exact hnone

/-- Whoever goes to wait was told to, and keeps what he goes on with. -/
theorem await_of_nextThread {a : Move} {f : FutureId} {stack' : List Frame} (h : m.nextThread stack a = ⟨.waits f, F :: stack'⟩) :
    a = .await f F ∧ stack = stack' := by
  unfold nextThread at h
  split at h
  · cases h
  · cases h
  · cases h
  · split at h <;> cases h
    exact ⟨rfl, rfl⟩

theorem nextThread_ne_fresh {a : Move} {r : Routine} {stack' : List Frame} : m.nextThread stack a ≠ ⟨.fresh r, stack'⟩ := by
  intro h
  unfold nextThread at h
  split at h
  · cases h
  · cases h
  · cases h
  · split at h <;> cases h

namespace Course

theorem of_begins {r : Routine} (h : Course usage role m u ⟨.begins r, stack⟩ role' m') :
    m.running = some (.begin u r stack) ∧ (∃ called root, r.StandsFor called ∧
      Deed role role' m u root called stack (begin r m) usage) ∧ m' = (begin r m).1.perform u stack (begin r m).2 := by
  cases h with
  | rests idle => cases idle
  | awakes how => cases how
  | begins runs stands deed => exact ⟨runs, ⟨_, _, stands, deed⟩, rfl⟩

theorem of_resumes (h : Course usage role m u ⟨.resumes o, F :: stack⟩ role' m') :
    role' = role ∧ m.running = some (.resume u o (F :: stack)) ∧ F.Gets m.state o ∧
      (∃ called root, F.Serves m.routine? called ∧ Deed role role m u root called stack (resume F o m) usage) ∧
      m' = (resume F o m).1.perform u stack (resume F o m).2 := by
  cases h with
  | rests idle => cases idle
  | awakes how => cases how
  | resumes runs serves gets deed => exact ⟨rfl, runs, gets, ⟨_, _, serves, deed⟩, rfl⟩

theorem of_ends (h : Course usage role m u ⟨.resumes o, []⟩ role' m') : m'.taskOutcome? u = some o := by
  cases h with
  | rests idle => cases idle
  | awakes how => cases how
  | ends outcome => exact outcome

/-- A task has a thread, until it ends. -/
theorem proceeds (h : Course usage role m u th role' m') : (∃ th', m'.thread? u = some th') ∨ ∃ o, m'.taskOutcome? u = some o := by
  cases h with
  | rests idle runs hth' => exact .inl ⟨_, hth'⟩
  | awakes how switch => exact .inl ⟨_, switch.self⟩
  | ends outcome => exact .inr ⟨_, outcome⟩
  | begins runs stands deed => exact .inl ⟨_, deed.switch.self⟩
  | resumes runs serves gets deed => exact .inl ⟨_, deed.switch.self⟩

/-- A task that begins something goes on with what that does. -/
theorem begun {r : Routine} (h : Course usage role m u ⟨.begins r, stack⟩ role' m') (hs : begin r m = s) :
    m'.state = s.1.state ∧ m'.thread? u = some (s.1.nextThread stack s.2) := by
  obtain ⟨-, ⟨_, _, -, deed⟩, rfl⟩ := h.of_begins
  subst hs
  exact ⟨deed.state, deed.switch.self⟩

/-- A task that goes on does what its frame says. -/
theorem resumed (h : Course usage role m u ⟨.resumes o, F :: stack⟩ role' m') (hs : resume F o m = s) :
    m'.state = s.1.state ∧ m'.thread? u = some (s.1.nextThread stack s.2) := by
  obtain ⟨-, -, -, ⟨_, _, -, deed⟩, rfl⟩ := h.of_resumes
  subst hs
  exact ⟨deed.state, deed.switch.self⟩

/-- Who comes to wait for something is not woken yet. -/
theorem unsettled {f : FutureId} (h : Course usage role m u th role' m') (hf' : Fits role' m' usage) (hidle : th.top.isIdle = false)
    (hth : m'.thread? u = some ⟨.waits f, stack⟩) (hplain : m'.IsPlain f) : m'.isSettled f = false := by
  have hdeed : ∀ {root called : Routine} {stack' : List Frame} {s : Loop × Move}, Deed role role' m u root called stack' s usage →
      m' = s.1.perform u stack' s.2 → m'.isSettled f = false := by
    rintro root called stack' s hd rfl
    rw [isSettled_eq_false, hd.switch.outcome ((hd.switch.owner f).symm.trans hplain)]
    exact outcome?_of_nextThread (Option.some.inj (hd.switch.self.symm.trans hth))
  cases h with
  | rests idle => cases hidle.symm.trans idle
  | awakes how switch =>
    cases switch.self.symm.trans hth
    cases how
  | ends outcome => cases (hf'.tidy.sound.taskOutcome?_of_thread? hth).symm.trans outcome
  | begins _ _ deed => exact hdeed deed rfl
  | resumes _ _ _ deed => exact hdeed deed rfl

/-- Who goes on has begun. -/
theorem not_fresh {r : Routine} (h : Course usage role m u th role' m') (hf' : Fits role' m' usage) (hidle : th.top.isIdle = false) :
    m'.thread? u ≠ some ⟨.fresh r, stack⟩ := by
  intro hth
  cases h with
  | rests idle => cases hidle.symm.trans idle
  | awakes how switch => cases how <;> cases hidle
  | ends outcome => cases (hf'.tidy.sound.taskOutcome?_of_thread? hth).symm.trans outcome
  | begins _ _ deed => exact nextThread_ne_fresh (Option.some.inj (deed.switch.self.symm.trans hth))
  | resumes _ _ _ deed => exact nextThread_ne_fresh (Option.some.inj (deed.switch.self.symm.trans hth))

/-- Who has just had his turn is not to go on yet. -/
theorem not_ready (h : Course usage role m u th role' m') (hf' : Fits role' m' usage) (hidle : th.top.isIdle = false)
    (hplain : ∀ {f stack}, m'.thread? u = some ⟨.waits f, stack⟩ → m'.IsPlain f) {k : Handle Value Failure} (hk : k ∈ m'.ready) :
    k.task? ≠ some u := by
  intro hu
  cases k with
  | start t =>
    cases hu
    obtain ⟨r, hth⟩ := hf'.tidy.sound.woken.start.mp hk
    exact h.not_fresh hf' hidle hth
  | notify callback f =>
    cases callback <;> cases hu
    obtain ⟨hset, stack, hth⟩ := hf'.tidy.sound.woken.notify.mp hk
    cases hset.symm.trans (h.unsettled hf' hidle hth (hplain hth))
  | expire w => cases hu
  | deliver f o => cases hu

/-- What is below in a stack stays, until the task goes on with it. -/
theorem beneath (h : Course usage role m u th role' m') (hsuffix : G :: rest <:+ th.stack) :
    (∃ o, th = ⟨.resumes o, G :: rest⟩) ∨ ∃ th', m'.thread? u = some th' ∧ G :: rest <:+ th'.stack := by
  have hnil : ¬ G :: rest <:+ [] := fun h => by cases h.subset List.mem_cons_self
  cases h with
  | rests idle runs hth' => exact .inr ⟨_, hth', hsuffix⟩
  | awakes how switch =>
    cases how with
    | begins => exact absurd hsuffix hnil
    | dropped => exact absurd hsuffix hnil
    | resumes => exact .inr ⟨_, switch.self, hsuffix⟩
    | interrupted => exact .inr ⟨_, switch.self, hsuffix⟩
  | ends => exact absurd hsuffix hnil
  | begins runs stands deed => exact .inr ⟨_, deed.switch.self, hsuffix.trans (suffix_nextThread _ _ _)⟩
  | resumes runs serves gets deed =>
    rcases List.suffix_cons_iff.mp hsuffix with heq | hsuffix
    · exact .inl ⟨_, by rw [heq]⟩
    · exact .inr ⟨_, deed.switch.self, hsuffix.trans (suffix_nextThread _ _ _)⟩

end Course

/-! ## Beginning and ending -/

theorem Stride.keeps (hs : Stride usage role m role' m') : m.Keeps m' := by
  cases hs with
  | awakes _ _ _ switch => exact keeps_of_switch switch
  | passes _ he _ => exact keeps_of_extends he
  | ends _ switch _ => exact keeps_of_switch switch
  | begins _ _ _ deed => exact deed.keeps
  | resumes _ _ _ _ deed => exact deed.keeps

/-- A task that was not there before is fresh. -/
theorem fresh_of_extends {T T' : FutureId → Prop} (he : m.Extends may m') (hs : m.Sound T) (hs' : m'.Sound T')
    (hn : m.routine? u = none) (hr : m'.routine? u = some root) : m'.thread? u = some ⟨.fresh root, []⟩ := by
  obtain ⟨task, htask, rfl⟩ := Option.map_eq_some_iff.mp hr
  rcases he.task_cases htask with ⟨task', held, htask', -, -⟩ | ⟨hge, -⟩
  · rw [Machine.routine?, htask'] at hn
    cases hn
  · exact he.thread?_new hs.owned hs' hge htask fun x hx => (hs.running hx).lt_size

theorem Deed.fresh {called r : Routine} (hd : Deed role role' m t root called stack s usage) (hf : Fits role m usage)
    (hn : m.routine? u = none) (hr : (s.1.perform t stack s.2).routine? u = some r) :
    (s.1.perform t stack s.2).thread? u = some ⟨.fresh r, []⟩ := by
  have hne : u ≠ t := by
    rintro rfl
    cases hn.symm.trans hd.made
  rw [hd.switch.routine] at hr
  exact (hd.switch.other hne).trans (fresh_of_extends hd.does.effect.extends hf.tidy.sound hd.does.tidy.sound hn hr)

theorem Stride.fresh (hs : Stride usage role m role' m') (hf : Fits role m usage) (hf' : Fits role' m' usage)
    (hn : m.routine? u = none) (hr : m'.routine? u = some root) : m'.thread? u = some ⟨.fresh root, []⟩ := by
  cases hs with
  | awakes _ _ _ switch => cases hn.symm.trans ((switch.routine u).symm.trans hr)
  | passes _ he _ => exact fresh_of_extends he hf.tidy.sound hf'.tidy.sound hn hr
  | ends _ switch _ => cases hn.symm.trans ((switch.routine u).symm.trans hr)
  | begins _ _ _ deed => exact deed.fresh hf hn hr
  | resumes _ _ _ _ deed => exact deed.fresh hf hn hr

/-- A task that has ended has ended for good. -/
theorem Stride.ended (hs : Stride usage role m role' m') (hf : Fits role m usage) (hf' : Fits role' m' usage)
    (ho : m.taskOutcome? u = some o) : m'.taskOutcome? u = some o := by
  have hlt : u < m.tasks.size := by
    obtain ⟨task, htask, -⟩ := Option.bind_eq_some_iff.mp ho
    exact (Array.getElem?_eq_some_iff.mp htask).1
  have hne : ∀ {t th}, m.thread? t = some th → u ≠ t := by
    rintro t th hth rfl
    cases (hf.tidy.sound.taskOutcome?_of_thread? hth).symm.trans ho
  cases hs with
  | awakes _ hth _ switch => exact (switch.ended (hne hth)).trans ho
  | passes _ he _ => exact (he.taskOutcome? hf'.tidy.sound.owned hlt).trans ho
  | ends runs switch _ => exact (switch.ended (hne (thread?_of_running runs))).trans ho
  | begins runs _ _ deed =>
    exact (deed.switch.ended (hne (thread?_of_running runs))).trans
      ((deed.does.effect.extends.taskOutcome? deed.does.tidy.sound.owned hlt).trans ho)
  | resumes runs _ _ _ deed =>
    exact (deed.switch.ended (hne (thread?_of_running runs))).trans
      ((deed.does.effect.extends.taskOutcome? deed.does.tidy.sound.owned hlt).trans ho)

end Loop

end DiagnosticsClient
