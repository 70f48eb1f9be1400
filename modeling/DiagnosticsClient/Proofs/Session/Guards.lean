import DiagnosticsClient.Proofs.Session.Tasks
/-
Who limits the time of a task.

A task whose time is limited is minded by the task that limits it, and by no other: a
thread comes to mind a task only as it makes it (`Goes.minds`). So while this one waits
for it nobody cancels it (`Guarded.sole`), and what it waits for at the lock or at its
listener comes with a value.
-/
namespace DiagnosticsClient

open Async Async.Machine

/-- The task whose time a frame limits, or whose end it waits for. -/
def Frame.mind : Frame → Option TaskId
  | .timing u _ => some u
  | .overdue u => some u
  | .lapsed u _ => some u
  | .cancelWaiting u _ => some u
  | _ => none

/-- A thread limits the time of a task, or is about to cancel it and to wait for it. -/
def Thread.Minds (v : TaskId) (th : Thread Routine Frame Value Failure) : Prop :=
  th.top = .begins (.cancelAndWait v) ∨ ∃ F ∈ th.stack, F.mind = some v

/-- Nobody has begun to cancel a task and to wait for it. -/
def Undisturbed (u : TaskId) (moments : List Moment) : Prop :=
  ∀ a ∈ moments, ∀ t stack, a.loop.running ≠ some (.begin t (.cancelAndWait u) stack)

/-- Who has no frames minds nobody, unless he is about to cancel. -/
theorem Thread.Minds.top_of_nil {v : TaskId} {top : Top Routine Value Failure} (h : Thread.Minds v ⟨top, []⟩) :
    top = .begins (.cancelAndWait v) :=
  h.resolve_right fun ⟨_, hF, _⟩ => by cases hF

namespace Loop

variable {role role' : FutureId → Role} {m m' : Loop} {t u v : TaskId} {root called r : Routine} {F : Frame}
  {stack : List Frame} {o : Ending} {th th' : Thread Routine Frame Value Failure} {held : List ListenerId}
  {s : Stimulus}

/-! ## One step -/

/-- What the running task minds after its move it minded before, or it limits time. -/
theorem MoveFits.minds {size : Nat} {a : Move} (h : MoveFits role m size called a)
    (hm : Thread.Minds v (m.nextThread stack a)) :
    (∃ F ∈ stack, F.mind = some v) ∨ called = .cancelAndWait v ∨
      (∃ limit inner, called = .within limit inner) ∧
        ((∃ F, a = .call (.cancelAndWait v) F) ∨ ∃ f w, a = .await f (.timing v w)) := by
  cases h with
  | done => exact .inl (hm.resolve_left fun h => by cases h)
  | @call r F hc hs hu hv =>
    have hcall : r = .cancelAndWait v ∨ ∃ G ∈ stack, G.mind = some v := by
      rcases hm with htop | ⟨G, hG, hmind⟩
      · exact .inl (Top.begins.inj htop)
      · rcases List.mem_cons.mp hG with rfl | hG
        · cases hc <;> cases hmind <;> exact .inl rfl
        · exact .inr ⟨G, hG, hmind⟩
    rcases hcall with rfl | hbelow
    · obtain ⟨limit, inner, rfl, -⟩ := hu v rfl
      exact .inr (.inr ⟨⟨limit, inner, rfl⟩, .inl ⟨F, rfl⟩⟩)
    · exact .inl hbelow
  | become hr hv =>
    rcases hm with htop | hbelow
    · cases Top.begins.inj htop
      cases hr
      exact .inr (.inl rfl)
    · exact .inl hbelow
  | @await f F hs ha hn =>
    have hmem : ∃ G ∈ F :: stack, G.mind = some v := by
      rcases hm with htop | ⟨G, hG, hmind⟩
      · unfold nextThread at htop
        dsimp only at htop
        split at htop <;> cases htop
      · exact ⟨G, stack_nextThread_await m stack f F ▸ hG, hmind⟩
    obtain ⟨G, hG, hmind⟩ := hmem
    rcases List.mem_cons.mp hG with rfl | hG
    · cases ha with
      | timing w =>
        cases hmind
        cases hs with
        | timing w limit hu hi => exact .inr (.inr ⟨⟨limit, _, rfl⟩, .inr ⟨_, _, rfl⟩⟩)
      | cancelWaiting =>
        cases hmind
        cases hs with
        | cancelWaiting => exact .inr (.inl rfl)
      | _ => cases hmind
    · exact .inl ⟨G, hG, hmind⟩

/-- Whoever limits the time of a routine minds a new task. -/
theorem eq_size_of_within {limit : Seconds} {inner : Routine}
    (h : (∃ F, (within limit inner m).2 = .call (.cancelAndWait v) F) ∨ ∃ f w, (within limit inner m).2 = .await f (.timing v w)) :
    v = m.tasks.size := by
  unfold within at h
  split at h
  · rcases h with ⟨F, h⟩ | ⟨f, w, h⟩ <;> cases h
    rfl
  · split at h
    · rcases h with ⟨F, h⟩ | ⟨f, w, h⟩ <;> cases h
    · rcases h with ⟨F, h⟩ | ⟨f, w, h⟩ <;> cases h
      rfl

/-- The task is there once it is minded. -/
theorem routine?_of_within {limit : Seconds} {inner : Routine}
    (h : (∃ F, (within limit inner m).2 = .call (.cancelAndWait v) F) ∨ ∃ f w, (within limit inner m).2 = .await f (.timing v w)) :
    (within limit inner m).1.routine? v = some inner := by
  have hspawn : (m.spawn inner).1.routine? m.tasks.size = some inner := by
    rw [routine?, getElem?_spawn, if_pos rfl]
    rfl
  rw [eq_size_of_within h]
  unfold within at h ⊢
  split at h
  · next hover => rwa [if_pos hover]
  · next hover =>
    rw [if_neg hover]
    split at h
    · rcases h with ⟨F, h⟩ | ⟨f, w, h⟩ <;> cases h
    · next =>
      dsimp only
      unfold Machine.addCallback Machine.addTimer
      split <;> split <;> exact hspawn

/-- Whoever goes on from a limit minds nobody else. -/
theorem mind_of_within {limit : Seconds} {inner : Routine} (hs : F.Serves m.routine? (.within limit inner))
    (h : (∃ G, (resume F o m).2 = .call (.cancelAndWait v) G) ∨ ∃ f w, (resume F o m).2 = .await f (.timing v w)) :
    F.mind = some v := by
  cases hs with
  | timing w _ hu hi =>
    simp only [resume, timeResumed] at h
    split at h
    · rcases h with ⟨G, h⟩ | ⟨f, w, h⟩ <;> cases h
    · split at h <;> rcases h with ⟨G, h⟩ | ⟨f, w, h⟩ <;> cases h <;> rfl
  | overdue =>
    simp only [resume, overdueResumed] at h
    split at h <;> rcases h with ⟨G, h⟩ | ⟨f, w, h⟩ <;> cases h
  | lapsed =>
    simp only [resume, lapsedResumed] at h
    split at h <;> rcases h with ⟨G, h⟩ | ⟨f, w, h⟩ <;> cases h
  | abandoned =>
    simp only [resume, abandonedResumed] at h
    split at h <;> rcases h with ⟨G, h⟩ | ⟨f, w, h⟩ <;> cases h
  | finishing hx => cases hx
  | introducing hx => cases hx
  | expecting hx => cases hx

/-- What a task minds after a step it minded before, unless it has just made it. -/
theorem Tick.minds (ht : Tick role m role' m') (hf : Fits role m) (hf' : Fits role' m') (hth : m'.thread? u = some th')
    (hm : Thread.Minds v th') : (∃ th, m.thread? u = some th ∧ Thread.Minds v th) ∨
      m.routine? v = none ∧ (∃ r, m'.routine? v = some r) ∧ ∃ x, m.running = some x ∧ x.task = u := by
  have hfresh : ∀ {r}, ¬ Thread.Minds v ⟨.fresh r, []⟩ := fun h => by cases h.top_of_nil
  have hold : ∀ {t : TaskId} {th₁ : Option (Thread Routine Frame Value Failure)}, m.Switch t th₁ m' → u ≠ t →
      ∃ th, m.thread? u = some th ∧ Thread.Minds v th := fun hs hu => ⟨th', (hs.other hu).symm.trans hth, hm⟩
  have hother : ∀ {t : TaskId} {root called : Routine} {stack : List Frame} {s : Loop × Move},
      Deed role role' m t root called stack s → m' = s.1.perform t stack s.2 → u ≠ t →
      ∃ th, m.thread? u = some th ∧ Thread.Minds v th := by
    rintro t root called stack s hd rfl hu
    rcases hd.thread_other hf hu hth with hold | ⟨r, -, -, rfl⟩
    · exact ⟨th', hold, hm⟩
    · exact absurd hm hfresh
  cases ht with
  | @awakes _ t _ _ idle hold' how switch =>
    by_cases hu : u = t
    · subst hu
      cases switch.self.symm.trans hth
      refine .inl ⟨_, hold', ?_⟩
      cases how with
      | begins =>
        cases hm.top_of_nil
        obtain ⟨root, hroot, hfits⟩ := hf.threads hold'
        cases hfits with
        | fresh => cases hf.roots hroot
      | dropped => cases hm.top_of_nil
      | resumes => exact .inr (hm.resolve_left fun h => by cases h)
      | interrupted => exact .inr (hm.resolve_left fun h => by cases h)
    · exact .inl (hold switch hu)
  | passes idle he hstate =>
    rcases he.thread?_cases hf.tidy.sound hf'.tidy.sound hth with h | ⟨r, -, -, -, rfl⟩
    · exact .inl ⟨th', h, hm⟩
    · exact absurd hm hfresh
  | @ends _ t _ runs switch outcome =>
    by_cases hu : u = t
    · subst hu
      cases switch.self.symm.trans hth
    · exact .inl (hold switch hu)
  | @begins _ t r called root stack runs valid stands how deed =>
    by_cases hu : u = t
    · subst hu
      cases deed.switch.self.symm.trans hth
      rcases deed.does.move.minds hm with hbelow | rfl | ⟨⟨limit, inner, rfl⟩, hmove⟩
      · exact .inl ⟨_, thread?_of_running runs, .inr hbelow⟩
      · cases stands
        exact .inl ⟨_, thread?_of_running runs, .inl rfl⟩
      · cases stands
        have hv := eq_size_of_within hmove
        refine .inr ⟨?_, ⟨inner, (deed.switch.routine v).trans (routine?_of_within hmove)⟩, _, runs, rfl⟩
        rw [hv, routine?, Array.getElem?_eq_none (Nat.le_refl _)]
        rfl
    · exact .inl (hother deed rfl hu)
  | @resumes t o F called root stack runs serves gets woke how deed =>
    by_cases hu : u = t
    · subst hu
      cases deed.switch.self.symm.trans hth
      refine .inl ⟨_, thread?_of_running runs, .inr ?_⟩
      rcases deed.does.move.minds hm with ⟨G, hG, hmind⟩ | rfl | ⟨⟨limit, inner, rfl⟩, hmove⟩
      · exact ⟨G, List.mem_cons_of_mem _ hG, hmind⟩
      · refine ⟨F, .head _, ?_⟩
        cases serves with
        | cancelWaiting => rfl
        | finishing hx => cases hx
        | introducing hx => cases hx
        | expecting hx => cases hx
      · exact ⟨F, .head _, mind_of_within serves hmove⟩
    · exact .inl (hother deed rfl hu)

/-- Every task that is minded is there, and no other task minds it too. -/
structure Guarded (m : Loop) : Prop where
  there : ∀ {u v : TaskId} {th : Thread Routine Frame Value Failure}, m.thread? u = some th → Thread.Minds v th →
    ∃ r, m.routine? v = some r
  sole : ∀ {t u v : TaskId} {th th' : Thread Routine Frame Value Failure}, m.thread? t = some th → m.thread? u = some th' →
    Thread.Minds v th → Thread.Minds v th' → t = u

end Loop

section goes

variable {role role' : FutureId → Role} {a b : Moment} {past : List Moment} {t u v : TaskId} {root : Routine}
  {th th' : Thread Routine Frame Value Failure} {stack : List Frame}

theorem Goes.minds (hg : Goes role a role' b) (ha : a.Holds role) (hb : b.Holds role') (hth : b.loop.thread? u = some th')
    (hm : Thread.Minds v th') : (∃ th, a.loop.thread? u = some th ∧ Thread.Minds v th) ∨
      a.loop.routine? v = none ∧ (∃ r, b.loop.routine? v = some r) ∧ ∃ x, a.loop.running = some x ∧ x.task = u := by
  cases hg with
  | tick hq ht => exact ht.minds ha.fits hb.fits hth hm
  | stimulus hr hs =>
    have hw := Loop.apply_arrives ha.fits hr hs
    rcases hw.extends_.thread?_cases ha.fits.tidy.sound hb.fits.tidy.sound hth with h | ⟨r, -, -, -, rfl⟩
    · exact .inl ⟨th', h, hm⟩
    · cases hm.top_of_nil

/-- A step keeps it so that no two tasks mind the same task. -/
theorem Goes.guarded (hg : Goes role a role' b) (ha : a.Holds role) (hb : b.Holds role') (h : a.loop.Guarded) : b.loop.Guarded where
  there hth hm := by
    rcases hg.minds ha hb hth hm with ⟨th, hold, hold'⟩ | ⟨-, hthere, -⟩
    · obtain ⟨r, hr⟩ := h.there hold hold'
      exact ⟨r, (hg.keeps ha).routine hr⟩
    · exact hthere
  sole {t u v _ _} ht hu hmt hmu := by
    have hne : ∀ {t th}, a.loop.thread? t = some th → Thread.Minds v th → a.loop.routine? v ≠ none := by
      intro t th hth hm hnone
      obtain ⟨r, hr⟩ := h.there hth hm
      cases hnone.symm.trans hr
    rcases hg.minds ha hb ht hmt with ⟨th, hth, hm⟩ | ⟨hnone, -, x, hx, rfl⟩ <;>
      rcases hg.minds ha hb hu hmu with ⟨th', hth', hm'⟩ | ⟨hnone', -, y, hy, rfl⟩
    · exact h.sole hth hth' hm hm'
    · exact absurd hnone' (hne hth hm)
    · exact absurd hnone (hne hth' hm')
    · cases hx.symm.trans hy
      rfl

/-- **No two tasks mind the same task.** -/
theorem IsRun.guarded (h : IsRun (a :: past)) : a.loop.Guarded := by
  refine (h.induction (P := fun a _ => a.loop.Guarded) (fun hm => ⟨fun hth => ?_, fun hth => ?_⟩)
    fun ha hb hg hp => hg.guarded ha hb hp).2
  · cases hm.isEmpty.thread?.symm.trans hth
  · cases hm.isEmpty.thread?.symm.trans hth

/-- Nobody but who limits the time of a task cancels it. -/
theorem Loop.Guarded.not_cancels {m : Loop} (h : m.Guarded) (hth : m.thread? u = some th) (hm : Thread.Minds v th)
    (hne : th.top ≠ .begins (.cancelAndWait v)) (t : TaskId) (stack : List Frame) :
    m.running ≠ some (.begin t (.cancelAndWait v) stack) := by
  intro hr
  have hrun := thread?_of_running hr
  have htu := h.sole hrun hth (.inl rfl) hm
  cases hth.symm.trans (htu ▸ hrun)
  exact hne rfl

theorem IsRun.not_cancels (h : IsRun (a :: past)) (hth : a.loop.thread? u = some th) (hm : Thread.Minds v th)
    (hne : th.top ≠ .begins (.cancelAndWait v)) : ∀ t stack, a.loop.running ≠ some (.begin t (.cancelAndWait v) stack) :=
  h.guarded.not_cancels hth hm hne

/-- Callers cancel what they asked for. -/
theorem IsRun.asked_of_cancelled (h : IsRun (a :: past)) :
    ∀ t ∈ a.cancelled, ∃ r, a.loop.routine? t = some r ∧ r.isAsked = true := by
  refine (h.induction (P := fun a _ => ∀ t ∈ a.cancelled, ∃ r, a.loop.routine? t = some r ∧ r.isAsked = true)
    (fun _ _ ht => by cases ht) fun {_ _ a b past} ha hb hg hp t ht => ?_).2
  have hkeeps := hg.keeps ha
  have hold : t ∈ a.cancelled → ∃ r, b.loop.routine? t = some r ∧ r.isAsked = true := fun ht => by
    obtain ⟨r, hr, hasked⟩ := hp t ht
    exact ⟨r, hkeeps.routine hr, hasked⟩
  cases hg with
  | tick => exact hold ht
  | @stimulus s hr hs =>
    cases s with
    | cancel u =>
      rcases List.mem_append.mp ht with ht | ht
      · exact hold ht
      · obtain ⟨r, hroot, hasked⟩ := hs
        rw [List.mem_singleton.mp ht]
        exact ⟨r, hkeeps.routine hroot, hasked⟩
    | _ => exact hold ht

/-- **A task whose time is limited is cancelled by nobody** who has not begun to cancel it and to wait for it. -/
theorem IsRun.spares_limited (h : IsRun (a :: past)) (hroot : a.loop.routine? v = some root) (hasked : root.isAsked = false)
    (hreads : root.reads = false) (hc : Undisturbed v past) : a.loop.Spares v := by
  refine h.spares_of_not_cancellable hroot (fun hmem => ?_) fun b hb hcancel => ?_
  · obtain ⟨r, hr, hasked'⟩ := h.asked_of_cancelled v hmem
    cases hroot.symm.trans hr
    cases hasked.symm.trans hasked'
  · obtain ⟨⟨r, hr, -, hreads' | ⟨t, stack, hrun⟩⟩, -⟩ := hcancel
    · cases (h.routine_of_mem hb hr).symm.trans hroot
      cases hreads.symm.trans hreads'
    · exact hc b hb t stack hrun

end goes

end DiagnosticsClient
