import DiagnosticsClient.Proofs.Transport.Courses
/-
Who waits for the end of a child.

Whoever waits for the end of a child is told of it: he is among those whom the child wakes
when it ends, or has been woken (`AwaitsExit`), and once the child has ended nobody is left to
wake (`IsWatched.relieved`). So whoever waits and is not woken waits for a child that lives,
and the wait never fails: it gives the return code, or is cancelled (`IsWatched.awaitsExit`).
-/
namespace DiagnosticsClient

open Async Async.Machine

namespace Loop

variable {role role' : FutureId → Role} {m m' m'' : Loop} {c : ChildId} {f : FutureId} {o : Ending}

/-- What is settled stays so when the running task goes on. -/
theorem Rouses.onward (h : Rouses m m') (hs : m''.state = m'.state)
    (hset : ∀ {c f}, f ∈ (m.state.child c).exitWaiters → m'.isSettled f = true → m''.isSettled f = true) : Rouses m m'' where
  waits hf hlt := by
    rw [hs]
    exact (h.waits hf hlt).imp_right (hset hf)
  dead hd hdead := by
    rw [hs] at hdead ⊢
    exact h.dead hd hdead

/-- Whoever waits for the end of a child waits for a future that stands for it. -/
theorem Tidy.role_of_exitWaiter (h : m.Tidy role) (hf : f ∈ (m.state.child c).exitWaiters) : m.HasRole role (.exit c) f := by
  unfold State.child at hf
  cases hget : m.state.children[c]? with
  | none =>
    rw [hget] at hf
    cases hf
  | some child =>
    rw [hget] at hf
    exact (h.names.children hget).exits f hf

/-- A future that stands for the end of a child is settled with a value, or cancelled. -/
theorem outcome_of_extends {may : Licence Routine} (he : m.Extends may m') (hf : m.IsPlain f) (ht : ¬ may.target f)
    (ho : m'.outcome? f = some o) : m.outcome? f = some o ∨ ∀ e, o ≠ .failed e := by
  rcases he.settled ho with hold | ⟨-, hsettles⟩
  · exact .inl hold
  · refine .inr ?_
    rcases hsettles hf.lt_size with htarget | ⟨-, hvalue⟩ | ⟨rfl, -⟩
    · exact absurd htarget ht
    · rintro e rfl
      cases hvalue
    · exact fun e h => by cases h

/-- How far a task has got that waits for the end of a child. -/
inductive AwaitsExit (c : ChildId) (m : Loop) : Thread Routine Frame Value Failure → Prop
  | fresh : AwaitsExit c m ⟨.fresh (.awaitExit c), []⟩
  | begins : AwaitsExit c m ⟨.begins (.awaitExit c), []⟩
  | waits {f : FutureId} (hf : f ∈ (m.state.child c).exitWaiters ∨ m.isSettled f = true)
      (ho : ∀ e, m.outcome? f ≠ some (.failed e)) : AwaitsExit c m ⟨.waits f, [.exiting c]⟩
  | resumes {o : Ending} (ho : ∀ e, o ≠ .failed e) : AwaitsExit c m ⟨.resumes o, [.exiting c]⟩
  | ends {o : Ending} (ho : ∀ e, o ≠ .failed e) : AwaitsExit c m ⟨.resumes o, []⟩

/-- Who begins to wait for the end of a child is told the return code, or is among those whom the child wakes. -/
theorem awaitsExit_nextThread (m : Loop) (hc : c < m.state.children.length) (hs : m'.state = (awaitExit c m).1.state)
    (ho : ∀ f, (awaitExit c m).1.IsPlain f → m'.outcome? f = (awaitExit c m).1.outcome? f) :
    AwaitsExit c m' ((awaitExit c m).1.nextThread [] (awaitExit c m).2) := by
  cases hcode : (m.state.child c).returnCode with
  | some code =>
    have heq : awaitExit c m = (m, .done (.value (.returnCode code))) := by simp only [awaitExit, hcode]
    rw [heq]
    exact .ends fun e h => by cases h
  | none =>
    let m₁ := m.future.1.modify (·.modifyChild c fun child => { child with exitWaiters := child.exitWaiters ++ [m.futures.size] })
    have heq : awaitExit c m = (m₁, .await m.futures.size (.exiting c)) := by simp only [awaitExit, hcode]; rfl
    rw [heq] at hs ho ⊢
    have hnone : m₁.outcome? m.futures.size = none := by
      rw [show m₁.outcome? m.futures.size = m.newFuture.1.outcome? m.futures.size from rfl, newFuture, outcome?_push rfl, outcome?,
        Array.getElem?_eq_none (Nat.le_refl _)]
      rfl
    have hplain : m₁.IsPlain m.futures.size := by
      rw [IsPlain, show m₁.owner? m.futures.size = m.newFuture.1.owner? m.futures.size from rfl]
      simp [newFuture, owner?]
    have hmem : m.futures.size ∈ (m'.state.child c).exitWaiters := by
      rw [hs, show m₁.state = m.state.modifyChild c _ from rfl, State.child_modifyChild, if_pos ⟨rfl, hc⟩]
      exact List.mem_append_right _ (List.mem_singleton.mpr rfl)
    simp only [nextThread, hnone]
    exact .waits (.inl hmem) fun e h => by cases (hnone.symm.trans (ho _ hplain).symm).trans h

end Loop

section goes

variable {role role' : FutureId → Role} {x : ChildTransport} {a b : Watch} {past : List Watch} {v : TaskId} {c : ChildId}
  {f : FutureId} {o : Ending} {th : Thread Routine Frame Value Failure} {stack : List Frame}

open Loop

/-- **When a child ends, all who wait for that are woken.** -/
theorem Watch.Goes.rouses (hg : Watch.Goes role a role' b) (hf : Fits role a.loop .transport) (ho : Orderly x a.loop) :
    Rouses a.loop b.loop := by
  cases hg with
  | tick hq hs =>
    dsimp only
    generalize a.loop.tick program = m' at hs
    have hset : ∀ {root called : Routine} {t : TaskId} {stack : List Frame} {s : Loop × Move},
        Deed role role' a.loop t root called stack s .transport → ∀ {c f}, f ∈ (a.loop.state.child c).exitWaiters →
        s.1.isSettled f = true → (s.1.perform t stack s.2).isSettled f = true := by
      intro root called t stack s hd c f hmem hset
      have hplain := hd.does.effect.extends.owner (hf.tidy.role_of_exitWaiter hmem).1
      rwa [isSettled, hd.switch.outcome hplain]
    cases hs with
    | awakes _ _ _ switch => exact .of_dealings (dealings_of_state switch.state)
    | passes _ _ hstate => exact .of_dealings (dealings_of_state hstate)
    | ends _ switch => exact .of_dealings (dealings_of_state switch.state)
    | begins _ _ _ deed => exact (begin_rouses _ _).onward deed.state (hset deed)
    | resumes _ serves _ _ deed =>
      have hduty := deed.stacked.duty (ho.chores deed.made)
      refine (resume_rouses _ (fun l opening asking => ?_) _).onward deed.state (hset deed)
      rintro rfl
      cases serves with
      | introducing h => cases h <;> cases hduty <;> rename_i h <;> cases h
  | @stimulus s hr hd => exact apply_rouses a.loop fun r h => by rw [h] at hd; exact hd

/-- A future that stands for the end of a child does not fail. -/
theorem Watch.Goes.exit_outcome (hg : Watch.Goes role a role' b) (hf : Fits role a.loop .transport) (hrole : role f = .exit c)
    (ho : b.loop.outcome? f = some o) : a.loop.outcome? f = some o ∨ ∀ e, o ≠ .failed e := by
  have hplain : a.loop.IsPlain f := hf.tidy.special (by rw [hrole]; exact Role.noConfusion)
  have hbare : ¬ (bare role).target f := fun h => by
    have hscheduled : (role f).isScheduled = true := h
    rw [hrole] at hscheduled
    cases hscheduled
  have hother : ¬ role f = .other := by rw [hrole]; exact Role.noConfusion
  cases hg with
  | tick hq hs =>
    dsimp only at ho
    generalize a.loop.tick program = m' at hs ho
    have hdeed : ∀ {root called : Routine} {t : TaskId} {stack : List Frame} {s : Loop × Move},
        Deed role role' a.loop t root called stack s .transport → (s.1.perform t stack s.2).outcome? f = some o →
        a.loop.outcome? f = some o ∨ ∀ e, o ≠ .failed e := by
      intro root called t stack s hd ho
      rw [hd.switch.outcome (hd.does.effect.extends.owner hplain)] at ho
      exact outcome_of_extends hd.does.effect.extends hplain hother ho
    cases hs with
    | awakes _ _ _ switch => exact .inl ((switch.outcome hplain).symm.trans ho)
    | passes _ he _ => exact outcome_of_extends he hplain hbare ho
    | ends _ switch => exact .inl ((switch.outcome hplain).symm.trans ho)
    | begins _ _ _ deed => exact hdeed deed ho
    | resumes _ _ _ _ deed => exact hdeed deed ho
  | @stimulus s hr hd =>
    by_cases ht : ∃ time, s = .advance time
    · obtain ⟨time, rfl⟩ := ht
      have hset : Settled (bare role) a.loop (a.loop.apply (.advance time)).1 := .setTime hf.tidy.sound _
      exact outcome_of_extends hset.extends_ hplain hbare ho
    · have haside := hf.aside hr hd fun time h => ht ⟨time, h⟩
      exact outcome_of_extends haside.effect.extends hplain hother ho

/-- **Once a child has ended nobody is left to wake.** -/
theorem IsWatched.relieved (h : IsWatched (a :: past)) (hd : a.loop.state.IsDead c) : (a.loop.state.child c).exitWaiters = [] := by
  induction past generalizing a with
  | nil =>
    cases h with
    | new hm =>
      obtain ⟨s, rfl⟩ := hm
      cases hd
  | cons b past ih =>
    obtain ⟨hb, -, role, role', hf, -, hgoes⟩ := h.lastStep
    obtain ⟨x, ho, -⟩ := hb.orderly
    exact (hgoes.rouses hf ho).dead (ih hb) hd

/-- The child of a task was there at every moment at which the task was. -/
def Built (v : TaskId) (c : ChildId) (moments : List Watch) : Prop :=
  ∀ d ∈ moments, d.loop.routine? v = some (.awaitExit c) → c < d.loop.state.children.length

/-- **A task that waits for the end of a child goes on to do so.** -/
theorem Loop.AwaitsExit.step (h : AwaitsExit c a.loop th) (hrun : IsWatched (a :: past)) (hg : Watch.Goes role a role' b)
    (hf : Fits role a.loop .transport) (hth : a.loop.thread? v = some th) (hc : Loop.Course .transport role a.loop v th role' b.loop)
    (hlt : c < a.loop.state.children.length) :
    (∃ th', b.loop.thread? v = some th' ∧ AwaitsExit c b.loop th') ∨ ∃ o, b.loop.taskOutcome? v = some o ∧ ∀ e, o ≠ .failed e := by
  obtain ⟨x, ho, -⟩ := hrun.orderly
  have hrouses := hg.rouses hf ho
  have hkeeps := hg.keeps hf
  have hexit : ∀ {f : FutureId} {o : Ending}, role f = .exit c → b.loop.outcome? f = some o → a.loop.outcome? f = some o ∨ ∀ e, o ≠ .failed e :=
    fun hrole => hg.exit_outcome hf hrole
  generalize b.loop = m' at hc hrouses hkeeps hexit
  cases h with
  | fresh =>
    refine .inl ?_
    cases hc with
    | rests idle runs hth' => exact ⟨_, hth', .fresh⟩
    | awakes how switch =>
      cases how with
      | begins => exact ⟨_, switch.self, .begins⟩
      | dropped => exact ⟨_, switch.self, .ends fun e h => by cases h⟩
  | begins =>
    obtain ⟨-, ⟨called, root, -, hd⟩, rfl⟩ := hc.of_begins
    exact .inl ⟨_, hd.switch.self, awaitsExit_nextThread a.loop hlt hd.switch.state fun f hplain => hd.switch.outcome hplain⟩
  | @waits f hmem hne =>
    have hrole : a.loop.HasRole role (.exit c) f := by
      obtain ⟨_, -, hfits⟩ := hf.threads hth
      cases hfits with
      | waits _ ha _ => cases ha with | exiting h => exact h
    cases hc with
    | rests idle runs hth' =>
      refine .inl ⟨_, hth', .waits ?_ fun e h => ?_⟩
      · rcases hmem with hmem | hset
        · exact hrouses.waits hmem hrole.1.lt_size
        · obtain ⟨o, ho⟩ := isSettled_iff.mp hset
          exact .inr (isSettled_iff.mpr ⟨o, hkeeps.outcome hrole.1 ho⟩)
      · rcases hexit hrole.2 h with hold | hne'
        · exact hne e hold
        · exact hne' e rfl
    | awakes how switch =>
      cases how with
      | resumes _ ho => exact .inl ⟨_, switch.self, .resumes fun e h => hne e (h ▸ ho)⟩
      | interrupted => exact .inl ⟨_, switch.self, .resumes fun e h => by cases h⟩
  | @resumes o hne =>
    obtain ⟨-, hth'⟩ := hc.resumed (Prod.eta _).symm
    exact .inl ⟨_, hth', .ends hne⟩
  | ends hne => exact .inr ⟨_, hc.of_ends, hne⟩

/-- **A wait for the end of a child** is on its way, or it has ended without a failure. -/
theorem IsWatched.awaitsExit (h : IsWatched (a :: past)) (hroot : a.loop.routine? v = some (.awaitExit c)) (hb : Built v c (a :: past)) :
    (∃ th, a.loop.thread? v = some th ∧ AwaitsExit c a.loop th) ∨ ∃ o, a.loop.taskOutcome? v = some o ∧ ∀ e, o ≠ .failed e := by
  have hfollow : (∃ th, a.loop.thread? v = some th ∧ (Built v c (a :: past) → AwaitsExit c a.loop th)) ∨
      ∃ o, a.loop.taskOutcome? v = some o ∧ (Built v c (a :: past) → ∀ e, o ≠ .failed e) := by
    refine h.follow (P := fun a past th => Built v c (a :: past) → AwaitsExit c a.loop th)
      (Q := fun a past o => Built v c (a :: past) → ∀ e, o ≠ .failed e) (fun _ => .fresh) ?_ ?_ hroot
    · intro role role' a b past th hrun hf hf' hg hth hroot hc hp
      by_cases hb : Built v c (b :: a :: past)
      · have hbefore : Built v c (a :: past) := fun d hd => hb d (List.mem_cons_of_mem _ hd)
        exact ((hp hbefore).step hrun hg hf hth hc (hbefore a List.mem_cons_self hroot)).imp
          (fun ⟨th', hth', h⟩ => ⟨th', hth', fun _ => h⟩) fun ⟨o, ho, h⟩ => ⟨o, ho, fun _ => h⟩
      · exact hc.proceeds.imp (fun ⟨th', hth'⟩ => ⟨th', hth', fun h => absurd h hb⟩) fun ⟨o, ho⟩ => ⟨o, ho, fun h => absurd h hb⟩
    · exact fun _ _ _ _ _ hq hb => hq fun d hd => hb d (List.mem_cons_of_mem _ hd)
  exact hfollow.imp (fun ⟨th, hth, h⟩ => ⟨th, hth, h hb⟩) fun ⟨o, ho, h⟩ => ⟨o, ho, h hb⟩

/-- **Whoever waits for a child and is not woken waits for one that lives.** -/
theorem IsWatched.alive_of_waits (h : IsWatched (a :: past))
    (hs : a.loop.isSettled f = false) (ha : AwaitsExit c a.loop ⟨.waits f, stack⟩) : ¬ a.loop.state.IsDead c := by
  cases ha with
  | waits hmem =>
    intro hdead
    have hmem := hmem.resolve_right (by rw [hs]; exact Bool.false_ne_true)
    rw [h.relieved hdead] at hmem
    cases hmem

end goes

end DiagnosticsClient
