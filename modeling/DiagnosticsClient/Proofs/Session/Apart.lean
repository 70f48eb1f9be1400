import DiagnosticsClient.Proofs.Session.Handover
/-
What others do to a listener.

A step of a task that is not about a listener gives it something at most, as does
whatever reaches the session from outside: it is not opened, not ended, and nothing is
taken from its queue (`Goes.given`).
-/
namespace DiagnosticsClient

open Async Async.Machine

/-- The listener that the next step of a running task is about. -/
def Thread.about (th : Thread Routine Frame Value Failure) : Option ListenerId :=
  match th.top, th.stack with
  | .begins r, _ => r.about
  | .resumes _, F :: _ => F.about
  | _, _ => none

theorem Thread.uses_of_about {th : Thread Routine Frame Value Failure} {l : ListenerId} (h : Thread.about th = some l) :
    Thread.Uses th l := by
  unfold Thread.about at h
  split at h
  · next htop => exact .inl ⟨_, .inr htop, h⟩
  · next htop hstack => exact .inr ⟨_, by rw [hstack]; exact List.mem_cons_self, h⟩
  · cases h

namespace Loop

variable {role role' : FutureId → Role} {K : TaskId → Prop} {S : Routine → Prop} {m m' m'' : Loop} {t : TaskId}
  {l l' : ListenerId} {ds : List Delivery} {root called r : Routine} {F : Frame} {stack : List Frame} {o : Ending}
  {s : Loop × Move} {held : List ListenerId}

theorem Given.of_log (hlog : m'.state.log = m.state.log) (h : m'.state.listener l = m.state.listener l) : Given l [] m m' :=
  .of_same (by simp only [State.delivered, hlog]) h

theorem Still.given (h : Still m.state m'.state) : Given l [] m m' :=
  .of_log h.log (by simp only [State.listener, h.listeners])

theorem Aside.given (h : Aside role K S m m') : Given l [] m m' := h.delivers.given l

/-- Nothing is given, and then again nothing. -/
theorem Given.nothing (h : Given l [] m m') (h' : Given l [] m' m'') : Given l [] m m'' :=
  .of_same (by rw [h'.delivered, h.delivered, List.append_nil, List.append_nil]) ((h'.same rfl).trans (h.same rfl))

/-- Another listener is changed. -/
theorem Given.modifyListener (k : Listener → Listener) (hne : l' ≠ l) : Given l [] m (m.modifyListener l' k) := by
  refine .of_log rfl ?_
  rw [show (m.modifyListener l' k).state.listener l = _ from listener_modifyListener m.state l' l k]
  exact if_neg fun h => hne h.1.symm

/-- Whoever waits for another listener is woken. -/
theorem Given.wakeGetter (h : m.Tidy role) (hne : l' ≠ l) : Given l [] m (m.wakeGetter l') := by
  obtain ⟨-, hstate, -⟩ := wakeNext_effect (D := m.state.IsDead) (K := fun _ => True) (S := fun _ => True)
    fun f (hf : f ∈ (m.state.listener l').getters) => h.getter hf
  have hwake : Given l [] m (m.wakeNext (m.state.listener l').getters).1 := .of_log (by rw [hstate]) (by rw [hstate])
  exact hwake.nothing (.modifyListener _ hne)

/-- One who waited for another listener looks again, or leaves. -/
theorem Given.takeResumed (h : m.Tidy role) {g : FutureId} (hg : m.isSettled g = true) (hne : l' ≠ l) (o : Ending) :
    Given l [] m (takeResumed l' g o m).1 := by
  have hleave : Given l [] m (m.modifyListener l' fun x => { x with getters := x.getters.erase g }) := .modifyListener _ hne
  have htidy := (Works.modifyListener (K := fun _ => True) (S := fun _ => True) h l'
    (k := fun x => { x with getters := x.getters.erase g }) fun _ f hf => List.mem_of_mem_erase hf).tidy
  unfold Loop.takeResumed
  split
  · exact .of_log rfl rfl
  · rw [settle_of_isSettled hg]
    dsimp only
    split
    · exact hleave.nothing (.wakeGetter htidy hne)
    · exact hleave

/-! ## Beginning and going on -/

/-- A routine that is not about a listener begins without a change of it, but perhaps gives it something. -/
theorem Begins.given (h : Begins role m r called) (hr : r.StandsFor called) (ha : r.about ≠ some l) :
    ∃ ds, Given l ds m (begin r m).1 := by
  have hne : ∀ {l'}, some l' ≠ some l → l' ≠ l := fun h heq => h (congrArg some heq)
  have hsame : ∀ {m' : Loop}, m'.state.log = m.state.log → m'.state.listener l = m.state.listener l →
      ∃ ds, Given l ds m m' := fun hlog hl => ⟨[], .of_log hlog hl⟩
  cases h with
  | minor _ _ hheard => exact ⟨_, hheard.given l⟩
  | acquire =>
    simp only [begin, Loop.acquire]
    split <;> exact hsame rfl rfl
  | take l' =>
    have hnew : Given l [] m m.future.1 := .of_log rfl rfl
    simp only [begin, Loop.take]
    split
    · exact ⟨[], .modifyListener _ (hne ha)⟩
    · exact ⟨[], hnew.nothing (.modifyListener _ (hne ha))⟩
  | mild hd hacquire htake =>
    cases r with
    | openListener l' =>
      simp only [begin, openListener]
      split
      · exact hsame rfl rfl
      · exact ⟨[], .modifyListener _ (hne ha)⟩
    | closeListener l' => exact ⟨[], .modifyListener _ (hne ha)⟩
    | next l' =>
      simp only [begin, next]
      split
      · exact hsame rfl rfl
      · split <;> exact hsame rfl rfl
    | visit count => exact hsame rfl (listener_listen m l)
    | exchange opening asking => exact hsame rfl (listener_listen m l)
    | request file limit => cases limit <;> exact hsame rfl rfl
    | register l' => exact hsame rfl rfl
    | closeSession => exact hsame rfl rfl
    | collect l' => exact hsame rfl rfl
    | acquireLock => exact absurd rfl hacquire
    | take l' => exact absurd rfl (htake l')
    | checkFile => exact hsame rfl rfl
    | checkFiles files context limit =>
      have hstate : (begin (.checkFiles files context limit) m).1.state = m.state := spawnGroup_state m _
      exact hsame (by rw [hstate]) (by rw [hstate])
    | _ => cases hr <;> cases hd

/-- And so does a frame go on. -/
theorem Resumes.given (h : Resumes role m o F called) (ht : m.Tidy role) (hs : F.Serves m.routine? called)
    (hw : F.Woke role m o) (ha : F.about ≠ some l) : ∃ ds, Given l ds m (resume F o m).1 := by
  have hne : ∀ {l'}, some l' ≠ some l → l' ≠ l := fun h heq => h (congrArg some heq)
  have hrefl : Given l [] m m := .of_log rfl rfl
  cases h with
  | minor _ _ hheard => exact ⟨_, hheard.given l⟩
  | locking w hstill => exact ⟨[], hstill.given⟩
  | registering _ hstill => exact ⟨[], hstill.given⟩
  | starting _ _ hstill => exact ⟨[], hstill.given⟩
  | leaving _ hstill => exact ⟨[], hstill.given⟩
  | releasing _ hstill => exact ⟨[], hstill.given⟩
  | closing =>
    have hdetach : Given l [] m (m.modify fun s => { s with registered := [], current := none }) := .of_log rfl rfl
    have hall := detachAll_delivers (K := fun _ => True) (S := fun _ => True) ht none
    have hgiven := hdetach.trans (hall.given l) rfl id hall.effect.extends.outcome
    have hfree := (Works.releaseLock (K := fun _ => True) (S := fun _ => True) hall.tidy).effect
    simp only [resume, closeLocked]
    split
    · split
      · exact ⟨_, hgiven⟩
      · exact ⟨_, hgiven.trans (Still.given (.releaseLock ⟨rfl, rfl, rfl⟩)) hall.length
          ((detach_acts ht).trans hall.toActs).effect.extends.outcome hfree.extends.outcome⟩
    · exact ⟨_, hrefl⟩
  | getting l' g =>
    obtain ⟨-, o', ho', -⟩ := hw
    exact ⟨[], .takeResumed ht (isSettled_iff.mpr ⟨o', ho'⟩) (hne ha) o⟩
  | mild hd hF =>
    refine ⟨[], ?_⟩
    cases hs with
    | opening l' =>
      simp only [resume, openResumed]
      split
      · exact hrefl
      · exact .modifyListener _ (hne ha)
    | receiving l' =>
      simp only [resume, nextResumed]
      split
      · exact hrefl
      · exact .modifyListener _ (hne ha)
      · exact hrefl
    | collecting =>
      simp only [resume, collectResumed]
      split <;> exact hrefl
    | visiting =>
      simp only [resume, visitOpened, visitOn]
      split
      · split <;> exact hrefl
      · exact hrefl
    | visited =>
      simp only [resume, visitResumed, visitOn]
      split
      · split <;> exact hrefl
      · exact hrefl
    | finishingVisit =>
      simp only [resume, cleanedUp]
      split <;> exact hrefl
    | finishing =>
      simp only [resume, cleanedUp]
      split <;> exact hrefl
    | requesting =>
      simp only [resume, requestResumed]
      split <;> exact hrefl
    | @introducing l' _ opening asking hx =>
      simp only [resume, exchangeOpened]
      split
      · have hsend := Aside.sendAll (K := fun _ => True) (S := fun _ => True) ht [opening, asking]
        split <;> rename_i hm <;> rw [hm] at hsend <;> exact hsend.given
      · exact hrefl
    | expecting hx =>
      simp only [resume, exchangeResumed]
      split
      · split
        · exact (Aside.note (K := fun _ => True) (S := fun _ => True) ht .debug _).given
        · exact hrefl
      · exact hrefl
      · exact hrefl
      · exact hrefl
    | answered file context limit =>
      simp only [resume, answerResumed]
      split
      · split
        · exact hrefl
        · next diagnostics _ =>
          have hnote := Aside.note (K := fun _ => True) (S := fun _ => True) ht .debug
            (file ++ lit ": " ++ Text.ofNat diagnostics.length ++ lit " diagnostic(s)")
          exact (hnote.trans (Aside.deliver hnote.tidy _).1).given
      · exact hrefl
    | readSource =>
      simp only [resume, sourceResumed]
      split <;> exact hrefl
    | gathered => exact hrefl
    | finishingCheck =>
      simp only [resume, cleanedUp]
      split <;> exact hrefl
    | _ => cases hF

/-! ## All steps -/

/-- Who was woken in a deed was woken in the step. -/
theorem Deed.served {n : Nat} (hd : Deed role role' m t root called stack s) (ht : m.Tidy role) (h : Served l n m s.1) :
    Served l n m (s.1.perform t stack s.2) where
  kept g hg hun := by
    rw [hd.isSettled (ht.getter hg).1] at hun
    rw [hd.state]
    exact h.kept g hg hun
  woken := by
    obtain ⟨ws, hnodup, hws, hall⟩ := h.woken
    refine ⟨ws, hnodup, fun g hg => ?_, hall.imp_right fun hall g hg => ?_⟩
    · obtain ⟨hmem, hun, v, hv⟩ := hws g hg
      have hplain := hd.does.effect.extends.owner (ht.getter hmem).1
      exact ⟨hmem, hun, v, (hd.switch.outcome hplain).trans hv⟩
    · rw [hd.state] at hg
      have hset := hall g hg
      unfold Machine.isSettled at hset ⊢
      rwa [hd.switch.outcome (hd.does.tidy.getter hg).1]

/-- What was given in a deed was given in the step. -/
theorem Deed.given (hd : Deed role role' m t root called stack s) (ht : m.Tidy role) (h : Given l ds m s.1) :
    Given l ds m (s.1.perform t stack s.2) where
  delivered := by rw [hd.state, h.delivered]
  opened := by rw [hd.state, h.opened]
  ended := by rw [hd.state, h.ended]
  queue hl := by rw [hd.state, h.queue hl]
  same hds := by rw [hd.state, h.same hds]
  getters g hg := h.getters g (by rwa [hd.state] at hg)
  woken hl hne g hg hall := by
    rw [hd.isSettled (ht.getter hg).1]
    exact h.woken hl hne g hg hall
  served := hd.served ht h.served

theorem Tick.given (ht : Tick role m role' m') (hf : Fits role m) (ha : ∀ x, m.running = some x → Thread.about x.thread ≠ some l) :
    ∃ ds, Given l ds m m' := by
  have hstate : m'.state = m.state → ∃ ds, Given l ds m m' := fun h => ⟨[], .of_log (by rw [h]) (by rw [h])⟩
  cases ht with
  | awakes _ _ _ switch => exact hstate switch.state
  | passes _ _ h => exact hstate h
  | ends _ switch _ => exact hstate switch.state
  | begins runs valid stands how deed =>
    obtain ⟨ds, hds⟩ := how.given stands (ha _ runs)
    exact ⟨ds, deed.given hf.tidy hds⟩
  | resumes runs serves gets woke how deed =>
    obtain ⟨ds, hds⟩ := how.given hf.tidy serves woke (ha _ runs)
    exact ⟨ds, deed.given hf.tidy hds⟩

theorem apply_given {i : Stimulus} (hf : Fits role m) (hr : m.running = none) (ha : i.Admissible held m) :
    ∃ ds, Given l ds m (m.apply i).1 :=
  apply_cases (P := fun m' => ∃ ds, Given l ds m m') hf hr ha ⟨[], .of_log rfl (listener_listen m l)⟩ ⟨[], .of_log rfl rfl⟩
    (fun hset => ⟨[], .of_log (by rw [hset.state]) (by rw [hset.state])⟩) fun hears => ⟨_, hears.given l⟩

/-- The number of listeners does not fall. -/
theorem Tick.length (ht : Tick role m role' m') (hf : Fits role m) : m.state.listeners.length ≤ m'.state.listeners.length := by
  cases ht with
  | awakes _ _ _ switch => exact Nat.le_of_eq (by rw [switch.state])
  | passes _ _ h => exact Nat.le_of_eq (by rw [h])
  | ends _ switch _ => exact Nat.le_of_eq (by rw [switch.state])
  | begins _ _ _ how deed =>
    rw [deed.state]
    exact how.length
  | resumes _ _ _ _ how deed =>
    rw [deed.state]
    exact how.length hf.tidy

end Loop

variable {role role' : FutureId → Role} {a b : Moment} {past : List Moment} {l : ListenerId}

/-- **Whoever is not about a listener leaves it alone**, but perhaps gives it something. -/
theorem Goes.given (hg : Goes role a role' b) (ha : a.Holds role) (hl : ∀ x, a.loop.running = some x → Thread.about x.thread ≠ some l) :
    ∃ ds, Loop.Given l ds a.loop b.loop := by
  cases hg with
  | tick hq ht => exact ht.given ha.fits hl
  | stimulus hr hs => exact Loop.apply_given ha.fits hr hs

theorem Goes.length (hg : Goes role a role' b) (ha : a.Holds role) :
    a.loop.state.listeners.length ≤ b.loop.state.listeners.length := by
  cases hg with
  | tick hq ht => exact ht.length ha.fits
  | stimulus hr hs => exact Loop.apply_length ha.fits hr hs

end DiagnosticsClient
