import DiagnosticsClient.Proofs.Session.Uses
/-
Who may register a listener.

A listener is registered once at most. Who opens it marks it as opened, and nobody
opens it again; the task that did has the right to register it until it does, or
gives up (`Thread.right`). So no listener is twice among those registered
(`Allotted`), and one that was let go never comes back (`Spent`).

A step leaves rights as they are or loses some, gives one to who opens a
listener, or uses one: `Shift` has these three cases, and every step and whatever
reaches the session is one of them (`Tick.shifts`, `apply_shifts`).
-/
namespace DiagnosticsClient

open Async Async.Machine

/-- The listener that a task with this stack may register. -/
def rightOf : List Frame → Option ListenerId
  | .registering l :: _ => some l
  | .locking _ :: .registering l :: _ => some l
  | _ => none

/-- The listener that a task may register. -/
def Thread.right (th : Thread Routine Frame Value Failure) : Option ListenerId :=
  match th.top with
  | .begins (.register l) => some l
  | _ => rightOf th.stack

/-- How rights, and the listeners that are registered, may change. -/
inductive Shift (p p' : TaskId → Option ListenerId) (s s' : State) : Prop
  | keeps (hp : ∀ {u l}, p' u = some l → p u = some l)
      (ho : ∀ {l}, (s.listener l).opened = true → (s'.listener l).opened = true)
      (hr : s'.registered.Sublist s.registered)
  | allots {t : TaskId} {l : ListenerId} (hself : p' t = some l) (hother : ∀ {u}, u ≠ t → p' u = p u)
      (hnew : (s.listener l).opened = false) (hopened : (s'.listener l).opened = true)
      (ho : ∀ {l}, (s.listener l).opened = true → (s'.listener l).opened = true) (hr : s'.registered = s.registered)
  | enters {t : TaskId} {l : ListenerId} (hp : p t = some l) (hself : p' t = none) (hother : ∀ {u}, u ≠ t → p' u = p u)
      (ho : ∀ {l}, (s.listener l).opened = true → (s'.listener l).opened = true) (hr : s'.registered = s.registered ++ [l])

/-- Who has a right has it alone, to a listener that is opened and not registered yet. -/
structure Allotted (p : TaskId → Option ListenerId) (s : State) : Prop where
  opened : ∀ {t : TaskId} {l : ListenerId}, p t = some l → (s.listener l).opened = true ∧ l ∉ s.registered
  alone : ∀ {t u : TaskId} {l : ListenerId}, p t = some l → p u = some l → t = u
  listed : ∀ {l : ListenerId}, l ∈ s.registered → (s.listener l).opened = true
  nodup : s.registered.Nodup

/-- A listener that was opened and can never be registered again. -/
structure Spent (p : TaskId → Option ListenerId) (s : State) (l : ListenerId) : Prop where
  opened : (s.listener l).opened = true
  gone : l ∉ s.registered
  unowned : ∀ t, p t ≠ some l

section shift

variable {p p' : TaskId → Option ListenerId} {s s' : State} {l : ListenerId}

/-- **Rights stay in order.** -/
theorem Allotted.shift (h : Allotted p s) (hs : Shift p p' s s') : Allotted p' s' := by
  cases hs with
  | keeps hp ho hr =>
    exact ⟨fun ht => ⟨ho (h.opened (hp ht)).1, fun hmem => (h.opened (hp ht)).2 (hr.subset hmem)⟩,
      fun ht hu => h.alone (hp ht) (hp hu), fun hl => ho (h.listed (hr.subset hl)), h.nodup.sublist hr⟩
  | @allots t l hself hother hnew hopened ho hr =>
    have hcases : ∀ {u l'}, p' u = some l' → u = t ∧ l' = l ∨ p u = some l' ∧ l' ≠ l := by
      intro u l' hu
      by_cases hut : u = t
      · subst hut
        rw [hself] at hu
        exact .inl ⟨rfl, (Option.some.inj hu).symm⟩
      · rw [hother hut] at hu
        refine .inr ⟨hu, ?_⟩
        rintro rfl
        rw [(h.opened hu).1] at hnew
        cases hnew
    refine ⟨fun {u l'} hu => ?_, fun {u v l'} hu hv => ?_, fun hl => ho (h.listed (hr ▸ hl)), hr ▸ h.nodup⟩
    · rcases hcases hu with ⟨rfl, rfl⟩ | ⟨hu, -⟩
      · refine ⟨hopened, fun hmem => ?_⟩
        rw [h.listed (hr ▸ hmem)] at hnew
        cases hnew
      · exact ⟨ho (h.opened hu).1, hr ▸ (h.opened hu).2⟩
    · rcases hcases hu with ⟨rfl, rfl⟩ | ⟨hu, hne⟩
      · rcases hcases hv with ⟨rfl, -⟩ | ⟨-, hne⟩
        · rfl
        · exact absurd rfl hne
      · rcases hcases hv with ⟨-, rfl⟩ | ⟨hv, -⟩
        · exact absurd rfl hne
        · exact h.alone hu hv
  | @enters t l hp hself hother ho hr =>
    have hcases : ∀ {u l'}, p' u = some l' → p u = some l' ∧ l' ≠ l := by
      intro u l' hu
      have hut : u ≠ t := by
        rintro rfl
        rw [hself] at hu
        cases hu
      rw [hother hut] at hu
      refine ⟨hu, ?_⟩
      rintro rfl
      exact hut (h.alone hu hp)
    refine ⟨fun hu => ⟨ho (h.opened (hcases hu).1).1, fun hmem => ?_⟩, fun hu hv => h.alone (hcases hu).1 (hcases hv).1,
      fun hl => ?_, ?_⟩
    · obtain ⟨hu, hne⟩ := hcases hu
      rw [hr] at hmem
      rcases List.mem_append.mp hmem with hmem | hmem
      · exact (h.opened hu).2 hmem
      · exact hne (List.mem_singleton.mp hmem)
    · rw [hr] at hl
      rcases List.mem_append.mp hl with hl | hl
      · exact ho (h.listed hl)
      · rw [List.mem_singleton.mp hl]
        exact ho (h.opened hp).1
    · rw [hr]
      refine List.nodup_append.mpr ⟨h.nodup, by simp, ?_⟩
      rintro x hx _ hy rfl
      exact (h.opened hp).2 (List.mem_singleton.mp hy ▸ hx)

/-- **What is spent stays spent.** -/
theorem Spent.shift (h : Spent p s l) (hs : Shift p p' s s') : Spent p' s' l := by
  cases hs with
  | keeps hp ho hr => exact ⟨ho h.opened, fun hmem => h.gone (hr.subset hmem), fun t ht => h.unowned t (hp ht)⟩
  | @allots t l' hself hother hnew hopened ho hr =>
    refine ⟨ho h.opened, hr ▸ h.gone, fun u hu => ?_⟩
    by_cases hut : u = t
    · subst hut
      rw [hself] at hu
      rw [Option.some.inj hu, h.opened] at hnew
      cases hnew
    · rw [hother hut] at hu
      exact h.unowned u hu
  | @enters t l' hp hself hother ho hr =>
    refine ⟨ho h.opened, fun hmem => ?_, fun u hu => ?_⟩
    · rw [hr] at hmem
      rcases List.mem_append.mp hmem with hmem | hmem
      · exact h.gone hmem
      · rw [List.mem_singleton.mp hmem] at h
        exact h.unowned t hp
    · by_cases hut : u = t
      · subst hut
        rw [hself] at hu
        cases hu
      · rw [hother hut] at hu
        exact h.unowned u hu

/-- A listener that is let go is spent. -/
theorem Allotted.spent (h : Allotted p s) (hl : l ∈ s.registered) (hs : Shift p p' s s') (hl' : l ∉ s'.registered) :
    Spent p' s' l := by
  cases hs with
  | keeps hp ho hr => exact ⟨ho (h.listed hl), hl', fun t ht => (h.opened (hp ht)).2 hl⟩
  | allots _ _ _ _ _ hr => exact absurd (hr ▸ hl) hl'
  | enters _ _ _ _ hr => exact absurd (hr ▸ List.mem_append_left _ hl) hl'

end shift

/-! ## Rights and stacks -/

section stack

variable {roots : TaskId → Option Routine} {root called r : Routine} {stack : List Frame}

theorem Thread.right_of_ne (h : ∀ l, r ≠ .register l) : Thread.right ⟨.begins r, stack⟩ = rightOf stack := by
  unfold Thread.right
  split
  · next heq =>
    cases heq
    exact absurd rfl (h _)
  · rfl

/-- A stack gives a right to register only while it waits for the lock. -/
theorem Stacked.rightOf_eq_none (h : Stacked roots root called stack) (ha : called ≠ .acquireLock) : rightOf stack = none := by
  cases h with
  | nil => rfl
  | cons hc => cases hc <;> first | rfl | exact absurd rfl ha

theorem Stacked.rightOf_locking (h : Stacked roots root .acquireLock stack) (w : FutureId) :
    rightOf (.locking w :: stack) = rightOf stack := by
  cases h with
  | nil => rfl
  | cons hc => cases hc <;> rfl

end stack

namespace Loop

variable {role role' : FutureId → Role} {roots : TaskId → Option Routine} {m m' : Loop} {t : TaskId} {l : ListenerId}
  {root called r : Routine} {F : Frame} {stack : List Frame} {o : Ending} {a : Move} {size : Nat}
  {th th' : Thread Routine Frame Value Failure} {s : Loop × Move} {held : List ListenerId}

/-- What a step does to rights and registered listeners. -/
abbrev Shifts (m m' : Loop) : Prop := Shift (m.view Thread.right) (m'.view Thread.right) m.state m'.state

/-- No right comes of what is done next, unless a listener is opened. -/
theorem MoveFits.right (hm : MoveFits role m size called a) (hs : Stacked roots root called stack)
    (ha : called ≠ .acquireLock) (hn : ∀ l, called ≠ .openListener l ∧ called ≠ .register l) :
    Thread.right (m.nextThread stack a) = none := by
  have hrest := hs.rightOf_eq_none ha
  cases hm with
  | done => exact hrest
  | call hc hserves =>
    cases hc with
    | opening l =>
      cases hserves
      exact absurd rfl (hn l).1
    | registering l =>
      cases hserves
      exact absurd rfl (hn l).2
    | _ => rfl
  | become hr =>
    refine (Thread.right_of_ne ?_).trans hrest
    rintro l rfl
    cases hr
    exact (hn l).2 rfl
  | @await f F hserves hawaits =>
    have hright : rightOf (F :: stack) = none := by
      cases hawaits with
      | locking =>
        cases hserves
        exact absurd rfl ha
      | _ => rfl
    unfold nextThread
    dsimp only
    split <;> exact hright

/-! ## What is registered and opened -/

theorem Heard.opened {ms : List Message} {e : Option (Option ServerError)} (h : Heard ms e m m')
    (hl : (m.state.listener l).opened = true) : (m'.state.listener l).opened = true :=
  (h.given l).opened.trans hl

theorem Heard.sublist {ms : List Message} {e : Option (Option ServerError)} (h : Heard ms e m m') :
    m'.state.registered.Sublist m.state.registered := by
  rw [h.registered]
  split
  · exact List.nil_sublist _
  · exact .refl _

theorem opened_modifyListener (s : State) (l l' : ListenerId) {k : Listener → Listener} (hk : ∀ x, (k x).opened = x.opened) :
    ((s.modifyListener l k).listener l').opened = (s.listener l').opened := by
  rw [listener_modifyListener]
  split
  · next h => rw [hk, h.1]
  · rfl

theorem Begins.opened (h : Begins role m r called) (hl : (m.state.listener l).opened = true) :
    ((begin r m).1.state.listener l).opened = true := by
  cases h with
  | minor _ _ h => exact h.opened hl
  | mild _ _ _ h => exact h.opened l hl
  | acquire =>
    simp only [begin, Loop.acquire]
    split <;> exact hl
  | take l' =>
    simp only [begin, Loop.take]
    split
    all_goals
      refine (opened_modifyListener m.state l' l ?_).trans hl
      exact fun _ => rfl

theorem Begins.registered (h : Begins role m r called) :
    (begin r m).1.state.registered.Sublist m.state.registered := by
  cases h with
  | minor _ _ h => exact h.sublist
  | mild _ _ _ h => exact h.registered ▸ .refl _
  | acquire =>
    simp only [begin, Loop.acquire]
    split <;> exact .refl _
  | take l' =>
    simp only [begin, Loop.take]
    split <;> exact .refl _

theorem Still.listener {s s' : State} (h : Still s s') (l : ListenerId) : s'.listener l = s.listener l := by
  unfold State.listener
  rw [h.listeners]

theorem Resumes.opened (h : Resumes role m o F called) (ht : m.Tidy role) (hl : (m.state.listener l).opened = true) :
    ((resume F o m).1.state.listener l).opened = true := by
  cases h with
  | minor _ _ h => exact h.opened hl
  | mild _ _ h => exact h.opened l hl
  | locking _ h => exact h.listener l ▸ hl
  | registering _ h => exact h.listener l ▸ hl
  | starting _ _ h => exact h.listener l ▸ hl
  | leaving _ h => exact h.listener l ▸ hl
  | closing =>
    have hopened := ((detachAll_delivers (K := fun _ => True) (S := fun _ => True) ht none).given l).opened
    simp only [resume, closeLocked]
    split
    · split
      · exact hopened.trans hl
      · rw [releaseLock_state]
        exact hopened.trans hl
    · exact hl
  | releasing _ h => exact h.listener l ▸ hl
  | getting _ _ h => exact h.opened l hl

/-- Frames go on and register nobody, but the one for that. -/
theorem Resumes.registered (h : Resumes role m o F called) (ht : m.Tidy role) :
    (resume F o m).1.state.registered.Sublist m.state.registered ∨
      ∃ l v, F = .registering l ∧ o = .value v ∧ (resume F o m).1.state.registered = m.state.registered ++ [l] := by
  cases h with
  | minor _ _ h => exact .inl h.sublist
  | mild _ _ h => exact .inl (h.registered ▸ .refl _)
  | locking w =>
    refine .inl ?_
    simp only [resume, acquireResumed]
    split
    · exact .refl _
    · dsimp only
      split
      · exact .refl _
      · rw [wakeLock_state]
        exact .refl _
  | registering l =>
    cases o with
    | value v =>
      refine .inr ⟨l, v, rfl, rfl, ?_⟩
      have hreg := (Works.modifyDesk (K := fun _ => True) (S := fun _ => True) ht (· ++ [l]) id).tidy
      have hadd := (Aside.addTransport (K := fun _ => True) (S := fun _ => True) hreg).core
      simp only [resume, registerLocked]
      split
      · rw [releaseLock_state]
        rfl
      · exact congrArg Core.registered hadd
    | _ => exact .inl (.refl _)
  | starting l t =>
    refine .inl ?_
    simp only [resume, startResumed]
    split <;> rw [releaseLock_state]
    · exact .refl _
    · exact List.erase_sublist
  | leaving l =>
    refine .inl ?_
    simp only [resume, leaveLocked]
    split
    · split
      · split
        · exact List.erase_sublist
        · rw [releaseLock_state]
          exact List.erase_sublist
      · exact releaseLock_state m ▸ .refl _
    · exact .refl _
  | closing =>
    have hnil := (detachAll_delivers (K := fun _ => True) (S := fun _ => True) ht none).registered
    refine .inl ?_
    simp only [resume, closeLocked]
    split
    · split
      · exact hnil ▸ List.nil_sublist _
      · rw [releaseLock_state]
        exact hnil ▸ List.nil_sublist _
    · exact .refl _
  | releasing =>
    refine .inl ?_
    simp only [resume, stopResumed]
    exact releaseLock_state m ▸ .refl _
  | getting l g h => exact .inl (h.registered ▸ .refl _)

/-! ## Every step is a shift -/

theorem view_right (h : m.thread? t = some th) : m.view Thread.right t = Thread.right th := by
  rw [Machine.view, h]
  rfl

theorem Deed.shifts (hd : Deed role role' m t root called stack s) (hf : Fits role m) (hth : m.thread? t = some th)
    (hright : ∀ l, Thread.right (s.1.nextThread stack s.2) = some l → Thread.right th = some l)
    (ho : ∀ {l}, (m.state.listener l).opened = true → (s.1.state.listener l).opened = true)
    (hr : s.1.state.registered.Sublist m.state.registered) : Shifts m (s.1.perform t stack s.2) := by
  refine .keeps (fun {u l} hu => ?_) (fun hl => by rw [hd.state]; exact ho hl) (by rwa [hd.state])
  by_cases hut : u = t
  · subst hut
    rw [view_right hth]
    exact hright l (hd.view_self.symm.trans hu)
  · exact (hd.view_other hf (fun _ => rfl) hut).symm.trans hu

/-- Who opens a listener that nobody has opened gets the right to register it. -/
theorem openListener_shifts (hf : Fits role m) (hk : Known m held) (hr : m.running = some (.begin t (.openListener l) stack))
    (hd : Deed role role' m t root (.openListener l) stack (begin (.openListener l) m)) :
    Shifts m ((begin (.openListener l) m).1.perform t stack (begin (.openListener l) m).2) := by
  have hth : m.thread? t = some ⟨.begins (.openListener l), stack⟩ := thread?_of_running hr
  cases hopened : (m.state.listener l).opened with
  | true =>
    have hbegin : begin (.openListener l) m = (m, .done (.failed (.misuse .alreadyOpened))) := by
      simp only [begin, openListener, hopened, if_true]
    rw [hbegin] at hd ⊢
    refine hd.shifts hf hth (fun l' h => ?_) id (.refl _)
    have hnone : rightOf stack = none := hd.stacked.rightOf_eq_none (by intro h; cases h)
    rw [show Thread.right (m.nextThread stack (.done _ : Move)) = rightOf stack from rfl, hnone] at h
    cases h
  | false =>
    have hlt : l < m.state.listeners.length := hk.there hth (uses_begins.mpr (.inl rfl))
    let m₁ := m.modifyListener l fun x => { x with opened := true }
    have hbegin : begin (.openListener l) m = (m₁, .call (.register l) (.opening l)) := by
      simp only [begin, openListener, hopened, Bool.false_eq_true, if_false, m₁]
    have hlistener : ∀ l', m₁.state.listener l' = if l' = l ∧ l < m.state.listeners.length then
        { m.state.listener l with opened := true } else m.state.listener l' :=
      fun l' => listener_modifyListener m.state l l' _
    rw [hbegin] at hd ⊢
    refine .allots hd.view_self (fun hu => hd.view_other hf (fun _ => rfl) hu) hopened ?_ (fun {l'} hl' => ?_)
      (by rw [hd.state]; rfl)
    · rw [hd.state, hlistener, if_pos ⟨rfl, hlt⟩]
    · rw [hd.state, hlistener]
      split
      · rfl
      · exact hl'

theorem Begins.shifts (hf : Fits role m) (hk : Known m held) (hr : m.running = some (.begin t r stack))
    (hstands : r.StandsFor called) (how : Begins role m r called)
    (hd : Deed role role' m t root called stack (begin r m)) :
    Shifts m ((begin r m).1.perform t stack (begin r m).2) := by
  have hth : m.thread? t = some ⟨.begins r, stack⟩ := thread?_of_running hr
  by_cases hopen : ∃ l, r = .openListener l
  · obtain ⟨l, rfl⟩ := hopen
    cases hstands
    exact openListener_shifts hf hk hr hd
  · refine hd.shifts hf hth (fun l h => ?_) how.opened how.registered
    by_cases hreg : ∃ l', r = .register l'
    · obtain ⟨l', rfl⟩ := hreg
      exact h
    · by_cases hacquire : r = .acquireLock
      · subst hacquire
        cases hstands
        have hwait : ∀ w, rightOf (.locking w :: stack) = rightOf stack := hd.stacked.rightOf_locking
        refine Eq.trans ?_ h
        simp only [begin, Loop.acquire]
        split
        · rfl
        · unfold nextThread
          dsimp only
          split <;> exact (hwait _).symm
      · rw [hd.does.move.right hd.stacked ?_ fun l' => ⟨?_, ?_⟩] at h
        · cases h
        · rintro rfl
          cases hstands
          exact hacquire rfl
        · rintro rfl
          cases hstands
          exact hopen ⟨l', rfl⟩
        · rintro rfl
          cases hstands
          exact hreg ⟨l', rfl⟩

/-- No right comes of a frame that goes on, unless it got the lock for one who registers a listener. -/
theorem resume_right (hs : F.Serves m.routine? called) (hd : Deed role role' m t root called stack (resume F o m))
    (ha : called ≠ .acquireLock) : Thread.right ((resume F o m).1.nextThread stack (resume F o m).2) = none := by
  have hrest : rightOf stack = none := hd.stacked.rightOf_eq_none ha
  by_cases hopen : ∃ l, called = .openListener l
  · obtain ⟨l, rfl⟩ := hopen
    cases hs with
    | opening =>
      simp only [resume, openResumed]
      split <;> exact hrest
    | finishing hx => cases hx
    | introducing hx => cases hx
    | expecting hx => cases hx
  · by_cases hreg : ∃ l, called = .register l
    · obtain ⟨l, rfl⟩ := hreg
      cases hs with
      | registering =>
        simp only [resume, registerLocked]
        split
        · split
          · exact hrest
          · rfl
        · exact hrest
      | starting =>
        simp only [resume, startResumed]
        split <;> exact hrest
      | finishing hx => cases hx
      | introducing hx => cases hx
      | expecting hx => cases hx
    · exact hd.does.move.right hd.stacked ha fun l => ⟨fun h => hopen ⟨l, h⟩, fun h => hreg ⟨l, h⟩⟩

theorem Resumes.shifts (hf : Fits role m) (hr : m.running = some (.resume t o (F :: stack))) (hs : F.Serves m.routine? called)
    (how : Resumes role m o F called) (hd : Deed role role' m t root called stack (resume F o m)) :
    Shifts m ((resume F o m).1.perform t stack (resume F o m).2) := by
  have hth : m.thread? t = some ⟨.resumes o, F :: stack⟩ := thread?_of_running hr
  rcases how.registered hf.tidy with hsub | ⟨l, v, rfl, rfl, hreg⟩
  · refine hd.shifts hf hth (fun l h => ?_) (how.opened hf.tidy) hsub
    by_cases ha : called = .acquireLock
    · subst ha
      cases how with
      | minor hdrive => cases hdrive
      | mild _ hmild => exact absurd rfl (hs.ne_acquireLock hmild)
      | locking w =>
        refine (hd.stacked.rightOf_locking w).trans (Eq.trans ?_ h)
        simp only [resume, acquireResumed]
        split <;> rfl
      | releasing hcalled => rcases hcalled with h | ⟨l, h⟩ <;> cases h
    · rw [resume_right hs hd ha] at h
      cases h
  · have ha : called ≠ .acquireLock := by
      rintro rfl
      cases hs
    refine .enters ((view_right hth).trans rfl) (hd.view_self.trans (resume_right hs hd ha))
      (fun hu => hd.view_other hf (fun _ => rfl) hu) (fun hl => ?_) ?_
    · rw [hd.state]
      exact how.opened hf.tidy hl
    · rw [hd.state, hreg]

/-- **Every step is a shift of rights.** -/
theorem Tick.shifts (ht : Tick role m role' m') (hf : Fits role m) (hf' : Fits role' m') (hk : Known m held) : Shifts m m' := by
  cases ht with
  | @awakes _ t th th' idle hth how switch =>
    obtain ⟨root, hroot, hfits⟩ := hf.threads hth
    have hright : Thread.right th' = Thread.right th := by
      cases how with
      | begins =>
        cases hfits with
        | fresh =>
          refine Thread.right_of_ne ?_
          rintro l rfl
          cases hf.roots hroot
      | _ => rfl
    refine .keeps (fun {u l} hu => ?_) (fun hl => by rwa [switch.state]) (switch.state ▸ .refl _)
    by_cases hut : u = t
    · subst hut
      rw [view_right hth, ← hright]
      exact switch.view_self.symm.trans hu
    · exact (switch.view_other hut).symm.trans hu
  | passes idle he hstate =>
    refine .keeps (fun {u l} hu => ?_) (fun hl => by rwa [hstate]) (hstate ▸ .refl _)
    exact (he.view hf.tidy.sound hf'.tidy.sound (fun _ => rfl) u).symm.trans hu
  | @ends _ t o runs switch outcome =>
    refine .keeps (fun {u l} hu => ?_) (fun hl => by rwa [switch.state]) (switch.state ▸ .refl _)
    by_cases hut : u = t
    · subst hut
      cases switch.view_self.symm.trans hu
    · exact (switch.view_other hut).symm.trans hu
  | begins runs valid stands how deed => exact how.shifts hf hk runs stands deed
  | resumes runs serves gets woke how deed => exact how.shifts hf runs serves deed

/-- **Whatever reaches a session is one, too.** -/
theorem apply_shifts {s : Stimulus} (hf : Fits role m) (hr : m.running = none) (ha : s.Admissible held m) :
    Shifts m (m.apply s).1 := by
  refine apply_cases (P := Shifts m) hf hr ha
    (.keeps id (fun {l} h => (congrArg Listener.opened (listener_listen m l)).trans h) (.refl _)) (.keeps id id (.refl _))
    (fun hset => ?_) fun hears => ?_
  · refine .keeps (fun {u l} hu => ?_) (fun {l} => by rw [hset.state]; exact id) (by simp only [hset.state, List.Sublist.refl])
    exact (hset.extends_.view hf.tidy.sound hset.sound (fun _ => rfl) u).symm.trans hu
  · refine .keeps (fun {u l} hu => ?_) hears.opened hears.sublist
    exact (hears.effect.extends.view hf.tidy.sound hears.tidy.sound (fun _ => rfl) u).symm.trans hu

theorem IsNew.allotted (h : m.IsNew) : Allotted (m.view Thread.right) m.state := by
  have hnone : ∀ {t l}, m.view Thread.right t ≠ some l := fun {t l} hl => by
    rw [Machine.view, h.isEmpty.thread?] at hl
    cases hl
  obtain ⟨s, rfl⟩ := h
  exact ⟨fun ht => absurd ht hnone, fun ht => absurd ht hnone, fun hl => (by cases hl), .nil⟩

end Loop

end DiagnosticsClient
