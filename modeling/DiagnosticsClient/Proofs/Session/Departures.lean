import DiagnosticsClient.Proofs.Session.Children
import DiagnosticsClient.Proofs.Session.Consumers
import DiagnosticsClient.Proofs.Session.Reports
/-
How a listener that was opened has left.

A listener that was opened is registered, or a task is still about to register it;
or it was given its end, or closed, or could not be registered (`Fate`). Each of
the three ways out leaves a moment in the past that says so.
-/
namespace DiagnosticsClient

open Async Async.Machine

namespace Loop

variable {role role' : FutureId → Role} {m m' m₁ : Loop} {t u : TaskId} {l : ListenerId} {root called r : Routine} {F : Frame}
  {stack rest : List Frame} {o : Ending} {s : Loop × Move} {held : List ListenerId} {ms : List Message}
  {e : Option (Option ServerError)} {th : Thread Routine Frame Value Failure}

/-! ## Who is let go -/

/-- The running task lets go of a listener: it closes it, or could not start a transport for it. -/
def LetsGo (m : Loop) (l : ListenerId) : Prop :=
  (∃ t v stack, m.running = some (.resume t (.value v) (.leaving l :: stack))) ∨
    ∃ t o c stack, m.running = some (.resume t o (.starting l c :: stack)) ∧ ∀ v, o ≠ .value v

/-- The end that is heard is the one that listeners are given. -/
theorem Heard.farewell_eq (h : Heard ms e m m₁) (hr : ∀ t v stack, m.running ≠ some (.resume t (.value v) (.closing :: stack)))
    (hstate : m'.state = m₁.state) : farewell m m' = e := by
  obtain ⟨rs, hrs, he⟩ := h.reports
  rw [farewell_of_reports hr (hstate ▸ hrs), he]

theorem Heard.registered_or (h : Heard ms e m m₁) (hr : ∀ t v stack, m.running ≠ some (.resume t (.value v) (.closing :: stack)))
    (hstate : m'.state = m₁.state) : m'.state.registered = m.state.registered ∨ (farewell m m').isSome = true := by
  rw [h.farewell_eq hr hstate, hstate, h.registered]
  cases e with
  | none => exact .inl rfl
  | some e => exact .inr rfl

/-- Who gets the lock to register a listener registers it, and nobody leaves. -/
theorem registerLocked_registered (h : m.Tidy role) (l : ListenerId) (v : Value) :
    (registerLocked l (.value v) m).1.state.registered = m.state.registered ++ [l] := by
  have hreg := (Works.modifyDesk (K := fun _ => True) (S := fun _ => True) h (· ++ [l]) id).tidy
  have hadd := (Aside.addTransport (K := fun _ => True) (S := fun _ => True) hreg).core
  simp only [registerLocked]
  split
  · rw [releaseLock_state]
    rfl
  · exact congrArg Core.registered hadd

/-- Whoever is registered stays so when a frame goes on, unless he is given an end or let go. -/
theorem Resumes.stays (how : Resumes role m o F called) (hf : Fits role m) (hr : m.running = some (.resume t o (F :: stack)))
    (hs : F.Serves m.routine? called) (hl : l ∈ m.state.registered) (hstate : m'.state = (resume F o m).1.state) :
    l ∈ m'.state.registered ∨ (farewell m m').isSome = true ∨ m.LetsGo l := by
  have hsame : (resume F o m).1.state.registered = m.state.registered → l ∈ m'.state.registered ∨ (farewell m m').isSome = true ∨
      m.LetsGo l := fun h => .inl (by rw [hstate, h]; exact hl)
  have herase : ∀ l', (l' = l → m.LetsGo l) → (resume F o m).1.state.registered = m.state.registered.erase l' →
      l ∈ m'.state.registered ∨ (farewell m m').isSome = true ∨ m.LetsGo l := by
    intro l' hgo h
    by_cases heq : l' = l
    · exact .inr (.inr (hgo heq))
    · rw [hstate, h]
      exact .inl ((List.mem_erase_of_ne (Ne.symm heq)).mpr hl)
  cases how with
  | minor hdrive _ hheard =>
    have hclosing : ∀ t v stack, m.running ≠ some (.resume t (.value v) (.closing :: stack)) := fun _ _ _ h => by
      cases hr.symm.trans h
      cases hs
      cases hdrive
    refine (hheard.registered_or hclosing hstate).elim (fun h => hsame ?_) fun h => .inr (.inl h)
    rw [← hstate, h]
  | mild _ _ hmild => exact hsame hmild.registered
  | locking w _ =>
    refine hsame ?_
    simp only [resume, acquireResumed]
    split
    · rfl
    · dsimp only
      split
      · rfl
      · rw [wakeLock_state]
        rfl
  | registering l' _ =>
    cases o with
    | value v =>
      rw [hstate, show (resume (.registering l') (.value v) m).1.state.registered = m.state.registered ++ [l'] from
        registerLocked_registered hf.tidy l' v]
      exact .inl (List.mem_append_left _ hl)
    | _ => exact hsame rfl
  | starting l' c _ =>
    by_cases ho : ∃ v, o = .value v
    · obtain ⟨v, rfl⟩ := ho
      exact hsame (by simp only [resume, startResumed, releaseLock_state]; rfl)
    · have ho' : ∀ v, o ≠ .value v := fun v h => ho ⟨v, h⟩
      refine herase l' (fun heq => .inr ⟨t, o, c, stack, heq ▸ hr, ho'⟩) ?_
      cases o with
      | value v => exact absurd rfl (ho' v)
      | _ => simp only [resume, startResumed, releaseLock_state]; rfl
  | leaving l' _ =>
    cases o with
    | value v =>
      simp only [resume, leaveLocked] at hsame herase
      split at hsame
      · next hmem =>
        rw [if_pos hmem] at herase
        refine herase l' (fun heq => .inl ⟨t, v, stack, heq ▸ hr⟩) ?_
        split
        · rfl
        · rw [releaseLock_state]
          rfl
      · exact hsame (releaseLock_state m ▸ rfl)
    | _ => exact hsame rfl
  | closing =>
    cases o with
    | value v =>
      refine .inr (.inl ?_)
      unfold farewell
      rw [hr]
      rfl
    | _ => exact hsame rfl
  | releasing _ _ => exact hsame (by simp only [resume, stopResumed, releaseLock_state])
  | getting _ _ hcalm => exact hsame hcalm.registered

/-- Whoever is registered stays so, unless he is given an end or let go. -/
theorem Tick.stays (ht : Tick role m role' m') (hf : Fits role m) (hl : l ∈ m.state.registered) :
    l ∈ m'.state.registered ∨ (farewell m m').isSome = true ∨ m.LetsGo l := by
  have hsame : m'.state.registered = m.state.registered → l ∈ m'.state.registered ∨ (farewell m m').isSome = true ∨ m.LetsGo l :=
    fun h => .inl (h ▸ hl)
  cases ht with
  | awakes _ _ _ switch => exact hsame (by rw [switch.state])
  | passes _ _ hstate => exact hsame (by rw [hstate])
  | ends _ switch _ => exact hsame (by rw [switch.state])
  | begins runs valid stands how deed =>
    have hclosing : ∀ t v stack, m.running ≠ some (.resume t (.value v) (.closing :: stack)) := fun _ _ _ h => by
      cases runs.symm.trans h
    cases how with
    | minor _ _ hheard => exact (hheard.registered_or hclosing deed.state).elim hsame fun h => .inr (.inl h)
    | mild _ _ _ hmild => exact hsame (deed.state ▸ hmild.registered)
    | acquire =>
      refine hsame ?_
      rw [deed.state]
      simp only [begin, Loop.acquire]
      split <;> rfl
    | take l' =>
      refine hsame ?_
      rw [deed.state]
      simp only [begin, Loop.take]
      split <;> rfl
  | resumes runs serves gets woke how deed => exact how.stays hf runs serves hl deed.state

theorem apply_stays {i : Stimulus} (hf : Fits role m) (hr : m.running = none) (ha : i.Admissible held m)
    (hl : l ∈ m.state.registered) : l ∈ (m.apply i).1.state.registered ∨ (farewell m (m.apply i).1).isSome = true := by
  have hclosing : ∀ t v stack, m.running ≠ some (.resume t (.value v) (.closing :: stack)) := fun _ _ _ h => by
    rw [hr] at h
    cases h
  refine apply_cases (P := fun m' => l ∈ m'.state.registered ∨ (farewell m m').isSome = true) hf hr ha (.inl hl) (.inl hl)
    (fun hset => .inl (hset.state.symm ▸ hl)) fun hears => ?_
  exact (hears.registered_or hclosing rfl).imp_left fun h => by rw [h]; exact hl

/-! ## Who opens -/

/-- Who is marked as opened after a change beside the mark was so before. -/
theorem opened_of_change {n : Loop} {l' : ListenerId} {k : Listener → Listener}
    (h : ((n.modifyListener l' k).state.listener l).opened = true) (hn : n.state = m.state)
    (hk : ∀ x, (k x).opened = x.opened) : (m.state.listener l).opened = true :=
  hn ▸ (opened_modifyListener n.state l' l hk).symm.trans h

theorem wakeNext_state (m : Loop) (fs : List FutureId) : (m.wakeNext fs).1.state = m.state := by
  induction fs with
  | nil => rfl
  | cons f fs ih =>
    unfold wakeNext
    split
    · exact ih
    · exact settle_state

/-- A listener is marked as opened by who opens it. -/
theorem Begins.opens (how : Begins role m r called) (hr : r.StandsFor called)
    (ho : ((begin r m).1.state.listener l).opened = true) : (m.state.listener l).opened = true ∨ r = .openListener l := by
  by_cases ha : r.about = some l
  · cases r with
    | openListener l' =>
      cases ha
      exact .inr rfl
    | closeListener l' => exact .inl (opened_of_change (n := m) ho rfl fun _ => rfl)
    | next l' =>
      refine .inl ?_
      simp only [begin, next] at ho
      split at ho
      · exact ho
      · split at ho <;> exact ho
    | take l' =>
      refine .inl ?_
      simp only [begin, Loop.take] at ho
      split at ho
      · exact opened_of_change ho rfl fun _ => rfl
      · exact opened_of_change ho rfl fun _ => rfl
    | register l' => exact .inl ho
    | collect l' => exact .inl ho
    | _ => cases ha
  · obtain ⟨ds, hds⟩ := how.given hr ha
    exact .inl (hds.opened.symm.trans ho)

theorem Resumes.opens (how : Resumes role m o F called) (ht : m.Tidy role) (hs : F.Serves m.routine? called) (hw : F.Woke role m o)
    (ho : ((resume F o m).1.state.listener l).opened = true) : (m.state.listener l).opened = true := by
  by_cases ha : F.about = some l
  · cases F with
    | opening l' =>
      simp only [resume, openResumed] at ho
      split at ho
      · exact ho
      · exact opened_of_change ho rfl fun _ => rfl
    | registering l' => exact (registerLocked_still ht l' o).listener l ▸ ho
    | starting l' c => exact (startResumed_still m l' c o).listener l ▸ ho
    | leaving l' => exact (leaveLocked_still m l' o).listener l ▸ ho
    | receiving l' =>
      simp only [resume, nextResumed] at ho
      split at ho
      · exact ho
      · exact opened_of_change ho rfl fun _ => rfl
      · exact ho
    | getting l' g =>
      simp only [resume, takeResumed] at ho
      split at ho
      · exact ho
      · dsimp only at ho
        split at ho
        · unfold wakeGetter at ho
          exact opened_of_change (opened_of_change ho (wakeNext_state _ _) fun _ => rfl) settle_state fun _ => rfl
        · exact opened_of_change ho settle_state fun _ => rfl
    | collecting l' taken =>
      simp only [resume, collectResumed] at ho
      split at ho <;> exact ho
    | visiting l' count =>
      simp only [resume, visitOpened, visitOn] at ho
      split at ho
      · split at ho <;> exact ho
      · exact ho
    | visited l' count taken =>
      simp only [resume, visitResumed, visitOn] at ho
      split at ho
      · split at ho <;> exact ho
      · exact ho
    | introducing l' opening asking =>
      simp only [resume, exchangeOpened] at ho
      split at ho
      · have hsend := Aside.sendAll (K := fun _ => True) (S := fun _ => True) ht [opening, asking]
        split at ho <;> rename_i hm <;> rw [hm] at hsend <;> exact hsend.given.opened.symm.trans ho
      · exact ho
    | expecting l' asking =>
      simp only [resume, exchangeResumed] at ho
      split at ho
      · split at ho
        · exact (Aside.note (K := fun _ => True) (S := fun _ => True) ht .debug _).given.opened.symm.trans ho
        · exact ho
      all_goals exact ho
    | _ => cases ha
  · obtain ⟨ds, hds⟩ := how.given ht hs hw ha
    exact hds.opened.symm.trans ho

/-- A listener is marked as opened in the step of who opens it. -/
theorem Tick.opens (ht : Tick role m role' m') (hf : Fits role m) (ho : (m'.state.listener l).opened = true) :
    (m.state.listener l).opened = true ∨ ∃ u stack, m.running = some (.begin u (.openListener l) stack) := by
  cases ht with
  | awakes _ _ _ switch => exact .inl (switch.state ▸ ho)
  | passes _ _ hstate => exact .inl (hstate ▸ ho)
  | ends _ switch _ => exact .inl (switch.state ▸ ho)
  | begins runs valid stands how deed =>
    rw [deed.state] at ho
    rcases how.opens stands ho with h | rfl
    · exact .inl h
    · exact .inr ⟨_, _, runs⟩
  | resumes runs serves gets woke how deed =>
    rw [deed.state] at ho
    exact .inl (how.opens hf.tidy serves woke ho)

/-! ## Who seeks to be registered -/

end Loop

/-- A task opens a listener, and it has not been registered yet. -/
def Thread.Seeks (l : ListenerId) (th : Thread Routine Frame Value Failure) : Prop :=
  ∃ rest, .opening l :: rest <:+ th.stack ∧ ∀ v, th ≠ ⟨.resumes (.value v), .opening l :: rest⟩

namespace Loop

/-- Who is told that a listener is registered has just registered it, or started a transport for it. -/
theorem Deed.registered {v : Value} (hd : Deed role role m u root called stack (resume F o m)) (hf : Fits role m) (hc : m.Coherent)
    (hr : m.running = some (.resume u o (F :: stack))) (hs : F.Serves m.routine? called)
    (hnext : (resume F o m).1.nextThread stack (resume F o m).2 = ⟨.resumes (.value v), .opening l :: rest⟩) :
    l ∈ (resume F o m).1.state.registered := by
  have hmove := hd.does.move
  generalize ha : (resume F o m).2 = a at hnext hmove
  cases hmove with
  | call => cases hnext
  | become => cases hnext
  | await _ hawaits =>
    have hstack := congrArg Thread.stack hnext
    rw [stack_nextThread_await] at hstack
    cases hstack
    cases hawaits
  | done =>
    cases hnext
    obtain rfl : called = .register l := by
      cases hd.stacked with
      | cons hcalls => cases hcalls; rfl
    cases hs with
    | registering =>
      cases o with
      | value v' =>
        rw [show (resume (.registering l) (.value v') m).1.state.registered = m.state.registered ++ [l] from
          registerLocked_registered hf.tidy l v']
        exact List.mem_append_right _ (List.mem_singleton.mpr rfl)
      | _ => cases ha
    | starting _ c =>
      have hsuits : m.state.current = none ∧ m.state.registered = [l] :=
        Ordered.suits hc (view_station (thread?_of_running hr)) (a := .starting l)
      cases o with
      | value v' =>
        simp only [resume, startResumed, releaseLock_state]
        exact hsuits.2 ▸ List.mem_singleton.mpr rfl
      | _ => cases ha
    | finishing hx => cases hx
    | introducing hx => cases hx
    | expecting hx => cases hx

/-- Who begins something is not told at once that a listener is registered. -/
theorem Deed.not_told {v : Value} (hd : Deed role role' m u root called stack (begin r m)) (hr : r.StandsFor called) :
    (begin r m).1.nextThread stack (begin r m).2 ≠ ⟨.resumes (.value v), .opening l :: rest⟩ := by
  intro hnext
  have hmove := hd.does.move
  generalize ha : (begin r m).2 = a at hnext hmove
  cases hmove with
  | call => cases hnext
  | become => cases hnext
  | await _ hawaits =>
    have hstack := congrArg Thread.stack hnext
    rw [stack_nextThread_await] at hstack
    cases hstack
    cases hawaits
  | done =>
    cases hnext
    obtain rfl : called = .register l := by
      cases hd.stacked with
      | cons hcalls => cases hcalls; rfl
    cases hr
    cases ha

/-- Whoever seeks to be registered does so further, or fails, or is registered. -/
theorem Turn.seeks (ht : Turn role m u th role' m') (hf : Fits role m) (hc : m.Coherent) (hth : m.thread? u = some th)
    (hs : Thread.Seeks l th) : (∃ o rest, th = ⟨.resumes o, .opening l :: rest⟩ ∧ ∀ v, o ≠ .value v) ∨
      (∃ th', m'.thread? u = some th' ∧ Thread.Seeks l th') ∨ l ∈ m'.state.registered := by
  obtain ⟨rest, hsuffix, hno⟩ := hs
  rcases ht.beneath hsuffix with ⟨o, rfl⟩ | ⟨th', hth', hsuffix'⟩
  · exact .inl ⟨o, rest, rfl, fun v h => hno v (by rw [h])⟩
  · by_cases htold : ∃ v, th' = ⟨.resumes (.value v), .opening l :: rest⟩
    · obtain ⟨v, rfl⟩ := htold
      refine .inr (.inr ?_)
      cases ht with
      | rests _ _ hsame =>
        cases hsame.symm.trans hth'
        exact absurd rfl (hno v)
      | awakes how switch =>
        cases switch.self.symm.trans hth'
        obtain ⟨root, -, hfits⟩ := hf.threads hth
        cases how with
        | resumes =>
          cases hfits with
          | waits _ hawaits _ => cases hawaits
      | ends => cases hsuffix.subset List.mem_cons_self
      | begins runs valid stands how deed => exact absurd (Option.some.inj (deed.switch.self.symm.trans hth')) (deed.not_told stands)
      | resumes runs serves gets how deed =>
        rw [deed.state]
        exact deed.registered hf hc runs serves (Option.some.inj (deed.switch.self.symm.trans hth'))
    · exact .inr (.inl ⟨th', hth', rest, hsuffix', fun v h => htold ⟨v, h⟩⟩)

/-! ## Who waits -/

/-- A thread with a stack was there before. -/
theorem Tick.was {th' : Thread Routine Frame Value Failure} (ht : Tick role m role' m') (hf : Fits role m) (hf' : Fits role' m')
    (hth : m'.thread? u = some th') : th'.stack = [] ∨ ∃ th, m.thread? u = some th := by
  have hdeed : ∀ {t : TaskId} {root called : Routine} {stack : List Frame} {s : Loop × Move},
      Deed role role' m t root called stack s → m' = s.1.perform t stack s.2 → u ≠ t →
      th'.stack = [] ∨ ∃ th, m.thread? u = some th := by
    rintro t root called stack s hd rfl hu
    rcases hd.thread_other hf hu hth with hold | ⟨r, -, -, rfl⟩
    · exact .inr ⟨_, hold⟩
    · exact .inl rfl
  cases ht with
  | @awakes _ t _ _ idle hold how switch =>
    by_cases hu : u = t
    · exact .inr ⟨_, hu ▸ hold⟩
    · exact .inr ⟨_, (switch.other hu).symm.trans hth⟩
  | passes idle he hstate =>
    rcases he.thread?_cases hf.tidy.sound hf'.tidy.sound hth with hold | ⟨r, -, -, -, rfl⟩
    · exact .inr ⟨_, hold⟩
    · exact .inl rfl
  | @ends _ t _ runs switch outcome =>
    by_cases hu : u = t
    · cases (hu ▸ switch.self).symm.trans hth
    · exact .inr ⟨_, (switch.other hu).symm.trans hth⟩
  | @begins _ t r called root stack runs valid stands how deed =>
    by_cases hu : u = t
    · exact .inr ⟨_, hu ▸ thread?_of_running runs⟩
    · exact hdeed deed rfl hu
  | @resumes t o F called root stack runs serves gets woke how deed =>
    by_cases hu : u = t
    · exact .inr ⟨_, hu ▸ thread?_of_running runs⟩
    · exact hdeed deed rfl hu

/-- What is done next is in the midst of a call for the next message only if one was made for an opened listener. -/
theorem MoveFits.receiving {size : Nat} {a : Move} (h : MoveFits role m size called a)
    (hF : .receiving l ∈ (m.nextThread stack a).stack) : .receiving l ∈ stack ∨ called = .next l := by
  cases h with
  | done => exact .inl hF
  | call _ hs =>
    rcases List.mem_cons.mp hF with rfl | hF
    · cases hs
      exact .inr rfl
    · exact .inl hF
  | become => exact .inl hF
  | await _ hawaits =>
    rw [stack_nextThread_await] at hF
    rcases List.mem_cons.mp hF with rfl | hF
    · cases hawaits
    · exact .inl hF

/-- Whoever calls for the next message of a listener has opened it. -/
theorem Turn.receiving {th' : Thread Routine Frame Value Failure} (ht : Turn role m u th role' m') (hf' : Fits role' m')
    (hth : m'.thread? u = some th') (hF : .receiving l ∈ th'.stack) :
    .receiving l ∈ th.stack ∨ (m.state.listener l).opened = true := by
  cases ht with
  | rests _ _ hsame => exact .inl (by cases hsame.symm.trans hth; exact hF)
  | awakes how switch =>
    cases switch.self.symm.trans hth
    cases how with
    | begins => cases hF
    | dropped => cases hF
    | resumes => exact .inl hF
    | interrupted => exact .inl hF
  | ends outcome => cases (hf'.tidy.sound.taskOutcome?_of_thread? hth).symm.trans outcome
  | begins runs valid stands how deed =>
    cases deed.switch.self.symm.trans hth
    rcases deed.does.move.receiving hF with hold | rfl
    · exact .inl hold
    · cases stands
      -- the call goes on only for a listener that is opened
      cases hopened : (m.state.listener l).opened with
      | true => exact .inr rfl
      | false =>
        rw [show begin (.next l) m = (m, .done (.failed (.misuse .notOpen))) by simp [begin, next, hopened]] at hF
        exact .inl hF
  | resumes runs serves gets how deed =>
    cases deed.switch.self.symm.trans hth
    rcases deed.does.move.receiving hF with hold | rfl
    · exact .inl (List.mem_cons_of_mem _ hold)
    · cases serves with
      | receiving => exact .inl List.mem_cons_self
      | finishing hx => cases hx
      | introducing hx => cases hx
      | expecting hx => cases hx

end Loop

section runs

variable {role role' : FutureId → Role} {a b : Moment} {past : List Moment} {u : TaskId} {l : ListenerId} {g : FutureId}
  {th th' : Thread Routine Frame Value Failure}

theorem Goes.was (hg : Goes role a role' b) (ha : a.Holds role) (hb : b.Holds role') (hth : b.loop.thread? u = some th') :
    th'.stack = [] ∨ ∃ th, a.loop.thread? u = some th := by
  cases hg with
  | tick hq ht => exact ht.was ha.fits hb.fits hth
  | stimulus hr hs =>
    have hw := Loop.apply_arrives ha.fits hr hs
    rcases hw.extends_.thread?_cases ha.fits.tidy.sound hb.fits.tidy.sound hth with hold | ⟨r, -, -, -, rfl⟩
    · exact .inr ⟨_, hold⟩
    · exact .inl rfl

/-- A listener that was opened stays so. -/
theorem Goes.opened (hg : Goes role a role' b) (ha : a.Holds role) (hb : b.Holds role')
    (ho : (a.loop.state.listener l).opened = true) : (b.loop.state.listener l).opened = true := by
  cases hg.shifts ha hb with
  | keeps _ hopened _ => exact hopened ho
  | allots _ _ _ _ hopened _ => exact hopened ho
  | enters _ _ _ hopened _ => exact hopened ho

/-- Whoever is in the midst of a call for the next message of a listener has opened it. -/
theorem IsRun.opened_of_receiving (h : IsRun (a :: past)) (hth : a.loop.thread? u = some th) (hF : .receiving l ∈ th.stack) :
    (a.loop.state.listener l).opened = true := by
  refine (h.induction (P := fun a _ => ∀ u th, a.loop.thread? u = some th → .receiving l ∈ th.stack →
    (a.loop.state.listener l).opened = true) (fun hm u th hth => ?_) fun ha hb hg ih u th' hth' hF' => ?_).2 u th hth hF
  · rw [hm.isEmpty.thread?] at hth
    cases hth
  · rcases hg.was ha hb hth' with hnil | ⟨th, hth⟩
    · rw [hnil] at hF'
      cases hF'
    · rcases (hg.turn ha hb hth).receiving hb.fits hth' hF' with hold | ho
      · exact hg.opened ha hb (ih u th hth hold)
      · exact hg.opened ha hb ho

/-! ## What became of a listener -/

/-- The running task learns that a listener it opened could not be registered. -/
def Moment.FailsToOpen (a : Moment) (l : ListenerId) : Prop :=
  ∃ u o stack, a.loop.running = some (.resume u o (.opening l :: stack)) ∧ ∀ v, o ≠ .value v

/-- What has become of a listener that was opened. -/
inductive Fate (l : ListenerId) (a : Moment) (past : List Moment) : Prop
  | stays (h : l ∈ a.loop.state.registered)
  | sought {u : TaskId} {th : Thread Routine Frame Value Failure} (hth : a.loop.thread? u = some th) (h : Thread.Seeks l th)
  | ended (h : ends l (a :: past) ≠ [])
  | left {b : Moment} (hb : b ∈ past) (h : b.Leaves l)
  | failed {b : Moment} (hb : b ∈ past) (h : b.FailsToOpen l)

/-- Whoever is registered stays so, is given an end, or leaves; or the start of a transport for him failed. -/
theorem Goes.stays (hg : Goes role a role' b) (ha : a.Holds role) (hl : l ∈ a.loop.state.registered) :
    l ∈ b.loop.state.registered ∨ (Loop.farewell a.loop b.loop).isSome = true ∨ a.Leaves l ∨
      ∃ t o c stack, a.loop.running = some (.resume t o (.starting l c :: stack)) ∧ ∀ v, o ≠ .value v := by
  cases hg with
  | tick hq ht =>
    rcases ht.stays ha.fits hl with h | h | h | h
    · exact .inl h
    · exact .inr (.inl h)
    · exact .inr (.inr (.inl ⟨hl, h⟩))
    · exact .inr (.inr (.inr h))
  | stimulus hr hs =>
    exact (Loop.apply_stays ha.fits hr hs hl).imp_right .inl

/-- **What becomes of a listener is seen in every step.** -/
theorem Fate.step (h : Fate l a past) (hrun : IsRun (a :: past)) (ha : a.Holds role) (hb : b.Holds role') (hg : Goes role a role' b) :
    Fate l b (a :: past) := by
  have hseeks : ∀ {u th}, a.loop.thread? u = some th → Thread.Seeks l th → Fate l b (a :: past) := by
    intro u th hth hs
    rcases (hg.turn ha hb hth).seeks ha.fits ha.coherent hth hs with ⟨o, rest, rfl, ho⟩ | ⟨th', hth', hs'⟩ | hmem
    · obtain ⟨x, hx, htask, hthread⟩ := running_of_thread? hth rfl
      cases x with
      | begin t r stack => cases hthread
      | resume t o' stack =>
        cases htask
        cases hthread
        exact .failed List.mem_cons_self ⟨_, _, _, hx, ho⟩
    · exact .sought hth' hs'
    · exact .stays hmem
  cases h with
  | stays hl =>
    rcases hg.stays ha hl with hmem | hend | hleaves | ⟨t, o, c, stack, hr, ho⟩
    · exact .stays hmem
    · refine .ended ?_
      rw [(hrun.accounted l).ends_cons_of_registered hl]
      cases hfarewell : Loop.farewell a.loop b.loop with
      | none => rw [hfarewell] at hend; cases hend
      | some e => exact fun h => by cases h
    · exact .left List.mem_cons_self hleaves
    · -- the task that failed to start a transport is one that opens the listener
      have hth := thread?_of_running hr
      obtain ⟨root, hroot, hfits⟩ := ha.fits.threads hth
      cases hfits with
      | resumes hs _ _ hstack =>
        cases hs with
        | starting =>
          cases hstack with
          | nil => cases ha.fits.roots hroot
          | cons hcalls =>
            cases hcalls
            exact hseeks hth ⟨_, List.suffix_cons _ _, fun v heq => by cases heq⟩
  | sought hth hs => exact hseeks hth hs
  | ended hne =>
    refine .ended fun hnil => hne ?_
    rw [ends] at hnil
    exact (List.append_eq_nil_iff.mp hnil).1
  | left hb' hleaves => exact .left (List.mem_cons_of_mem _ hb') hleaves
  | failed hb' hfails => exact .failed (List.mem_cons_of_mem _ hb') hfails

/-- Who opens a listener seeks to be registered. -/
theorem Goes.sought (hg : Goes role a role' b) (ha : a.Holds role) (hb : b.Holds role')
    (hn : (a.loop.state.listener l).opened = false) (ho : (b.loop.state.listener l).opened = true) :
    ∃ u th, b.loop.thread? u = some th ∧ Thread.Seeks l th := by
  cases hg with
  | tick hq ht =>
    rcases ht.opens ha.fits ho with hold | ⟨u, stack, hr⟩
    · rw [hn] at hold
      cases hold
    · obtain ⟨-, -, called, root, stands, -, deed, hstep⟩ := (ht.turn ha.fits hb.fits (thread?_of_running hr)).of_begins
      have hbegin : (Loop.begin (.openListener l) a.loop).2 = .call (.register l) (.opening l) := by
        simp [Loop.begin, Loop.openListener, hn]
      refine ⟨u, ⟨.begins (.register l), .opening l :: stack⟩, ?_, stack, List.suffix_refl _, fun v heq => by cases heq⟩
      dsimp only
      rw [hstep]
      refine deed.switch.self.trans ?_
      rw [hbegin]
      rfl
  | stimulus hr hs =>
    obtain ⟨ds, hgiven⟩ := Loop.apply_given (l := l) ha.fits hr hs
    cases hn.symm.trans (hgiven.opened.symm.trans ho)

/-- **What has become of a listener that was opened.** -/
theorem IsRun.fate (h : IsRun (a :: past)) (ho : (a.loop.state.listener l).opened = true) : Fate l a past := by
  have hall := h.induction (P := fun a past => IsRun (a :: past) ∧ ((a.loop.state.listener l).opened = true → Fate l a past))
    (fun {m} hm => ⟨.new hm, fun ho => ?_⟩) fun {role role' a b past} ha hb hg ih => ⟨.step ih.1 hg.step, fun ho => ?_⟩
  · exact hall.2.2 ho
  · obtain ⟨s, rfl⟩ := hm
    cases ho
  · cases hopened : (a.loop.state.listener l).opened with
    | true => exact (ih.2 hopened).step ih.1 ha hb hg
    | false =>
      obtain ⟨u, th, hth, hs⟩ := hg.sought ha hb hopened ho
      exact .sought hth hs

/-- **Who is left waiting.** A task that waits for the next item of a listener when nothing can go on by itself waits for
an empty queue. Its listener is registered, or a task is still opening it; or it is gone: it was closed, or it could not be
registered, or it was given its end and another call for its next message has taken that. -/
theorem left_waiting (h : IsRun (a :: past)) (hq : a.loop.isQuiet = true) (hw : a.loop.WaitsAt l g u) :
    (a.loop.state.listener l).queue = [] ∧
    (l ∈ a.loop.state.registered ∨
      (∃ t th, a.loop.thread? t = some th ∧ .opening l ∈ th.stack) ∨
      (∃ b ∈ past, b.Leaves l) ∨
      (∃ b ∈ past, b.FailsToOpen l) ∨
      ∃ e, taken l (a :: past) = (meant l (a :: past)).map .message ++ [.ended e]) := by
  have hempty := h.waits_for_nothing hq hw
  refine ⟨hempty, ?_⟩
  obtain ⟨role, hholds⟩ := h.holds
  obtain ⟨rest, hth⟩ := hw
  have hreceiving : .receiving l ∈ (.getting l g :: rest : List Frame) := by
    obtain ⟨root, hroot, hfits⟩ := hholds.fits.threads hth
    cases hfits with
    | waits hs _ hstack =>
      cases hs with
      | getting =>
        cases hstack with
        | nil => cases hholds.fits.roots hroot
        | cons hcalls =>
          cases hcalls
          exact List.mem_cons_of_mem _ List.mem_cons_self
  cases h.fate (h.opened_of_receiving hth hreceiving) with
  | stays hl => exact .inl hl
  | sought hth' hs =>
    obtain ⟨rest', hsuffix, -⟩ := hs
    exact .inr (.inl ⟨_, _, hth', hsuffix.subset List.mem_cons_self⟩)
  | left hb hleaves => exact .inr (.inr (.inl ⟨_, hb, hleaves⟩))
  | failed hb hfails => exact .inr (.inr (.inr (.inl ⟨_, hb, hfails⟩)))
  | ended hne =>
    have hc := h.accounted l
    have hall := hc.taken.trans hc.delivered
    rw [hempty, List.append_nil] at hall
    obtain ⟨e, hends⟩ := List.length_eq_one_iff.mp (Nat.le_antisymm hc.once (List.length_pos_iff.mpr hne))
    exact .inr (.inr (.inr (.inr ⟨e, by rw [hall, hends]; rfl⟩)))

end runs

/-- A session with one listener, when a task waits for its next message. -/
def consumedSession : Moment × List Moment := Moment.pursue 40 (.ask (.next 0)) (rehearsedSession {})

theorem isRun_consumedSession : IsRun (consumedSession.1 :: consumedSession.2) :=
  (isRun_rehearsedSession {}).pursue (s := .ask (.next 0)) (by decide +kernel)
    ⟨rfl, fun l hl => by cases hl; exact List.mem_singleton.mpr rfl⟩ 40

/-- Whoever waits for the next message of an open listener waits for an empty queue. -/
theorem left_waiting_while_open : ∃ a past g, IsRun (a :: past) ∧ a.loop.isQuiet = true ∧ a.loop.WaitsAt 0 g 1 ∧
    (a.loop.state.listener 0).queue = [] ∧ 0 ∈ a.loop.state.registered := by
  have hq : consumedSession.1.loop.isQuiet = true := by decide +kernel
  have hw : consumedSession.1.loop.WaitsAt 0 2 1 := ⟨[.receiving 0], by rfl⟩
  exact ⟨_, _, 2, isRun_consumedSession, hq, hw, (left_waiting isRun_consumedSession hq hw).1, by decide +kernel⟩

/-- The same session when the listener has been closed. -/
def desertedSession : Moment × List Moment := Moment.pursue 40 (.ask (.closeListener 0)) consumedSession

/-- **Nobody tells who waits that a listener was closed**: it was opened and closed by tasks that have ended, nothing can
go on by itself, and the task that waits for its next message still does. -/
theorem left_waiting_when_closed : ∃ a past g, IsRun (a :: past) ∧ a.loop.isQuiet = true ∧ a.loop.WaitsAt 0 g 1 ∧
    a.loop.tasks.toList.map (·.routine) = [.openListener 0, .next 0, .closeListener 0] ∧
    a.loop.hasEnded 0 = true ∧ a.loop.hasEnded 2 = true ∧
    (a.loop.state.listener 0).ended = true ∧ a.loop.state.registered = [] := by
  have hrun : IsRun (desertedSession.1 :: desertedSession.2) :=
    isRun_consumedSession.pursue (s := .ask (.closeListener 0)) (by decide +kernel)
      ⟨rfl, fun l hl => by cases hl; exact List.mem_singleton.mpr rfl⟩ 40
  refine ⟨_, _, 2, hrun, ?_, ⟨[.receiving 0], by rfl⟩, by rfl, ?_⟩
  all_goals decide +kernel

/-- When two tasks wait for the next message and the transport reports its end, one of them is told. -/
example :
    let endedSession := Moment.pursue 40 (.report 0 none) (Moment.pursue 40 (.ask (.next 0)) consumedSession)
    endedSession.1.loop.isQuiet = true ∧ endedSession.1.loop.hasEnded 1 = true ∧ endedSession.1.loop.hasEnded 2 = false := by
  decide +kernel

end DiagnosticsClient
