import DiagnosticsClient.Proofs.Session.Turns
/-
What most steps of a listening routine leave alone.

The lock, the registered listeners and the current transport are changed by six
frames only, and queues only by what takes from them. All other steps of those
who listen and ask are `Mild`.
-/
namespace DiagnosticsClient

open Async Async.Machine

/-- A frame that goes on without a change of the lock, of who is registered, or of a queue. -/
def Frame.isMild : Frame → Bool
  | .opening _ => true
  | .receiving _ => true
  | .collecting .. => true
  | .visiting .. => true
  | .visited .. => true
  | .finishing _ => true
  | .requesting .. => true
  | .introducing .. => true
  | .expecting .. => true
  | .answered .. => true
  | .readSource .. => true
  | .gathered _ => true
  | _ => false

theorem Frame.Serves.ne_acquireLock {roots : TaskId → Option Routine} {r : Routine} {F : Frame} (h : F.Serves roots r)
    (hF : F.isMild = true) : r ≠ .acquireLock := by
  rintro rfl
  cases h with
  | locking => cases hF
  | finishing hx => cases hx
  | introducing hx => cases hx
  | expecting hx => cases hx

namespace Loop

variable {role role' : FutureId → Role} {K : TaskId → Prop} {S : Routine → Prop} {m m' m'' : Loop} {t u : TaskId}
  {l : ListenerId} {root called r : Routine} {F : Frame} {stack : List Frame} {o : Ending}

/-- Nobody takes the lock, comes, goes or takes anything, and nothing is heard. -/
structure Calm (role : FutureId → Role) (m m' : Loop) : Prop where
  lock : m'.state.lock = m.state.lock
  registered : m'.state.registered = m.state.registered
  current : m'.state.current = m.state.current
  received : m'.state.received = m.state.received
  reports : m'.state.reports = m.state.reports
  delivered : ∀ l, m'.state.delivered l = m.state.delivered l
  length : m.state.listeners.length ≤ m'.state.listeners.length
  nextSeq : m.state.nextSeq ≤ m'.state.nextSeq
  queue : ∀ l, (m'.state.listener l).queue = (m.state.listener l).queue
  opened : ∀ l, (m.state.listener l).opened = true → (m'.state.listener l).opened = true
  locks : ∀ {f : FutureId} {o : Ending}, role f = .lock → m'.outcome? f = some o → o ≠ .cancelled → m.outcome? f = some o

/-- And nobody waits for a listener who did not, or the other way round. -/
structure Mild (role : FutureId → Role) (m m' : Loop) : Prop extends Calm role m m' where
  getters : ∀ l, (m'.state.listener l).getters = (m.state.listener l).getters

/-- Effects that wake nobody who waits for the lock. -/
theorem value_of_effect (h : m.Tidy role) {D : ChildId → Prop} (he : Effect (licence role D K S) m m')
    {f : FutureId} (hf : role f = .lock) (ho : m'.outcome? f = some o) (hne : o ≠ .cancelled) : m.outcome? f = some o := by
  have hplain := h.special (f := f) (by rw [hf]; decide)
  rcases he.extends.settled ho with ho | ⟨-, hset⟩
  · exact ho
  · rcases hset hplain.lt_size with hother | ⟨hgetter | ⟨c, hexit, -⟩, -⟩ | ⟨hcancel, -⟩
    · cases hf.symm.trans hother
    · cases hf.symm.trans hgetter
    · cases hf.symm.trans hexit
    · exact absurd hcancel hne

theorem Aside.mild (h : m.Tidy role) (ha : Aside role K S m m') : Mild role m m' where
  lock := congrArg Core.lock ha.core
  registered := congrArg Core.registered ha.core
  current := congrArg Core.current ha.core
  received := by simp only [State.received, State.log_eq_of_core ha.core]
  reports := by simp only [State.reports, State.log_eq_of_core ha.core]
  delivered l := by simp only [State.delivered, State.log_eq_of_core ha.core]
  length := Nat.le_of_eq (congrArg (·.listeners.length) ha.core).symm
  nextSeq := Nat.le_of_eq (congrArg Core.nextSeq ha.core).symm
  queue l := by simp only [State.listener, show m'.state.listeners = m.state.listeners from congrArg Core.listeners ha.core]
  getters l := by
    simp only [State.listener, show m'.state.listeners = m.state.listeners from congrArg Core.listeners ha.core]
  opened l := by
    simp only [State.listener, show m'.state.listeners = m.state.listeners from congrArg Core.listeners ha.core]
    exact id
  locks hf ho hne := value_of_effect h ha.effect hf ho hne

theorem Calm.refl (m : Loop) : Calm role m m :=
  ⟨rfl, rfl, rfl, rfl, rfl, fun _ => rfl, Nat.le_refl _, Nat.le_refl _, fun _ => rfl, fun _ => id, fun _ ho _ => ho⟩

theorem Calm.trans (h : Calm role m m') (h' : Calm role m' m'') : Calm role m m'' where
  lock := h'.lock.trans h.lock
  registered := h'.registered.trans h.registered
  current := h'.current.trans h.current
  received := h'.received.trans h.received
  reports := h'.reports.trans h.reports
  delivered l := (h'.delivered l).trans (h.delivered l)
  length := Nat.le_trans h.length h'.length
  nextSeq := Nat.le_trans h.nextSeq h'.nextSeq
  queue l := (h'.queue l).trans (h.queue l)
  opened l ho := h'.opened l (h.opened l ho)
  locks hf ho hne := h.locks hf (h'.locks hf ho hne) hne

theorem Mild.refl (m : Loop) : Mild role m m := ⟨.refl m, fun _ => rfl⟩

/-- A listener is changed beside its queue. -/
theorem Calm.mark (m : Loop) (l : ListenerId) {k : Listener → Listener}
    (hk : ∀ x, (k x).queue = x.queue ∧ (x.opened = true → (k x).opened = true)) : Calm role m (m.modifyListener l k) := by
  have hsame : ∀ l', (m.modifyListener l k).state.listener l' =
      if l' = l ∧ l < m.state.listeners.length then k (m.state.listener l) else m.state.listener l' :=
    fun l' => listener_modifyListener m.state l l' k
  refine ⟨rfl, rfl, rfl, rfl, rfl, fun _ => rfl, Nat.le_of_eq (List.length_modify _ _ _).symm, Nat.le_refl _, fun l' => ?_,
    fun l' => ?_, fun _ ho _ => ho⟩
  all_goals rw [hsame]; split
  · next h => rw [(hk _).1, h.1]
  · rfl
  · next h => rw [h.1]; exact (hk _).2
  · exact id

/-- Listeners are marked. -/
theorem Mild.mark (m : Loop) (l : ListenerId) (k : Listener → Listener)
    (hk : ∀ x, (k x).queue = x.queue ∧ (k x).getters = x.getters ∧ (x.opened = true → (k x).opened = true)) :
    Mild role m (m.modifyListener l k) := by
  refine ⟨.mark m l fun x => ⟨(hk x).1, (hk x).2.2⟩, fun l' => ?_⟩
  rw [show (m.modifyListener l k).state.listener l' = _ from listener_modifyListener m.state l l' k]
  split
  · next h => rw [(hk _).2.1, h.1]
  · rfl

theorem listener_listen (m : Loop) (l : ListenerId) : m.listen.1.state.listener l = m.state.listener l := by
  change ((m.state.listeners ++ [({} : Listener)])[l]?).getD {} = _
  unfold State.listener
  rcases Nat.lt_trichotomy l m.state.listeners.length with h | h | h
  · rw [List.getElem?_append_left h]
  · subst h
    simp
  · rw [List.getElem?_eq_none (by simp; exact h), List.getElem?_eq_none (Nat.le_of_lt h)]

theorem wakeGetter_calm (h : m.Tidy role) (l : ListenerId) : Calm role m (m.wakeGetter l) := by
  obtain ⟨heff, hstate, -⟩ := wakeNext_effect (D := m.state.IsDead) (K := fun _ => True) (S := fun _ => True)
    fun f (hf : f ∈ (m.state.listener l).getters) => h.getter hf
  exact ((Aside.of_effect h heff hstate).mild h).toCalm.trans (.mark _ l fun x => ⟨rfl, id⟩)

/-- A new listener is made. -/
theorem Mild.listen (m : Loop) : Mild role m m.listen.1 :=
  ⟨⟨rfl, rfl, rfl, rfl, rfl, fun _ => rfl, by simp [Loop.listen, Loop.modify], Nat.le_refl _, fun l => by rw [listener_listen],
    fun l => by rw [listener_listen]; exact id, fun _ ho _ => ho⟩, fun l => by rw [listener_listen]⟩

/-- Nothing happens to what is shared. -/
theorem Mild.of_state (hs : m'.state = m.state)
    (hl : ∀ {f : FutureId} {o : Ending}, role f = .lock → m'.outcome? f = some o → o ≠ .cancelled → m.outcome? f = some o) :
    Mild role m m' :=
  ⟨⟨by rw [hs], by rw [hs], by rw [hs], by rw [hs], by rw [hs], fun l => by rw [hs], Nat.le_of_eq (by rw [hs]),
    Nat.le_of_eq (by rw [hs]), fun l => by rw [hs], fun l ho => hs.symm ▸ ho, hl⟩, fun l => by rw [hs]⟩

/-- A group of tasks is made. -/
theorem checkFiles_mild (h : m.Tidy role) (files : List Text) (context : Context) (limit : Option Seconds) :
    Mild role m (checkFiles files context limit m).1 := by
  refine .of_state (spawnGroup_state m _) fun {f o} hf ho _ => ?_
  have hplain := h.special (f := f) (by rw [hf]; decide)
  rcases (checkFiles_effect h files context limit).extends.settled ho with ho | ⟨-, hset⟩
  · exact ho
  · rcases hset hplain.lt_size with hother | ⟨hwake, -⟩ | ⟨-, _, hcancel, -⟩
    · cases hf.symm.trans hother
    · exact hwake.elim
    · exact hcancel.elim

/-- The routines that begin without a change of the lock or of a queue. -/
theorem begin_mild (h : m.Tidy role) (hr : r.StandsFor called) (hd : called.isDriving = false)
    (ha : r ≠ .acquireLock) (ht : ∀ l, r ≠ .take l) : Mild role m (begin r m).1 := by
  cases r with
  | acquireLock => exact absurd rfl ha
  | openListener l =>
    simp only [begin, openListener]
    split
    · exact .refl m
    · exact .mark m l _ fun x => ⟨rfl, rfl, fun _ => rfl⟩
  | register l => exact .refl m
  | closeListener l => exact .mark m l _ fun x => ⟨rfl, rfl, id⟩
  | closeSession => exact .refl m
  | next l =>
    simp only [begin, next]
    split
    · exact .refl m
    · split <;> exact .refl m
  | take l => exact absurd rfl (ht l)
  | collect l => exact .refl m
  | visit count => exact .listen m
  | request file limit =>
    cases limit <;>
      exact ⟨⟨rfl, rfl, rfl, rfl, rfl, fun _ => rfl, Nat.le_refl _, Nat.le_add_right m.state.nextSeq 2, fun _ => rfl, fun _ => id,
        fun _ ho _ => ho⟩, fun _ => rfl⟩
  | exchange opening asking => exact .listen m
  | checkFile => exact .refl m
  | checkFiles files context limit => exact checkFiles_mild h files context limit
  | _ => cases hr <;> cases hd

/-- The frames that go on without a change of the lock or of a queue. -/
theorem resume_mild (h : m.Tidy role) (hs : F.Serves m.routine? called) (hF : F.isMild = true) : Mild role m (resume F o m).1 := by
  cases hs with
  | opening l =>
    simp only [resume, openResumed]
    split
    · exact .refl m
    · exact .mark m l _ fun x => ⟨rfl, rfl, id⟩
  | receiving l =>
    simp only [resume, nextResumed]
    split
    · exact .refl m
    · exact .mark m l _ fun x => ⟨rfl, rfl, id⟩
    · exact .refl m
  | collecting l taken =>
    simp only [resume, collectResumed]
    split <;> exact .refl m
  | visiting l count total =>
    simp only [resume, visitOpened, visitOn]
    split
    · split <;> exact .refl m
    · exact .refl m
  | visited l count total taken =>
    simp only [resume, visitResumed, visitOn]
    split
    · split <;> exact .refl m
    · exact .refl m
  | finishingVisit e total =>
    simp only [resume, cleanedUp]
    split <;> exact .refl m
  | finishing hx =>
    simp only [resume, cleanedUp]
    split <;> exact .refl m
  | requesting file seq limit =>
    simp only [resume, requestResumed]
    split <;> exact .refl m
  | introducing hx =>
    rename_i l opening asking
    simp only [resume, exchangeOpened]
    split
    · have hsend := Aside.sendAll (K := fun _ => True) (S := fun _ => True) h [opening, asking]
      split <;> rename_i hm <;> rw [hm] at hsend <;> exact hsend.mild h
    · exact .refl m
  | expecting hx =>
    simp only [resume, exchangeResumed]
    split
    · split
      · exact (Aside.note (K := fun _ => True) (S := fun _ => True) h .debug _).mild h
      · exact .refl m
    · exact .refl m
    · exact .refl m
    · exact .refl m
  | answered file context limit =>
    simp only [resume, answerResumed]
    split
    · split
      · exact .refl m
      · next diagnostics _ =>
        have hnote := Aside.note (K := fun _ => True) (S := fun _ => True) h .debug
          (file ++ lit ": " ++ Text.ofNat diagnostics.length ++ lit " diagnostic(s)")
        exact (hnote.trans (Aside.deliver hnote.tidy _).1).mild h
    · exact .refl m
  | readSource file context limit diagnostics =>
    simp only [resume, sourceResumed]
    split <;> exact .refl m
  | gathered members files context limit => exact .refl m
  | finishingCheck e files context limit =>
    simp only [resume, cleanedUp]
    split <;> exact .refl m
  | _ => cases hF

/-- One who waited for a listener looks again, or leaves and wakes another one if he should. -/
theorem takeResumed_calm (h : m.Tidy role) {g : FutureId} (hg : m.isSettled g = true) (o : Ending) :
    Calm role m (takeResumed l g o m).1 := by
  have hleave : Calm role m (m.modifyListener l fun x => { x with getters := x.getters.erase g }) :=
    .mark m l fun x => ⟨rfl, id⟩
  have htidy := (Works.modifyListener (K := fun _ => True) (S := fun _ => True) h l
    (k := fun x => { x with getters := x.getters.erase g }) fun _ f hf => List.mem_of_mem_erase hf).tidy
  unfold takeResumed
  split
  · exact .refl m
  · rw [settle_of_isSettled hg]
    dsimp only
    split
    · exact hleave.trans (wakeGetter_calm htidy l)
    · exact hleave

/-! ## Frames that have to do with the lock -/

/-- Nothing happens to any listener, and nothing is heard. -/
structure Still (s s' : State) : Prop where
  listeners : s'.listeners = s.listeners
  log : s'.log = s.log
  nextSeq : s'.nextSeq = s.nextSeq

@[simp] theorem wakeLock_state (m : Loop) : m.wakeLock.state = m.state := by
  unfold wakeLock
  split
  · rfl
  · exact settle_state

@[simp] theorem releaseLock_state (m : Loop) :
    m.releaseLock.state = { m.state with lock := { m.state.lock with held := false } } := wakeLock_state _

theorem Still.releaseLock {s : State} (h : Still s m.state) : Still s m.releaseLock.state := by
  rw [releaseLock_state]
  exact ⟨h.listeners, h.log, h.nextSeq⟩

theorem acquireResumed_still (m : Loop) (w : FutureId) (o : Ending) : Still m.state (acquireResumed w o m).1.state := by
  unfold acquireResumed
  split
  · exact ⟨rfl, rfl, rfl⟩
  · dsimp only
    split
    · exact ⟨rfl, rfl, rfl⟩
    · rw [wakeLock_state]
      exact ⟨rfl, rfl, rfl⟩

theorem registerLocked_still (h : m.Tidy role) (l : ListenerId) (o : Ending) :
    Still m.state (registerLocked l o m).1.state := by
  have hreg := (Works.modifyDesk (K := fun _ => True) (S := fun _ => True) h (· ++ [l]) id).tidy
  have hadd := (Aside.addTransport (K := fun _ => True) (S := fun _ => True) hreg).core
  unfold registerLocked
  split
  · dsimp only
    split
    · exact Still.releaseLock ⟨rfl, rfl, rfl⟩
    · exact ⟨congrArg Core.listeners hadd, congrArg Core.log hadd, congrArg Core.nextSeq hadd⟩
  · exact ⟨rfl, rfl, rfl⟩

theorem startResumed_still (m : Loop) (l : ListenerId) (t : TransportId) (o : Ending) :
    Still m.state (startResumed l t o m).1.state := by
  unfold startResumed
  split <;> exact Still.releaseLock ⟨rfl, rfl, rfl⟩

theorem leaveLocked_still (m : Loop) (l : ListenerId) (o : Ending) : Still m.state (leaveLocked l o m).1.state := by
  unfold leaveLocked
  split
  · split
    · dsimp only
      split
      · refine ⟨rfl, (State.log_record _ _).trans ?_, rfl⟩
        exact List.append_nil _
      · exact Still.releaseLock ⟨rfl, rfl, rfl⟩
    · exact Still.releaseLock ⟨rfl, rfl, rfl⟩
  · exact ⟨rfl, rfl, rfl⟩

/-! ## All that the running task may do -/

/-- How a routine begins that stands for the one called. -/
inductive Begins (role : FutureId → Role) (m : Loop) : Routine → Routine → Prop
  | minor {r called : Routine} {D : ChildId → Prop} {ms : List Message} {e : Option (Option ServerError)}
      (hd : called.isDriving = true) (he : Effect (licence role D m.Cancellable called.Spawns) m (begin r m).1)
      (h : Heard ms e m (begin r m).1) : Begins role m r called
  | mild {r called : Routine} (hd : called.isDriving = false) (ha : r ≠ .acquireLock) (ht : ∀ l, r ≠ .take l)
      (h : Mild role m (begin r m).1) : Begins role m r called
  | acquire : Begins role m .acquireLock .acquireLock
  | take (l : ListenerId) : Begins role m (.take l) (.take l)

theorem begins (hf : Fits role m) (hx : m.Executes called) (hv : r.Valid m.routine?) (hr : r.StandsFor called) :
    Begins role m r called := by
  cases hd : called.isDriving with
  | true =>
    by_cases hw : ∃ c, called = .awaitExit c
    · obtain ⟨c, rfl⟩ := hw
      cases hr
      exact .minor (D := m.state.IsDead) hd (awaitExit_effect m c) (awaitExit_heard m c)
    · by_cases hl : ∃ limit inner, called = .within limit inner
      · obtain ⟨limit, inner, rfl⟩ := hl
        cases hr
        have haside := within_aside (K := m.Cancellable) hf.tidy hv limit
        exact .minor hd haside.effect haside.hears.toHeard
      · by_cases hc : ∃ u, called = .cancelAndWait u
        · obtain ⟨u, rfl⟩ := hc
          cases hr
          have haside := (cancelAndWait_aside (S := (Routine.cancelAndWait u).Spawns) hf hx hv).1
          exact .minor hd haside.effect haside.hears.toHeard
        · have hminor := begin_minor hf hx hv hr hd (fun c h => hw ⟨c, h⟩) (fun limit inner h => hl ⟨limit, inner, h⟩)
            fun u h => hc ⟨u, h⟩
          obtain ⟨ms, e, hears⟩ := hminor.hears hf.receiver
          exact .minor hd (hears.effect.mono ⟨id, id, id, .inl, id⟩) hears.toHeard
  | false =>
    by_cases ha : r = .acquireLock
    · subst ha
      cases hr
      exact .acquire
    · by_cases ht : ∃ l, r = .take l
      · obtain ⟨l, rfl⟩ := ht
        cases hr
        exact .take l
      · have ht' : ∀ l, r ≠ .take l := fun l h => ht ⟨l, h⟩
        exact .mild hd ha ht' (begin_mild hf.tidy hr hd ha ht')

/-- How a frame goes on that serves the routine called. -/
inductive Resumes (role : FutureId → Role) (m : Loop) (o : Ending) : Frame → Routine → Prop
  | minor {F : Frame} {called : Routine} {D : ChildId → Prop} {ms : List Message} {e : Option (Option ServerError)}
      (hd : called.isDriving = true) (he : Effect (licence role D m.Cancellable (·.isOwn = true)) m (resume F o m).1)
      (h : Heard ms e m (resume F o m).1) : Resumes role m o F called
  | mild {F : Frame} {called : Routine} (hd : called.isDriving = false) (hF : F.isMild = true)
      (h : Mild role m (resume F o m).1) : Resumes role m o F called
  | locking (w : FutureId) (h : Still m.state (resume (.locking w) o m).1.state) : Resumes role m o (.locking w) .acquireLock
  | registering (l : ListenerId) (h : Still m.state (resume (.registering l) o m).1.state) :
      Resumes role m o (.registering l) (.register l)
  | starting (l : ListenerId) (t : TransportId) (h : Still m.state (resume (.starting l t) o m).1.state) :
      Resumes role m o (.starting l t) (.register l)
  | leaving (l : ListenerId) (h : Still m.state (resume (.leaving l) o m).1.state) :
      Resumes role m o (.leaving l) (.closeListener l)
  | closing : Resumes role m o .closing .closeSession
  | releasing {called : Routine} (hcalled : called = .closeSession ∨ ∃ l, called = .closeListener l)
      (h : Still m.state (resume .releasing o m).1.state) : Resumes role m o .releasing called
  | getting (l : ListenerId) (g : FutureId) (h : Calm role m (resume (.getting l g) o m).1) :
      Resumes role m o (.getting l g) (.take l)

theorem resumes (hf : Fits role m) (hs : F.Serves m.routine? called) (hw : F.Woke role m o) : Resumes role m o F called := by
  cases hd : called.isDriving with
  | true =>
    obtain ⟨ms, e, hears⟩ := (resume_minor hf hs hw hd).hears hf.receiver
    exact .minor hd hears.effect hears.toHeard
  | false =>
    cases hF : F.isMild with
    | true => exact .mild hd hF (resume_mild hf.tidy hs hF)
    | false =>
      cases hs with
      | locking w => exact .locking w (acquireResumed_still m w o)
      | registering l => exact .registering l (registerLocked_still hf.tidy l o)
      | starting l t => exact .starting l t (startResumed_still m l t o)
      | leaving l => exact .leaving l (leaveLocked_still m l o)
      | closing => exact .closing
      | releasingListener l => exact .releasing (.inr ⟨l, rfl⟩) (.releaseLock ⟨rfl, rfl, rfl⟩)
      | releasingSession => exact .releasing (.inl rfl) (.releaseLock ⟨rfl, rfl, rfl⟩)
      | getting l g =>
        obtain ⟨-, o', ho', -⟩ := hw
        exact .getting l g (takeResumed_calm hf.tidy (isSettled_iff.mpr ⟨o', ho'⟩) o)
      | _ => first | (cases hd; done) | cases hF

end Loop

end DiagnosticsClient
