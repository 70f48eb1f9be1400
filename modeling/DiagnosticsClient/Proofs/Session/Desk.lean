import DiagnosticsClient.Proofs.Session.Departures
/-
Who is registered, and with which transport.

A step changes the listeners that are registered and the current transport in one of
five ways (`Desk`): with the lock somebody joins or leaves or a transport is installed, or
everybody is let go. So a listener that is registered while a transport is current has that
transport until it is spent (`Joined`), and never another (`IsRun.registeredOn_unique`).

Whoever opens a listener of his own has it registered exactly if he is told so
(`Opens`), and then there is a current transport.
-/
namespace DiagnosticsClient

open Async Async.Machine

namespace Loop

variable {role role' : FutureId → Role} {m m' : Loop} {t u : TaskId} {l : ListenerId} {root called r : Routine} {F : Frame}
  {stack : List Frame} {o : Ending} {s : Loop × Move} {held : List ListenerId} {ms : List Message}
  {e : Option (Option ServerError)} {th : Thread Routine Frame Value Failure}

/-- How a step changes who is registered, and the current transport. -/
inductive Desk (m m' : Loop) : Prop
  | rests (hr : m'.state.registered = m.state.registered) (hc : m'.state.current = m.state.current)
  /-- Everybody is let go, and there is no transport. -/
  | clears (hr : m'.state.registered = []) (hc : m'.state.current = none)
  | joins {u : TaskId} {v : Value} {l : ListenerId} {stack : List Frame}
      (runs : m.running = some (.resume u (.value v) (.registering l :: stack)))
      (hr : m'.state.registered = m.state.registered ++ [l]) (hc : m'.state.current = m.state.current)
  | leaves (l : ListenerId) (hr : m'.state.registered = m.state.registered.erase l) (hc : m'.state.current = m.state.current)
  | installs {u : TaskId} {v : Value} {l : ListenerId} {t : TransportId} {stack : List Frame}
      (runs : m.running = some (.resume u (.value v) (.starting l t :: stack)))
      (hr : m'.state.registered = m.state.registered) (hc : m'.state.current = some t)

theorem Desk.congr {m₁ : Loop} (h : Desk m m₁) (hr' : m'.state.registered = m₁.state.registered)
    (hc' : m'.state.current = m₁.state.current) : Desk m m' := by
  cases h with
  | rests hr hc => exact .rests (hr'.trans hr) (hc'.trans hc)
  | clears hr hc => exact .clears (hr'.trans hr) (hc'.trans hc)
  | joins runs hr hc => exact .joins runs (hr'.trans hr) (hc'.trans hc)
  | leaves l hr hc => exact .leaves l (hr'.trans hr) (hc'.trans hc)
  | installs runs hr hc => exact .installs runs (hr'.trans hr) (hc'.trans hc)

theorem Desk.of_state {m₁ : Loop} (h : Desk m m₁) (hs : m'.state = m₁.state) : Desk m m' :=
  h.congr (congrArg State.registered hs) (congrArg State.current hs)

/-- Who gives the lock up leaves the desk as it is. -/
theorem Desk.releaseLock (h : Desk m m') : Desk m m'.releaseLock :=
  h.congr (by rw [releaseLock_state]) (by rw [releaseLock_state])

theorem Heard.desk_moves (h : Heard ms e m m') : Desk m m' := by
  have hr := h.registered
  have hc := h.current
  cases e with
  | none => exact .rests hr hc
  | some e => exact .clears hr hc

theorem Begins.desk (how : Begins role m r called) : Desk m (begin r m).1 := by
  cases how with
  | minor _ _ h => exact h.desk_moves
  | mild _ _ _ h => exact .rests h.registered h.current
  | acquire =>
    simp only [begin, Loop.acquire]
    split <;> exact .rests rfl rfl
  | take l =>
    simp only [begin, Loop.take]
    split <;> exact .rests rfl rfl

theorem Resumes.desk (how : Resumes role m o F called) (ht : m.Tidy role) (hr : m.running = some (.resume t o (F :: stack))) :
    Desk m (resume F o m).1 := by
  cases how with
  | minor _ _ h => exact h.desk_moves
  | mild _ _ h => exact .rests h.registered h.current
  | locking w =>
    simp only [resume, acquireResumed]
    split
    · exact .rests rfl rfl
    · dsimp only
      split
      · exact .rests rfl rfl
      · exact (Desk.rests rfl rfl : Desk m (m.modifyLock _)).of_state (wakeLock_state _)
  | registering l =>
    cases o with
    | value v =>
      refine .joins hr (registerLocked_registered ht l v) ?_
      simp only [resume, registerLocked]
      split
      · rw [releaseLock_state]
        rfl
      · have hreg := (Works.modifyDesk (K := fun _ => True) (S := fun _ => True) ht (· ++ [l]) id).tidy
        exact congrArg Core.current (Aside.addTransport (K := fun _ => True) (S := fun _ => True) hreg).core
    | _ => exact .rests rfl rfl
  | starting l c =>
    cases o with
    | value v => exact .releaseLock (.installs hr rfl rfl)
    | _ => exact .releaseLock (.leaves l rfl rfl)
  | leaving l =>
    simp only [resume, leaveLocked]
    split
    · split
      · split
        · next hnone _ => exact .clears hnone rfl
        · exact .releaseLock (.leaves l rfl rfl)
      · exact .releaseLock (.rests rfl rfl)
    · exact .rests rfl rfl
  | closing =>
    have hnil := (detachAll_delivers (K := fun _ => True) (S := fun _ => True) ht none).registered
    have hnone := (Lasts.detachAll m none).2.1
    simp only [resume, closeLocked]
    split
    · split
      · exact .clears hnil hnone
      · exact .releaseLock (.clears hnil hnone)
    · exact .rests rfl rfl
  | releasing => exact .releaseLock (.rests rfl rfl)
  | getting l g h => exact .rests h.registered h.current

theorem Tick.desk (ht : Tick role m role' m') (hf : Fits role m) : Desk m m' := by
  cases ht with
  | awakes _ _ _ switch => exact (Desk.rests rfl rfl).of_state switch.state
  | passes _ _ hstate => exact (Desk.rests rfl rfl).of_state hstate
  | ends _ switch _ => exact (Desk.rests rfl rfl).of_state switch.state
  | begins _ _ _ how deed => exact how.desk.of_state deed.state
  | resumes runs _ _ _ how deed => exact (how.desk hf.tidy runs).of_state deed.state

theorem apply_desk {i : Stimulus} (hf : Fits role m) (hr : m.running = none) (ha : i.Admissible held m) :
    Desk m (m.apply i).1 :=
  apply_cases (P := Desk m) hf hr ha (.rests rfl rfl) (.rests rfl rfl) (fun hset => (Desk.rests rfl rfl).of_state hset.state)
    fun hears => hears.toHeard.desk_moves

end Loop

section goes

variable {role role' : FutureId → Role} {a b : Moment} {past : List Moment} {u : TaskId} {l : ListenerId} {t : TransportId}
  {stack rest : List Frame} {th th' : Thread Routine Frame Value Failure} {o : Ending} {v : Value}

/-- **What a step makes of those who are registered.** -/
theorem Goes.desk (hg : Goes role a role' b) (ha : a.Holds role) : Loop.Desk a.loop b.loop := by
  cases hg with
  | tick hq ht => exact ht.desk ha.fits
  | stimulus hr hs => exact Loop.apply_desk ha.fits hr hs

/-- Whoever is about to install a transport finds his listener alone, and no transport. -/
theorem Moment.Holds.suits_of_starting (ha : a.Holds role) (hth : a.loop.thread? u = some th) (hF : .starting l t ∈ th.stack) :
    a.loop.state.current = none ∧ a.loop.state.registered = [l] :=
  ha.coherent.suits ((Loop.view_station hth).trans (ha.station_of_mem hth hF rfl))

/-! ## With which transport -/

/-- A listener was registered with a transport: it still is, and the transport is current, or it is spent. -/
def Moment.Joined (a : Moment) (l : ListenerId) (t : TransportId) : Prop :=
  l ∈ a.loop.state.registered ∧ a.loop.state.current = some t ∨ a.Spends l

/-- **Whoever is registered with a transport stays with it until he is spent.** -/
theorem Moment.Joined.step (h : a.Joined l t) (ha : a.Holds role) (hb : b.Holds role') (hg : Goes role a role' b) :
    b.Joined l t := by
  rcases h with ⟨hl, hcurrent⟩ | hspent
  · by_cases hl' : l ∈ b.loop.state.registered
    · refine .inl ⟨hl', ?_⟩
      cases hg.desk ha with
      | rests _ hc => rw [hc, hcurrent]
      | clears hr _ => rw [hr] at hl'; cases hl'
      | joins _ _ hc => rw [hc, hcurrent]
      | leaves _ _ hc => rw [hc, hcurrent]
      | installs runs =>
        -- somebody else is about to install another transport, but there is this one
        have hnone := (ha.suits_of_starting (thread?_of_running runs) List.mem_cons_self).1
        cases hcurrent.symm.trans hnone
    · exact .inr (ha.allotted.spent hl (hg.shifts ha hb) hl')
  · exact .inr (hspent.shift (hg.shifts ha hb))

theorem Moment.Joined.current_eq {t' : TransportId} (h : a.Joined l t) (hl : l ∈ a.loop.state.registered)
    (hc : a.loop.state.current = some t') : t' = t := by
  rcases h with ⟨-, hcurrent⟩ | hspent
  · exact Option.some.inj (hc.symm.trans hcurrent)
  · exact absurd hl hspent.gone

/-- A listener was registered when a transport was the current one. -/
def RegisteredOn (l : ListenerId) (t : TransportId) (moments : List Moment) : Prop :=
  ∃ c ∈ moments, l ∈ c.loop.state.registered ∧ c.loop.state.current = some t

theorem registeredOn_cons : RegisteredOn l t (a :: past) ↔
    (l ∈ a.loop.state.registered ∧ a.loop.state.current = some t) ∨ RegisteredOn l t past := by
  simp only [RegisteredOn, List.mem_cons, or_and_right, exists_or, exists_eq_left]

/-- Whoever was registered with a transport has it, or is spent. -/
theorem IsRun.joined (h : IsRun (a :: past)) (hreg : RegisteredOn l t (a :: past)) : a.Joined l t := by
  induction past generalizing a with
  | nil =>
    rcases registeredOn_cons.mp hreg with hnow | ⟨c, hc, -⟩
    · exact .inl hnow
    · cases hc
  | cons b past ih =>
    obtain ⟨hb, role, role', hholds, hholds', hgoes⟩ := h.lastStep
    rcases registeredOn_cons.mp hreg with hnow | hold
    · exact .inl hnow
    · exact (ih hb hold).step hholds hholds' hgoes

/-- Nobody is registered with two transports. -/
theorem IsRun.registeredOn_unique {t' : TransportId} (h : IsRun (a :: past)) (hreg : RegisteredOn l t (a :: past))
    (hreg' : RegisteredOn l t' (a :: past)) : t = t' := by
  induction past generalizing a with
  | nil =>
    obtain ⟨c, hc, -, hcurrent⟩ := hreg
    obtain ⟨c', hc', -, hcurrent'⟩ := hreg'
    rw [List.mem_singleton.mp hc] at hcurrent
    rw [List.mem_singleton.mp hc'] at hcurrent'
    exact Option.some.inj (hcurrent.symm.trans hcurrent')
  | cons b past ih =>
    rcases registeredOn_cons.mp hreg with ⟨hl, hc⟩ | hold
    · exact (h.joined hreg').current_eq hl hc
    · rcases registeredOn_cons.mp hreg' with ⟨hl, hc⟩ | hold'
      · exact ((h.joined hreg).current_eq hl hc).symm
      · exact ih h.lastStep.1 hold hold'

end goes

/-! ## Who is told that he is registered -/

/-- A task waits for the lock, or is about to, or has done so with whatever outcome; then it goes on with `stack`. -/
inductive Queues (stack : List Frame) : Thread Routine Frame Value Failure → Prop
  | begins : Queues stack ⟨.begins .acquireLock, stack⟩
  | waits (w : FutureId) : Queues stack ⟨.waits w, .locking w :: stack⟩
  | woken (w : FutureId) (o : Ending) : Queues stack ⟨.resumes o, .locking w :: stack⟩
  | got (o : Ending) : Queues stack ⟨.resumes o, stack⟩

/-- Whoever opens a listener was told whether it is registered: if it is, there is a transport. -/
structure Informed (l : ListenerId) (m : Loop) (o : Ending) : Prop where
  registered : ∀ v, o = .value v → l ∈ m.state.registered ∧ ∃ t, m.state.current = some t
  refused : (∀ v, o ≠ .value v) → l ∉ m.state.registered

/-- How far a task has got with opening its listener; then it goes on with `stack`. -/
inductive Opens (l : ListenerId) (stack : List Frame) (m : Loop) : Thread Routine Frame Value Failure → Prop
  | opens (h : l ∉ m.state.registered) : Opens l stack m ⟨.begins (.openListener l), stack⟩
  | registers : Opens l stack m ⟨.begins (.register l), .opening l :: stack⟩
  | queues {th : Thread Routine Frame Value Failure} (h : Queues (.registering l :: .opening l :: stack) th) : Opens l stack m th
  | starts {th : Thread Routine Frame Value Failure} (t : TransportId) (h : .starting l t :: .opening l :: stack <:+ th.stack) :
      Opens l stack m th
  | told {o : Ending} (h : Informed l m o) : Opens l stack m ⟨.resumes o, .opening l :: stack⟩
  | opened {o : Ending} (h : Informed l m o) : Opens l stack m ⟨.resumes o, stack⟩

section opening

variable {role role' : FutureId → Role} {a b : Moment} {m m' : Loop} {u : TaskId} {l : ListenerId} {t : TransportId}
  {stack : List Frame} {th : Thread Routine Frame Value Failure} {o : Ending}

open Loop in
/-- Whoever waits for the lock waits on, or knows. -/
theorem Queues.turn (h : Queues stack th) (ht : Turn role m u th role' m') :
    (∃ o, th = ⟨.resumes o, stack⟩) ∨ ∃ th', m'.thread? u = some th' ∧ Queues stack th' := by
  cases h with
  | begins =>
    refine .inr ?_
    cases hfree : m.lockIsFree with
    | true =>
      have hbegin : begin .acquireLock m = (m.takeLock, nothing) := by simp only [begin, acquire, hfree, if_true]
      exact ⟨_, (ht.begun hbegin).2, .got _⟩
    | false =>
      have hbegin : begin .acquireLock m = (m.future.1.modifyLock fun lock =>
          { lock with waiters := lock.waiters ++ [m.futures.size] }, .await m.futures.size (.locking m.futures.size)) := by
        simp only [begin, acquire, hfree, Bool.false_eq_true, if_false]
        rfl
      exact ⟨_, (ht.begun hbegin).2.trans (congrArg some (nextThread_await_future _ stack _)), .waits _⟩
  | waits w =>
    refine .inr ?_
    cases ht with
    | rests _ _ hth' => exact ⟨_, hth', .waits w⟩
    | awakes how switch =>
      cases how with
      | resumes => exact ⟨_, switch.self, .woken w _⟩
      | interrupted => exact ⟨_, switch.self, .woken w _⟩
  | woken w o =>
    refine .inr ?_
    cases o with
    | value v => exact ⟨_, (ht.resumed rfl).2, .got _⟩
    | _ => exact ⟨_, (ht.resumed rfl).2, .got _⟩
  | got o => exact .inl ⟨o, rfl⟩

theorem Informed.congr (h : Informed l m o) (hr : m'.state.registered = m.state.registered) (hc : m'.state.current = m.state.current) :
    Informed l m' o :=
  ⟨fun v hv => hr ▸ hc ▸ h.registered v hv, fun hv => hr ▸ h.refused hv⟩

namespace Loop

/-- With the lock a listener is registered, and its opener is told so, or starts a transport. -/
theorem Turn.opens_of_registering (ht : Turn role m u ⟨.resumes o, .registering l :: .opening l :: stack⟩ role' m')
    (htidy : m.Tidy role) (hl : l ∉ m.state.registered) : ∃ th', m'.thread? u = some th' ∧ Opens l stack m' th' := by
  by_cases ho : ∃ v, o = .value v
  · obtain ⟨v, rfl⟩ := ho
    have hregistered := registerLocked_registered htidy l v
    cases hresume : registerLocked l (.value v) m with
    | mk m₁ move =>
      obtain ⟨hs, hth⟩ := ht.resumed (show resume (.registering l) (.value v) m = (m₁, move) from hresume)
      rw [hresume] at hregistered
      simp only [registerLocked] at hresume
      split at hresume
      · next t hcurrent =>
        cases hresume
        refine ⟨_, hth, .told ⟨fun _ _ => ⟨?_, t, ?_⟩, fun hne => absurd rfl (hne _)⟩⟩
        · rw [hs, hregistered]
          exact List.mem_append_right _ (List.mem_singleton.mpr rfl)
        · rw [hs, releaseLock_state]
          exact hcurrent
      · cases hresume
        exact ⟨_, hth, .starts _ (List.suffix_refl _)⟩
  · have ho' : ∀ v, o ≠ .value v := fun v hv => ho ⟨v, hv⟩
    have hresume : resume (.registering l) o m = (m, .done o) := by cases o <;> first | rfl | exact absurd rfl (ho' _)
    obtain ⟨hs, hth⟩ := ht.resumed hresume
    exact ⟨_, hth, .told ⟨fun v hv => absurd hv (ho' v), fun _ => by rwa [hs]⟩⟩

/-- When the transport is started the listener has it; when it cannot be, the listener is let go. -/
theorem Turn.opens_of_starting (ht : Turn role m u ⟨.resumes o, .starting l t :: .opening l :: stack⟩ role' m')
    (hl : m.state.registered = [l]) : ∃ th', m'.thread? u = some th' ∧ Opens l stack m' th' := by
  by_cases ho : ∃ v, o = .value v
  · obtain ⟨v, rfl⟩ := ho
    obtain ⟨hs, hth⟩ := ht.resumed rfl
    refine ⟨_, hth, .told ⟨fun _ _ => ⟨?_, t, ?_⟩, fun hne => absurd rfl (hne _)⟩⟩ <;> rw [hs, releaseLock_state]
    · exact hl ▸ List.mem_singleton.mpr rfl
    · rfl
  · have ho' : ∀ v, o ≠ .value v := fun v hv => ho ⟨v, hv⟩
    have hresume : resume (.starting l t) o m =
        ((m.modify fun s => { s with registered := s.registered.erase l }).releaseLock, .done o) := by
      cases o <;> first | rfl | exact absurd rfl (ho' _)
    obtain ⟨hs, hth⟩ := ht.resumed hresume
    refine ⟨_, hth, .told ⟨fun v hv => absurd hv (ho' v), fun _ => ?_⟩⟩
    rw [hs, releaseLock_state]
    simp [modify, hl]

end Loop

/-- **Whoever opens a listener is told whether it is registered.** -/
theorem Opens.step (h : Opens l stack a.loop th) (ha : a.Holds role) (hth : a.loop.thread? u = some th)
    (ht : Loop.Turn role a.loop u th role' b.loop) :
    (∃ o, th = ⟨.resumes o, stack⟩ ∧ Informed l a.loop o) ∨
      ∃ th', b.loop.thread? u = some th' ∧ Opens l stack b.loop th' := by
  cases h with
  | opened h => exact .inl ⟨_, rfl, h⟩
  | opens hl =>
    refine .inr ?_
    cases hopened : (a.loop.state.listener l).opened with
    | true =>
      obtain ⟨hs, hth'⟩ := ht.begun (by simp only [Loop.begin, Loop.openListener, hopened, if_true]; rfl)
      exact ⟨_, hth', .opened ⟨fun v hv => (by cases hv), fun _ => by rwa [hs]⟩⟩
    | false =>
      obtain ⟨hs, hth'⟩ := ht.begun (by simp only [Loop.begin, Loop.openListener, hopened, Bool.false_eq_true, if_false]; rfl)
      exact ⟨_, hth', .registers⟩
  | registers => exact .inr ⟨_, (ht.begun rfl).2, .queues .begins⟩
  | queues h =>
    rcases h.turn ht with ⟨o, rfl⟩ | ⟨th', hth', h'⟩
    · -- while he was entitled to register the listener, it was not registered
      have hright : a.loop.view Thread.right u = some l := Loop.view_right hth
      exact .inr (Loop.Turn.opens_of_registering ht ha.fits.tidy (ha.allotted.opened hright).2)
    · exact .inr ⟨th', hth', .queues h'⟩
  | starts t h =>
    refine .inr ?_
    rcases ht.below ha.fits hth (fun h => by cases h) h with ⟨o, rfl⟩ | ⟨th', hth', h', -⟩
    · exact Loop.Turn.opens_of_starting ht (ha.suits_of_starting hth List.mem_cons_self).2
    · exact ⟨th', hth', .starts t h'⟩
  | @told o h =>
    refine .inr ?_
    by_cases ho : ∃ v, o = .value v
    · obtain ⟨v, rfl⟩ := ho
      obtain ⟨hs, hth'⟩ := ht.resumed rfl
      refine ⟨_, hth', .opened ⟨fun _ _ => ?_, fun hne => absurd rfl (hne _)⟩⟩
      rw [hs]
      exact h.registered v rfl
    · have ho' : ∀ v, o ≠ .value v := fun v hv => ho ⟨v, hv⟩
      have hresume : Loop.resume (.opening l) o a.loop =
          (a.loop.modifyListener l fun listener => { listener with ended := true }, .done o) := by
        cases o <;> first | rfl | exact absurd rfl (ho' _)
      obtain ⟨hs, hth'⟩ := ht.resumed hresume
      refine ⟨_, hth', .opened ⟨fun v hv => absurd hv (ho' v), fun hne => ?_⟩⟩
      rw [hs]
      exact h.refused hne

end opening

end DiagnosticsClient
