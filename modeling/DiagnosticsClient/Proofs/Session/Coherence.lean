import DiagnosticsClient.Proofs.Session.Stations
/-
A session is coherent: its lock, its listeners and its transport fit together.

`Coherent` is `Ordered` of the places that tasks have (`Thread.station`); a waiter
of the lock is summoned once his future has a value. Every step keeps it
(`Coherent.tick`): most steps leave lock, places and listeners alone, and each of
the six that do not is one of the ways in which places change in `Ordered`. What
reaches the session from outside keeps it too, a transport that reports its end
included: then the list and the transport are cleared at once, which changes
nothing for a task that holds the lock over a start or a stop, as there is no
current transport then.
-/
namespace DiagnosticsClient

open Async Async.Machine

namespace Loop

variable {role role' : FutureId → Role} {K : TaskId → Prop} {S : Routine → Prop} {m m' n : Loop} {t u : TaskId}
  {w : FutureId} {l : ListenerId} {root called r : Routine} {F : Frame} {stack : List Frame} {o : Ending} {a : Station}
  {th th' : Thread Routine Frame Value Failure} {s : Loop × Move} {held : List ListenerId}

/-! ## Who is summoned -/

/-- A waiter who may go on with the lock. -/
def Summoned (m : Loop) (w : FutureId) : Prop := ∃ v, m.outcome? w = some (.value v)

theorem summoned_settle {f : FutureId} (h : Summoned (m.settle f o) w) : m.Summoned w ∨ w = f := by
  cases hf : m.futures[f]? with
  | none =>
    rw [show m.settle f o = m by simp [settle, hf]] at h
    exact .inl h
  | some future =>
    cases ho : future.outcome with
    | some o' =>
      rw [show m.settle f o = m by simp [settle, hf, ho]] at h
      exact .inl h
    | none =>
      obtain ⟨v, hv⟩ := h
      rw [outcome?_settle hf ho] at hv
      split at hv
      · next heq => exact .inr heq
      · exact .inl ⟨v, hv⟩

/-- Nobody is summoned to the lock but the first who waits for it. -/
theorem summoned_wakeLock (h : Summoned m.wakeLock w) : m.Summoned w ∨ m.state.lock.waiters.head? = some w := by
  unfold wakeLock at h
  cases hw : m.state.lock.waiters with
  | nil => simp only [hw] at h; exact .inl h
  | cons f rest =>
    simp only [hw] at h
    rcases summoned_settle h with h | rfl
    · exact .inl h
    · exact .inr rfl

/-- What is not done with the lock summons nobody to it. -/
theorem summoned_of_effect {D : ChildId → Prop} (h : m.Tidy role) (he : Effect (licence role D K S) m m') (hw : w ∈ m.state.lock.waiters)
    (hs : m'.Summoned w) : m.Summoned w := by
  obtain ⟨v, hv⟩ := hs
  exact ⟨v, value_of_effect h he (h.names.lock w hw).2 hv fun h => by cases h⟩

theorem Calm.summoned (h : Calm role m m') (ht : m.Tidy role) (hw : w ∈ m.state.lock.waiters) (hs : m'.Summoned w) :
    m.Summoned w := by
  obtain ⟨v, hv⟩ := hs
  exact ⟨v, h.locks (ht.names.lock w hw).2 hv fun h => by cases h⟩

/-- Who is summoned after a step of the running task was summoned by what it did at once. -/
theorem Deed.summoned_of_plain (hd : Deed role role' m t root called stack s) (hw : s.1.IsPlain w)
    (hs : Summoned (s.1.perform t stack s.2) w) : s.1.Summoned w := by
  obtain ⟨v, hv⟩ := hs
  exact ⟨v, (hd.switch.outcome hw).symm.trans hv⟩

theorem Deed.summoned (hd : Deed role role' m t root called stack s) (hf : Fits role m) (hw : w ∈ m.state.lock.waiters)
    (hs : Summoned (s.1.perform t stack s.2) w) : s.1.Summoned w :=
  hd.summoned_of_plain (hd.does.effect.extends.owner (hf.tidy.names.lock w hw).1) hs

/-- What is heard changes the listeners and the transport together. -/
theorem Heard.desk {ms : List Message} {e : Option (Option ServerError)} (h : Heard ms e m m') :
    m'.state.registered = m.state.registered ∧ m'.state.current = m.state.current ∨
      m.state.current ≠ none ∧ m'.state.registered = [] ∧ m'.state.current = none := by
  cases e with
  | none => exact .inl ⟨h.registered, h.current⟩
  | some e =>
    obtain ⟨rs, -, he⟩ := h.reports
    obtain ⟨r, hr, -⟩ := Option.map_eq_some_iff.mp he.symm
    have hcurrent : m.state.current = some r.1 := by simpa using List.find?_some hr
    exact .inr ⟨fun hnone => (by rw [hnone] at hcurrent; cases hcurrent), h.registered, h.current⟩

theorem Fits.not_acquireLock (hf : Fits role m) (hr : m.routine? t = some root) : root ≠ .acquireLock := by
  rintro rfl
  cases hf.roots hr

/-! ## How places change -/

/-- The lock, the places of tasks, the listeners and the transport fit together. -/
def Coherent (m : Loop) : Prop := Ordered (m.view Thread.station) m.Summoned m.state

theorem view_station (h : m.thread? t = some th) : m.view Thread.station t = Thread.station th := by
  rw [Machine.view, h]
  rfl

namespace Coherent

/-- The running task keeps its place. -/
theorem stay (h : m.Coherent) (hf : Fits role m) (hd : Deed role role' m t root called stack s)
    (hth : m.thread? t = some th) (hplace : Thread.station (s.1.nextThread stack s.2) = Thread.station th)
    (hl : s.1.state.lock = m.state.lock) (hw : ∀ {w}, w ∈ m.state.lock.waiters → s.1.Summoned w → m.Summoned w)
    (hdesk : s.1.state.registered = m.state.registered ∧ s.1.state.current = m.state.current ∨
      m.state.current ≠ none ∧ s.1.state.registered = [] ∧ s.1.state.current = none) :
    Coherent (s.1.perform t stack s.2) := by
  unfold Coherent
  rw [hd.state]
  refine h.mono (fun u => ?_) hl (fun hmem hs => hw hmem (hd.summoned hf hmem hs)) hdesk
  by_cases hu : u = t
  · subst hu
    rw [hd.view_self, hplace, view_station hth]
  · exact hd.view_other hf (fun _ => rfl) hu

theorem of_calm (h : m.Coherent) (hf : Fits role m) (hd : Deed role role' m t root called stack s)
    (hth : m.thread? t = some th) (hplace : Thread.station (s.1.nextThread stack s.2) = Thread.station th)
    (hcalm : Calm role m s.1) : Coherent (s.1.perform t stack s.2) :=
  h.stay hf hd hth hplace hcalm.lock (hcalm.summoned hf.tidy) (.inl ⟨hcalm.registered, hcalm.current⟩)

/-- The running task goes on to another place with the lock. -/
theorem pass {b : Station} (h : m.Coherent) (hf : Fits role m) (hd : Deed role role' m t root called stack s)
    (hth : m.thread? t = some th) (ha : Thread.station th = some a) (hholds : a.holds = true)
    (hb : Thread.station (s.1.nextThread stack s.2) = some b) (hholds' : b.holds = true)
    (hl : s.1.state.lock = m.state.lock) (hsuits : b.Suits s.1.state)
    (hw : ∀ {w}, w ∈ m.state.lock.waiters → s.1.Summoned w → m.Summoned w) :
    Coherent (s.1.perform t stack s.2) := by
  unfold Coherent
  rw [hd.state]
  exact Ordered.pass h ((view_station hth).trans ha) hholds (hd.view_self.trans hb) hholds'
    (fun u hu => hd.view_other hf (fun _ => rfl) hu) hl hsuits fun hmem hs => hw hmem (hd.summoned hf hmem hs)

/-- The running task gives the lock up. -/
theorem release (h : m.Coherent) (hf : Fits role m) (hd : Deed role role' m t root called stack s)
    (hth : m.thread? t = some th) (ha : Thread.station th = some a) (hholds : a.holds = true)
    (hself : Thread.station (s.1.nextThread stack s.2) = none) (hs : s.1 = n.releaseLock)
    (hl : n.state.lock = m.state.lock) (hb : n.state.Balanced)
    (hw : ∀ {w}, w ∈ m.state.lock.waiters → n.Summoned w → m.Summoned w) :
    Coherent (s.1.perform t stack s.2) := by
  have hstate : s.1.state = { n.state with lock := { n.state.lock with held := false } } := by rw [hs, releaseLock_state]
  unfold Coherent
  rw [hd.state]
  refine Ordered.release h ((view_station hth).trans ha) hholds (hd.view_self.trans hself)
    (fun u hu => hd.view_other hf (fun _ => rfl) hu) (by rw [hstate, hl]) (by rw [hstate]; exact hb) fun hmem hsum => ?_
  have hwoke := hd.summoned hf hmem hsum
  rw [hs, releaseLock] at hwoke
  rcases summoned_wakeLock hwoke with hold | hhead
  · exact .inl (hw hmem hold)
  · exact .inr (by rw [← hl]; exact hhead)

/-! ## The steps of the running task -/

/-- Who asks for the lock takes it, or is the last to wait for it. -/
theorem of_acquire (h : m.Coherent) (hf : Fits role m) (hr : m.running = some (.begin t .acquireLock stack))
    (hd : Deed role role' m t root .acquireLock stack (begin .acquireLock m)) :
    Coherent ((begin .acquireLock m).1.perform t stack (begin .acquireLock m).2) := by
  have hth : m.thread? t = some ⟨.begins .acquireLock, stack⟩ := thread?_of_running hr
  have hnone : m.view Thread.station t = none := by
    rw [view_station hth, hd.stacked.station_begins, hd.stacked.holdOf_eq_none rfl]
  have hother : ∀ u, u ≠ t → Machine.view _ Thread.station u = m.view Thread.station u :=
    fun u hu => hd.view_other hf (fun _ => rfl) hu
  unfold Coherent
  rw [hd.state]
  cases hfree : m.lockIsFree with
  | true =>
    have hbegin : begin .acquireLock m = (m.takeLock, nothing) := by simp only [begin, acquire, hfree, if_true]
    rw [hbegin] at hd hother ⊢
    simp only [lockIsFree, Bool.and_eq_true, Bool.not_eq_true'] at hfree
    refine Ordered.take h (hd.view_self.trans (hd.stacked.station_taken (hf.not_acquireLock hd.made) _)) hother hfree.1
      fun w hmem hs => ?_
    -- all who wait have been cancelled
    obtain ⟨v, hv⟩ := hd.summoned hf hmem hs
    have hcancelled := List.all_eq_true.mp hfree.2 w hmem
    rw [isCancelled, show m.outcome? w = _ from hv] at hcancelled
    cases hcancelled
  | false =>
    have hbegin : begin .acquireLock m = (m.future.1.modifyLock fun lock =>
        { lock with waiters := lock.waiters ++ [m.futures.size] }, .await m.futures.size (.locking m.futures.size)) := by
      simp only [begin, acquire, hfree, Bool.false_eq_true, if_false]
      rfl
    rw [hbegin] at hd hother ⊢
    have houtcome : ∀ f, m.future.1.outcome? f = m.outcome? f := outcome?_push rfl
    have hnew : m.outcome? m.futures.size = none := by simp [outcome?]
    have hself : Thread.station (Machine.nextThread (m.future.1.modifyLock fun lock =>
        { lock with waiters := lock.waiters ++ [m.futures.size] }) stack
        (.await m.futures.size (.locking m.futures.size) : Move)) = some (.queued m.futures.size) := by
      unfold nextThread
      dsimp only
      split <;> rfl
    refine Ordered.enqueue h (hd.view_self.trans hself) hother hnone ?_ ?_ fun hmem hs => ?_
    · exact fun hmem => Nat.lt_irrefl _ (hf.tidy.names.lock _ hmem).1.lt_size
    · intro hs
      have hmem : m.futures.size ∈ m.state.lock.waiters ++ [m.futures.size] :=
        List.mem_append_right _ (List.mem_singleton.mpr rfl)
      obtain ⟨v, hv⟩ := hd.summoned_of_plain (hd.does.tidy.names.lock _ hmem).1 hs
      have hv' : m.outcome? m.futures.size = some (.value v) := (houtcome _).symm.trans hv
      rw [hnew] at hv'
      cases hv'
    · obtain ⟨v, hv⟩ := hd.summoned hf hmem hs
      exact ⟨v, (houtcome _).symm.trans hv⟩

theorem begins (h : m.Coherent) (hf : Fits role m) (hr : m.running = some (.begin t r stack)) (hstands : r.StandsFor called)
    (hb : Begins role m r called) (hd : Deed role role' m t root called stack (begin r m)) :
    Coherent ((begin r m).1.perform t stack (begin r m).2) := by
  have hth : m.thread? t = some ⟨.begins r, stack⟩ := thread?_of_running hr
  cases hb with
  | minor hdrive heff hheard =>
    refine h.stay hf hd hth ?_ hheard.lock (summoned_of_effect hf.tidy heff) hheard.desk
    rw [hd.stacked.station_begins]
    refine hd.does.move.station hd.stacked (by rintro rfl; cases hdrive) fun r' F ha => ?_
    exact (hd.does.move.serves ha).hold_of_isDriving hdrive
  | mild hdrive hacquire htake hmild =>
    refine h.of_calm hf hd hth ?_ hmild.toCalm
    rw [hd.stacked.station_begins]
    refine hd.does.move.station hd.stacked ?_ fun r' F ha => begin_hold hstands ha (hd.does.move.serves ha)
    rintro rfl
    cases hstands
    exact hacquire rfl
  | acquire => exact h.of_acquire hf hr hd
  | take l =>
    refine h.stay hf hd hth ?_ ?_ (fun _ hs => ?_) (.inl ?_)
    · rw [hd.stacked.station_begins]
      refine hd.does.move.station hd.stacked (by intro h; cases h) fun r' F ha => ?_
      simp only [begin, take] at ha
      split at ha <;> cases ha
    · simp only [begin, take]
      split <;> rfl
    · simp only [begin, take] at hs
      split at hs
      · exact hs
      · obtain ⟨v, hv⟩ := hs
        exact ⟨v, (outcome?_push rfl _).symm.trans hv⟩
    · simp only [begin, take]
      split <;> exact ⟨rfl, rfl⟩

/-- Who waited for the lock takes it, or gives up. -/
theorem of_locking (h : m.Coherent) (hf : Fits role m) (hr : m.running = some (.resume t o (.locking w :: stack)))
    (hwoke : Frame.Woke role m o (.locking w)) (hd : Deed role role' m t root .acquireLock stack (resume (.locking w) o m)) :
    Coherent ((resume (.locking w) o m).1.perform t stack (resume (.locking w) o m).2) := by
  have hp : m.view Thread.station t = some (.queued w) := view_station (thread?_of_running hr)
  have hother : ∀ u, u ≠ t → Machine.view _ Thread.station u = m.view Thread.station u :=
    fun u hu => hd.view_other hf (fun _ => rfl) hu
  unfold Coherent
  rw [hd.state]
  by_cases ho : ∃ v, o = .value v
  · obtain ⟨v, rfl⟩ := ho
    have hsummoned : m.Summoned w := by
      obtain ⟨-, o', ho', heq | heq⟩ := hwoke
      · exact ⟨v, heq ▸ ho'⟩
      · cases heq
    exact Ordered.goIn h hp hsummoned (hd.view_self.trans (hd.stacked.station_taken (hf.not_acquireLock hd.made) _)) hother
      fun hmem hs => hd.summoned hf hmem hs
  · have ho' : ∀ v, o ≠ .value v := fun v heq => ho ⟨v, heq⟩
    have hresume : resume (.locking w) o m =
        (if m.state.lock.held then m.modifyLock fun lock => { lock with waiters := lock.waiters.erase w }
          else (m.modifyLock fun lock => { lock with waiters := lock.waiters.erase w }).wakeLock, .done o) := by
      cases o with
      | value v => exact absurd rfl (ho' v)
      | _ => rfl
    have hstate : (resume (.locking w) o m).1.state =
        { m.state with lock := { m.state.lock with waiters := m.state.lock.waiters.erase w } } := by
      rw [hresume]
      dsimp only
      split
      · rfl
      · rw [wakeLock_state]
        rfl
    have hself : Thread.station (Machine.nextThread (resume (.locking w) o m).1 stack (resume (.locking w) o m).2) = none := by
      rw [hresume]
      exact hd.stacked.station_missed ho'
    rw [hstate]
    refine Ordered.giveUp h hp (hd.view_self.trans hself) hother fun hmem hs => ?_
    have hs' := hd.summoned hf hmem hs
    rw [hresume] at hs'
    cases hheld : m.state.lock.held with
    | true =>
      rw [hheld, if_pos rfl] at hs'
      exact .inl hs'
    | false =>
      rw [hheld, if_neg (by simp)] at hs'
      exact (summoned_wakeLock hs').imp_right fun hhead => ⟨rfl, hhead⟩

/-- Who waited for the lock in vain does nothing more with it. -/
theorem of_missed (h : m.Coherent) (hf : Fits role m) (hd : Deed role role' m t root called stack (resume F o m))
    (hth : m.thread? t = some ⟨.resumes o, F :: stack⟩) (hF : F.Calls .acquireLock) (ha : called ≠ .acquireLock)
    (ho : ∀ v, o ≠ .value v) (hresume : resume F o m = (m, .done o)) :
    Coherent ((resume F o m).1.perform t stack (resume F o m).2) := by
  rw [hresume] at hd ⊢
  refine h.stay hf hd hth ?_ rfl (fun _ hs => hs) (.inl ⟨rfl, rfl⟩)
  have hstation : F.station (.resumes o) = none := by
    cases o with
    | value v => exact absurd rfl (ho v)
    | _ => cases hF <;> rfl
  rw [station_cons, hstation, Option.none_or]
  exact hd.stacked.station ha

/-- Who holds the lock registers a listener, and keeps the lock if a transport is to be started. -/
theorem of_registering (h : m.Coherent) (hf : Fits role m) (hr : m.running = some (.resume t o (.registering l :: stack)))
    (hd : Deed role role' m t root (.register l) stack (resume (.registering l) o m)) :
    Coherent ((resume (.registering l) o m).1.perform t stack (resume (.registering l) o m).2) := by
  have hth : m.thread? t = some ⟨.resumes o, .registering l :: stack⟩ := thread?_of_running hr
  have hnext : ∀ top, Thread.station ⟨top, stack⟩ = none :=
    fun top => (hd.stacked.station (by intro h; cases h)).trans (hd.stacked.holdOf_eq_none rfl)
  cases o with
  | value v =>
    have hbalanced : m.state.Balanced := Ordered.suits h (view_station hth) (a := .taken)
    let m₁ := m.modify fun s => { s with registered := s.registered ++ [l] }
    cases hc : m.state.current with
    | some c =>
      have hresume : resume (.registering l) (.value v) m = (m₁.releaseLock, nothing) := by
        simp only [resume, registerLocked]
        rw [show (m.modify fun s => { s with registered := s.registered ++ [l] }).state.current = some c from hc]
      rw [hresume] at hd ⊢
      refine h.release hf hd hth rfl rfl (hnext _) rfl rfl ?_ fun _ hs => hs
      exact iff_of_true (Option.isSome_iff_exists.mpr ⟨c, hc⟩) (by simp [m₁, Loop.modify])
    | none =>
      have hresume : resume (.registering l) (.value v) m =
          (m₁.addTransport.1, .call (.start m₁.addTransport.2) (.starting l m₁.addTransport.2)) := by
        simp only [resume, registerLocked]
        rw [show (m.modify fun s => { s with registered := s.registered ++ [l] }).state.current = none from hc]
      have hempty : m.state.registered = [] := by
        refine Decidable.byContradiction fun hne => ?_
        have hsome := hbalanced.mpr hne
        rw [hc] at hsome
        cases hsome
      have htidy : m₁.Tidy role :=
        (Works.modifyDesk (K := fun _ => True) (S := fun _ => True) hf.tidy (· ++ [l]) id).tidy
      have hadd := Aside.addTransport (K := fun _ => True) (S := fun _ => True) htidy
      rw [hresume] at hd ⊢
      refine h.pass hf hd hth rfl rfl (b := .starting l) rfl rfl (congrArg Core.lock hadd.core) ⟨?_, ?_⟩
        fun hmem hs => show m₁.Summoned _ from summoned_of_effect htidy hadd.effect hmem hs
      · exact (congrArg Core.current hadd.core).trans hc
      · exact (congrArg Core.registered hadd.core).trans (congrArg (· ++ [l]) hempty)
  | _ => exact h.of_missed hf hd hth (.registering l) (by intro h; cases h) (fun v h => by cases h) rfl

/-- A start is over. -/
theorem of_starting {c : TransportId} (h : m.Coherent) (hf : Fits role m)
    (hr : m.running = some (.resume t o (.starting l c :: stack)))
    (hd : Deed role role' m t root (.register l) stack (resume (.starting l c) o m)) :
    Coherent ((resume (.starting l c) o m).1.perform t stack (resume (.starting l c) o m).2) := by
  have hth : m.thread? t = some ⟨.resumes o, .starting l c :: stack⟩ := thread?_of_running hr
  have hnext : ∀ top, Thread.station ⟨top, stack⟩ = none :=
    fun top => (hd.stacked.station (by intro h; cases h)).trans (hd.stacked.holdOf_eq_none rfl)
  obtain ⟨hnone, honly⟩ : m.state.current = none ∧ m.state.registered = [l] :=
    Ordered.suits h (view_station hth) (a := .starting l)
  cases o with
  | value v =>
    refine h.release hf hd hth rfl rfl (hnext _) (n := m.modify fun s => { s with current := some c }) rfl rfl ?_
      fun _ hs => hs
    exact iff_of_true rfl (by simp [Loop.modify, honly])
  | _ =>
    refine h.release hf hd hth rfl rfl (hnext _) (n := m.modify fun s => { s with registered := s.registered.erase l })
      rfl rfl ?_ fun _ hs => hs
    exact iff_of_false (by simp [Loop.modify, hnone]) (by simp [Loop.modify, honly])

/-- Who holds the lock lets a listener go, and keeps the lock if a transport is to be stopped. -/
theorem of_leaving (h : m.Coherent) (hf : Fits role m) (hr : m.running = some (.resume t o (.leaving l :: stack)))
    (hd : Deed role role' m t root (.closeListener l) stack (resume (.leaving l) o m)) :
    Coherent ((resume (.leaving l) o m).1.perform t stack (resume (.leaving l) o m).2) := by
  have hth : m.thread? t = some ⟨.resumes o, .leaving l :: stack⟩ := thread?_of_running hr
  have hrest := hd.stacked.holdOf_eq_none rfl
  have hnext : ∀ top, Thread.station ⟨top, stack⟩ = none :=
    fun top => (hd.stacked.station (by intro h; cases h)).trans hrest
  cases o with
  | value v =>
    have hbalanced : m.state.Balanced := Ordered.suits h (view_station hth) (a := .taken)
    let m₁ := m.modify fun s => { s with registered := s.registered.erase l }
    by_cases hmem : m.state.registered.contains l = true
    · obtain ⟨c, hc⟩ := Option.isSome_iff_exists.mp (hbalanced.mpr fun hnil => by simp [hnil] at hmem)
      cases he : m.state.registered.erase l with
      | nil =>
        let m₂ := m₁.modify fun s => { s with current := none }
        have hresume : resume (.leaving l) (.value v) m =
            (m₂.note .debug (lit "Last listener left, stopping tsserver"), .call (.stop c) .releasing) := by
          simp only [resume, leaveLocked, hmem, if_true, Loop.modify, he, hc, m₁, m₂]
        rw [hresume] at hd ⊢
        exact h.pass hf hd hth rfl rfl (b := .releasing) rfl rfl rfl ⟨rfl, he⟩ fun _ hs => hs
      | cons x xs =>
        have hresume : resume (.leaving l) (.value v) m = (m₁.releaseLock, nothing) := by
          simp only [resume, leaveLocked, hmem, if_true, Loop.modify, he, m₁]
        rw [hresume] at hd ⊢
        refine h.release hf hd hth rfl rfl (hnext _) rfl rfl ?_ fun _ hs => hs
        exact iff_of_true (Option.isSome_iff_exists.mpr ⟨c, hc⟩) fun hnil => by
          rw [show m₁.state.registered = x :: xs from he] at hnil
          cases hnil
    · have hresume : resume (.leaving l) (.value v) m = (m.releaseLock, nothing) := by
        simp only [resume, leaveLocked]
        rw [if_neg hmem]
      rw [hresume] at hd ⊢
      exact h.release hf hd hth rfl rfl (hnext _) (n := m) rfl rfl hbalanced fun _ hs => hs
  | _ => exact h.of_missed hf hd hth (.leaving l) (by intro h; cases h) (fun v h => by cases h) rfl

/-- Who holds the lock detaches all listeners, and keeps the lock if a transport is to be stopped. -/
theorem of_closing (h : m.Coherent) (hf : Fits role m) (hr : m.running = some (.resume t o (.closing :: stack)))
    (hd : Deed role role' m t root .closeSession stack (resume .closing o m)) :
    Coherent ((resume .closing o m).1.perform t stack (resume .closing o m).2) := by
  have hth : m.thread? t = some ⟨.resumes o, .closing :: stack⟩ := thread?_of_running hr
  have hnext : ∀ top, Thread.station ⟨top, stack⟩ = none :=
    fun top => (hd.stacked.station (by intro h; cases h)).trans (hd.stacked.holdOf_eq_none rfl)
  cases o with
  | value v =>
    have hall := detachAll_delivers (K := fun _ => True) (S := fun _ => True) hf.tidy none
    have hregistered : (m.detachAll none).state.registered = [] := hall.registered
    have hcurrent : (m.detachAll none).state.current = none := hall.current
    have hclear := detach_acts (K := fun _ => True) (S := fun _ => True) hf.tidy
    have hw : ∀ {w}, w ∈ m.state.lock.waiters → (m.detachAll none).Summoned w → m.Summoned w :=
      summoned_of_effect hf.tidy (hclear.trans hall.toActs).effect
    cases hc : m.state.current with
    | some c =>
      have hresume : resume .closing (.value v) m = (m.detachAll none, .call (.stop c) .releasing) := by
        simp only [resume, closeLocked, hc]
      rw [hresume] at hd ⊢
      exact h.pass hf hd hth rfl rfl (b := .releasing) rfl rfl hall.lock ⟨hcurrent, hregistered⟩ hw
    | none =>
      have hresume : resume .closing (.value v) m = ((m.detachAll none).releaseLock, nothing) := by
        simp only [resume, closeLocked, hc]
      rw [hresume] at hd ⊢
      refine h.release hf hd hth rfl rfl (hnext _) rfl hall.lock ?_ hw
      exact iff_of_false (by simp [hcurrent]) (by simp [hregistered])
  | _ => exact h.of_missed hf hd hth .closing (by intro h; cases h) (fun v h => by cases h) rfl

/-- A stop is over. -/
theorem of_releasing (h : m.Coherent) (hf : Fits role m) (hr : m.running = some (.resume t o (.releasing :: stack)))
    (hdrive : called.isDriving = false) (ha : called ≠ .acquireLock)
    (hd : Deed role role' m t root called stack (resume .releasing o m)) :
    Coherent ((resume .releasing o m).1.perform t stack (resume .releasing o m).2) := by
  have hth : m.thread? t = some ⟨.resumes o, .releasing :: stack⟩ := thread?_of_running hr
  obtain ⟨hcurrent, hregistered⟩ : m.state.current = none ∧ m.state.registered = [] :=
    Ordered.suits h (view_station hth) (a := .releasing)
  refine h.release hf hd hth rfl rfl ?_ (n := m) rfl rfl ?_ fun _ hs => hs
  · have hnext : ∀ top, Thread.station ⟨top, stack⟩ = none :=
      fun top => (hd.stacked.station ha).trans (hd.stacked.holdOf_eq_none hdrive)
    cases o <;> exact hnext _
  · exact iff_of_false (by simp [hcurrent]) (by simp [hregistered])

theorem resumes (h : m.Coherent) (hf : Fits role m) (hr : m.running = some (.resume t o (F :: stack)))
    (hs : F.Serves m.routine? called) (hwoke : F.Woke role m o) (how : Resumes role m o F called)
    (hd : Deed role role' m t root called stack (resume F o m)) :
    Coherent ((resume F o m).1.perform t stack (resume F o m).2) := by
  have hth : m.thread? t = some ⟨.resumes o, F :: stack⟩ := thread?_of_running hr
  cases how with
  | minor hdrive heff hheard =>
    refine h.stay hf hd hth ?_ hheard.lock (summoned_of_effect hf.tidy heff) hheard.desk
    rw [station_cons, hs.station_of_isDriving hdrive, Option.none_or]
    refine hd.does.move.station hd.stacked (by rintro rfl; cases hdrive) fun r' F ha => ?_
    exact (hd.does.move.serves ha).hold_of_isDriving hdrive
  | mild hdrive hmildF hmild =>
    have hserves := hs.mono hd.does.effect.extends.routine?
    refine h.of_calm hf hd hth ?_ hmild.toCalm
    rw [station_cons, F.station_of_isMild hmildF, Option.none_or]
    exact hd.does.move.station hd.stacked (hs.ne_acquireLock hmildF) fun r' G ha =>
      hserves.hold_of_isMild hmildF (hd.does.move.serves ha)
  | locking w _ => exact h.of_locking hf hr hwoke hd
  | registering l _ => exact h.of_registering hf hr hd
  | starting l c _ => exact h.of_starting hf hr hd
  | leaving l _ => exact h.of_leaving hf hr hd
  | closing => exact h.of_closing hf hr hd
  | releasing hcalled _ =>
    refine h.of_releasing hf hr ?_ ?_ hd
    · rcases hcalled with rfl | ⟨l, rfl⟩ <;> rfl
    · rcases hcalled with rfl | ⟨l, rfl⟩ <;> exact fun h => by cases h
  | getting l g hcalm =>
    refine h.of_calm hf hd hth ?_ hcalm
    refine (hd.does.move.station hd.stacked (by intro h; cases h) fun r' G ha => ?_).trans rfl
    cases o <;> cases ha

/-! ## All steps -/

/-- A task that is set going keeps its place. -/
theorem of_awakes (h : m.Coherent) (hf : Fits role m) (hth : m.thread? t = some th) (ha : m.Awakes t th th')
    (hs : m.Switch t (some th') m') : m'.Coherent := by
  have hplace : Thread.station th' = Thread.station th := by
    obtain ⟨root, -, hfits⟩ := hf.threads hth
    have hwait : ∀ {f stack top}, th = ⟨.waits f, stack⟩ → Thread.station ⟨top, stack⟩ = Thread.station th := by
      rintro f stack top rfl
      cases hfits with
      | waits _ hawaits _ => rw [station_cons, station_cons, Frame.station_eq_of_isWait hawaits.isWait]
    cases ha with
    | begins => rfl
    | dropped => rfl
    | resumes => exact hwait rfl
    | interrupted => exact hwait rfl
  unfold Coherent
  rw [hs.state]
  refine Ordered.mono h (fun u => ?_) rfl (fun hmem hsum => ?_) (.inl ⟨rfl, rfl⟩)
  · by_cases hu : u = t
    · subst hu
      rw [hs.view_self, view_station hth]
      exact hplace
    · exact hs.view_other hu
  · obtain ⟨v, hv⟩ := hsum
    exact ⟨v, (hs.outcome (hf.tidy.names.lock _ hmem).1).symm.trans hv⟩

/-- What is settled between the turns of tasks keeps a session coherent. -/
theorem settled (h : m.Coherent) (hf : Fits role m) (hs : Settled (bare role) m m') : m'.Coherent := by
  unfold Coherent
  rw [hs.state]
  refine Ordered.mono h (hs.extends_.view hf.tidy.sound hs.sound fun _ => rfl) rfl (fun hmem hsum => ?_) (.inl ⟨rfl, rfl⟩)
  obtain ⟨hplain, hrole⟩ := hf.tidy.names.lock _ hmem
  obtain ⟨v, hv⟩ := hsum
  rcases hs.extends_.settled hv with hold | ⟨-, hset⟩
  · exact ⟨v, hold⟩
  · rcases hset hplain.lt_size with hscheduled | ⟨hwake, -⟩ | ⟨hcancel, -⟩
    · rw [show (bare role).target _ ↔ (role _).isScheduled = true from Iff.rfl, hrole] at hscheduled
      cases hscheduled
    · exact hwake.elim
    · cases hcancel

/-- **A step keeps a session coherent.** -/
theorem tick (h : m.Coherent) (hf : Fits role m) (ht : Tick role m role' m') (hf' : Fits role' m') : m'.Coherent := by
  cases ht with
  | awakes idle hth how switch => exact h.of_awakes hf hth how switch
  | passes idle he hstate => exact h.settled hf ⟨hf'.tidy.sound, he, hstate⟩
  | @ends _ t o runs switch outcome =>
    have hth : m.thread? t = some ⟨.resumes o, []⟩ := thread?_of_running runs
    unfold Coherent
    rw [switch.state]
    refine Ordered.mono h (fun u => ?_) rfl (fun hmem hsum => ?_) (.inl ⟨rfl, rfl⟩)
    · by_cases hu : u = t
      · subst hu
        rw [switch.view_self, view_station hth]
        rfl
      · exact switch.view_other hu
    · obtain ⟨v, hv⟩ := hsum
      exact ⟨v, (switch.outcome (hf.tidy.names.lock _ hmem).1).symm.trans hv⟩
  | begins runs valid stands how deed => exact h.begins hf runs stands how deed
  | resumes runs serves gets woke how deed => exact h.resumes hf runs serves woke how deed

/-- **What reaches a session from outside keeps it coherent.** -/
theorem after {s : Stimulus} (h : m.Coherent) (hf : Fits role m) (hr : m.running = none) (ha : s.Admissible held m) :
    (m.apply s).1.Coherent :=
  apply_cases (P := Loop.Coherent) hf hr ha (Ordered.mono h (fun _ => rfl) rfl (fun _ hs => hs) (.inl ⟨rfl, rfl⟩))
    (Ordered.mono h (fun _ => rfl) rfl (fun _ hs => hs) (.inl ⟨rfl, rfl⟩)) (h.settled hf)
    fun hears => Ordered.mono h (hears.effect.extends.view hf.tidy.sound hears.tidy.sound fun _ => rfl) hears.lock
      (summoned_of_effect hf.tidy hears.effect) hears.desk

end Coherent

theorem IsNew.coherent (h : m.IsNew) : m.Coherent := by
  have hnone : ∀ {t a}, m.view Thread.station t ≠ some a := fun {t a} ha => by
    rw [Machine.view, h.isEmpty.thread?] at ha
    cases ha
  obtain ⟨s, rfl⟩ := h
  refine ⟨fun ht => absurd ht hnone, iff_of_false (by simp) ?_, fun ht => absurd ht hnone,
    fun _ => iff_of_false (by simp) (by simp), fun ht => absurd ht hnone, .nil, fun hmem => by cases hmem⟩
  rintro ⟨t, a, ha, -⟩
  exact hnone ha

end Loop

end DiagnosticsClient
