import DiagnosticsClient.Proofs.Session.Lasting
import DiagnosticsClient.Proofs.Session.Runs
/-
Building, launching, letting go.

Most of what a task does lasts (`begin_lasts`, `resume_lasts`). What does not is
here, case by case: a transport is built (`registerLocked_cases`), it launches a
child (`start_cases`) and becomes the current one (`startResumed_cases`), it is
dismissed (`leaveLocked_cases`, `closeLocked_cases`) and lets its child go
(`endTasks_winds`).
-/
namespace DiagnosticsClient

open Async Async.Machine

/-- A frame in which the holder of the lock changes who is registered, and the current transport. -/
def Frame.isDesk : Frame → Bool
  | .registering _ => true
  | .starting .. => true
  | .leaving _ => true
  | .closing => true
  | _ => false

namespace Loop

variable {m m' m'' : Loop} {t : TransportId} {c : ChildId}

/-- A transport is built. -/
structure Builds (m m' : Loop) : Prop extends Endures m m' where
  built : m'.state.transports.length = m.state.transports.length + 1
  children : m'.state.children.length = m.state.children.length
  drives : ∀ t, m'.state.drives t = m.state.drives t
  succession : Succession m m'

/-- A transport launches a child. -/
structure Launches (t : TransportId) (m m' : Loop) : Prop extends Ages m m' where
  children : m'.state.children.length = m.state.children.length + 1
  self : m'.state.drives t = some m.state.children.length ∧ (m'.state.childTransport t).phase ≠ .idle ∨
    m.state.transports.length ≤ t
  other : ∀ t', t' ≠ t → m'.state.drives t' = m.state.drives t'

/-- A transport lets its child go. -/
structure Clears (t : TransportId) (m m' : Loop) : Prop extends Ages m m' where
  children : m'.state.children.length = m.state.children.length
  self : m'.state.drives t = none
  other : ∀ t', t' ≠ t → m'.state.drives t' = m.state.drives t'

/-! ## Launching and letting go -/

theorem Launches.trans (h : Launches t m m') (h' : Lasts m' m'') : Launches t m m'' where
  toAges := h.toAges.trans h'.toAges
  children := h'.children.trans h.children
  self := h.self.imp_left fun hself => ⟨(h'.drives t).trans hself.1, fun hi => hself.2 (h'.begun hi)⟩
  other t' ht := (h'.drives t').trans (h.other t' ht)

theorem addChild_ages (m : Loop) (manner : Manner) : Ages m (m.addChild manner).1 ∧
    (m.addChild manner).1.state.children.length = m.state.children.length + 1 := by
  have hlength : (m.addChild manner).1.state.children.length = m.state.children.length + 1 := List.length_append
  exact ⟨⟨⟨by omega, id, fun hd => hd.append _, List.prefix_refl _, id, rfl, id⟩, rfl, .stays rfl id⟩, hlength⟩

theorem launch_ages (m : Loop) : Ages m m.launch.1 ∧ m.launch.1.state.transports = m.state.transports ∧
    match m.launch.2 with
    | .error _ => m.launch.1.state.children.length = m.state.children.length
    | .ok c => c = m.state.children.length ∧ m.launch.1.state.children.length = m.state.children.length + 1 := by
  have hnext : ∀ launches, Lasts m ((m.modify fun s => { s with launches }).record
      (.launched ⟨m.state.settings.command, m.state.settings.workingDirectory, m.state.settings.«variables»⟩)) :=
    fun launches => (Lasts.modify m (fun s => { s with launches }) rfl rfl rfl rfl).trans (.record _ _)
  unfold Loop.launch
  dsimp only
  split
  · exact ⟨(hnext _).toAges, rfl, rfl⟩
  · obtain ⟨hages, hlength⟩ := addChild_ages _ _
    exact ⟨(hnext _).toAges.trans hages, rfl, rfl, hlength⟩

/-- A transport that is not rehearsed takes a child that was launched. -/
theorem Launches.takes (h : Ages m m') (hc : m'.state.children.length = m.state.children.length + 1)
    (ht : m'.state.transports = m.state.transports) (hchild : ∀ r, m.state.transports[t]? ≠ some (.rehearsed r))
    {k : ChildTransport → ChildTransport}
    (hk : ∀ x, (k x).child = some m.state.children.length ∧ (k x).phase ≠ .idle) :
    Launches t m (m'.modifyTransport t k) := by
  have hcases := fun t' => State.childTransport_modifyChildTransport m'.state t t' k
  refine ⟨h.trans ⟨⟨Nat.le_refl _, fun {t'} hi => ?_, id, List.prefix_refl _, id, rfl, (·.modifyChildTransport t k)⟩,
    List.length_modify _ _ _, .stays rfl id⟩, hc, ?_, fun t' hne => ?_⟩
  · rcases hcases t' with heq | ⟨-, heq⟩
    · exact heq ▸ hi
    · exact absurd (heq ▸ hi) (hk _).2
  · cases hget : m.state.transports[t]? with
    | none => exact .inr (List.getElem?_eq_none_iff.mp hget)
    | some transport =>
      cases transport with
      | rehearsed r => exact absurd hget (hchild r)
      | child x =>
        have hself : (m'.modifyTransport t k).state.childTransport t = k x := by
          simp [modifyTransport, Loop.modify, State.childTransport, State.modifyChildTransport, ht, hget]
        exact .inl ⟨(congrArg ChildTransport.child hself).trans (hk x).1, hself ▸ (hk x).2⟩
  · rcases hcases t' with heq | ⟨rfl, -⟩
    · refine (congrArg ChildTransport.child heq).trans ?_
      simp only [State.drives, State.childTransport, ht]
    · exact absurd rfl hne

/-- A transport is started: a child is launched for it, or none is. -/
theorem start_cases (m : Loop) (t : TransportId) : Lasts m (start t m).1 ∨
    (m.state.childTransport t).phase = .idle ∧ Launches t m (start t m).1 ∧ (start t m).2 = .done (.value .nothing) := by
  have hstopped : ∀ m : Loop, Lasts m (m.setPhase t .stopped) := fun m => .setPhase m t (by intro h; cases h)
  unfold start
  split
  · exact .inl (.startRehearsed m t _)
  · next hchild =>
    unfold startChild
    dsimp only
    split
    · next hphase =>
      split
      · exact .inl (hstopped m)
      · obtain ⟨hages, htransports, hlaunched⟩ := launch_ages m
        split <;> rename_i hm <;> rw [hm] at hages htransports hlaunched
        · next m₁ e =>
          refine .inl ((show Lasts m m₁ from ⟨hages, hlaunched, fun t => ?_⟩).trans (hstopped _))
          simp only [State.drives, State.childTransport, show m₁.state.transports = _ from htransports]
        · next m₁ c =>
          obtain ⟨rfl, hlength⟩ := hlaunched
          have htakes : Launches t m (m₁.modifyTransport t fun x =>
              { x with phase := .running, child := some m.state.children.length }) :=
            .takes hages hlength htransports (fun r hr => hchild r hr) fun x => ⟨rfl, by intro h; cases h⟩
          refine .inr ⟨hphase, ?_, rfl⟩
          refine (((htakes.trans (.spawn _ ?_)).trans (.spawn _ ?_)).trans (.modifyTransport _ t ?_)).trans (.note _ _ _)
          · exact fun _ h => by cases h
          · exact fun _ h => by cases h
          · exact fun _ => ⟨rfl, id⟩
    · exact .inl (.refl m)

theorem start_ages (m : Loop) (t : TransportId) : Ages m (start t m).1 := by
  rcases start_cases m t with h | ⟨-, h, -⟩
  · exact h.toAges
  · exact h.toAges

/-- What is left to do when a transport is stopped: to wait for one of its tasks, or to have its child end. -/
inductive Winds (t : TransportId) (m : Loop) : Loop × Move → Prop
  | waits {m' : Loop} {f : FutureId} {rest : List TaskId} (h : Lasts m m') : Winds t m (m', .await f (.ending t rest))
  | nobody {m' : Loop} (h : Clears t m m') (hc : ∀ c, m.state.drives t = some c → m'.state.IsDead c) :
      Winds t m (m', .done (.value .nothing))
  | terminates {m' : Loop} {c : ChildId} {limit : Seconds} (h : Clears t m m') (hc : m.state.drives t = some c)
      (ha : ¬ m.state.IsDead c) : Winds t m (m', .call (.within limit (.awaitExit c)) (.terminating c))

theorem Clears.trans (h : Clears t m m') (h' : Lasts m' m'') : Clears t m m'' where
  toAges := h.toAges.trans h'.toAges
  children := h'.children.trans h.children
  self := (h'.drives t).trans h.self
  other t' ht := (h'.drives t').trans (h.other t' ht)

/-- A transport forgets its child. -/
theorem Clears.forget (m : Loop) (t : TransportId) : Clears t m (m.modifyTransport t fun x => { x with child := none }) := by
  have hcases := fun t' => State.childTransport_modifyChildTransport m.state t t' fun x => { x with child := none }
  refine ⟨⟨⟨Nat.le_refl _, fun {t'} hi => ?_, id, List.prefix_refl _, id, rfl, (·.modifyChildTransport t _)⟩,
    List.length_modify _ _ _, .stays rfl id⟩, rfl, ?_, fun t' hne => ?_⟩
  · rcases hcases t' with heq | ⟨rfl, heq⟩
    · exact heq ▸ hi
    · exact (congrArg ChildTransport.phase heq).symm.trans hi
  · unfold State.drives State.childTransport modifyTransport Loop.modify State.modifyChildTransport
    cases hget : m.state.transports[t]? with
    | none => simp [hget]
    | some transport => cases transport <;> simp [hget]
  · rcases hcases t' with heq | ⟨rfl, -⟩
    · exact congrArg ChildTransport.child heq
    · exact absurd rfl hne

theorem endTasks_winds (m : Loop) (t : TransportId) (tasks : List TaskId) : Winds t m (endTasks t tasks m) := by
  induction tasks with
  | nil =>
    let m₁ := m.modifyTransport t fun transport => { transport with reader := none, drain := none }
    have hidle : Lasts m m₁ := .modifyTransport m t fun _ => ⟨rfl, id⟩
    unfold endTasks
    dsimp only
    split
    · next hnone =>
      have hclears : Clears t m m₁ := ⟨hidle.toAges, hidle.children, hnone, fun t' _ => hidle.drives t'⟩
      refine .nobody hclears fun c hc => ?_
      rw [← hidle.drives t, State.drives, hnone] at hc
      cases hc
    · next c hsome =>
      have hdrives : m.state.drives t = some c := (hidle.drives t).symm.trans hsome
      have hforget := Clears.forget m₁ t
      have hclears : Clears t m (m₁.modifyTransport t fun x => { x with child := none }) :=
        ⟨hidle.toAges.trans hforget.toAges, hforget.children.trans hidle.children, hforget.self,
          fun t' ht => (hforget.other t' ht).trans (hidle.drives t')⟩
      have hclosed := hclears.trans (.modifyChild _ c (k := fun child => { child with inputClosed := true }) fun _ h => h)
      split
      · next halive =>
        refine .terminates (hclosed.trans (.signal _ c .terminate)) hdrives fun hdead => ?_
        have hdead' := hclosed.dead hdead
        unfold State.IsDead at hdead'
        rw [halive] at hdead'
        cases hdead'
      · next hdead =>
        refine .nobody hclosed fun c' hc' => ?_
        rw [hdrives] at hc'
        cases hc'
        exact Bool.eq_false_iff.mpr hdead
  | cons u rest ih =>
    unfold endTasks
    split
    · exact ih
    · exact .waits (.cancelTask m u)

theorem Winds.ages {s : Loop × Move} (h : Winds t m s) : Ages m s.1 := by
  cases h with
  | waits h => exact h.toAges
  | nobody h => exact h.toAges
  | terminates h => exact h.toAges

/-! ## Whatever a task does -/

/-- What a routine begins with lasts, but for starts and the end of stops. -/
theorem begin_lasts {r : Routine} {roots : TaskId → Option Routine} (hv : r.Valid roots) (hs : ∀ t, r ≠ .start t)
    (he : ∀ t tasks, r ≠ .endTasks t tasks) : Lasts m (begin r m).1 := by
  cases r with
  | acquireLock =>
    simp only [begin, acquire]
    split
    · exact .modifyLock m fun lock => { lock with held := true }
    · exact (Lasts.future m).trans (Lasts.modifyLock m.future.1 fun lock => { lock with waiters := lock.waiters ++ [m.future.2] })
  | openListener l =>
    simp only [begin, openListener]
    split
    · exact .refl m
    · exact .modifyListener m l _
  | register l => exact .refl m
  | closeListener l => exact .modifyListener m l _
  | closeSession => exact .refl m
  | next l =>
    simp only [begin, next]
    split
    · exact .refl m
    · split <;> exact .refl m
  | take l =>
    simp only [begin, take]
    split
    · exact Lasts.modifyListener m l _
    · exact (Lasts.future m).trans
        (.modifyListener m.future.1 l fun listener => { listener with getters := listener.getters ++ [m.future.2] })
  | collect l => exact .refl m
  | visit count => exact .listen m
  | request file limit =>
    have hboth := (Lasts.issueSeq m).trans (.issueSeq _)
    cases limit <;> exact hboth
  | exchange opening asking => exact .listen m
  | within limit inner => exact .within m limit hv
  | cancelAndWait u => exact .cancelAndWait m u
  | start t => exact absurd rfl (hs t)
  | stop t => exact .stop m t
  | endTasks t tasks => exact absurd rfl (he t tasks)
  | awaitExit c => exact .awaitExit m c
  | readOutput t c => exact .readChunks t c _ _ m
  | drainErrors c => exact .drainLines c _ m
  | checkFile => exact .refl m
  | checkFiles files context limit =>
    refine .spawnGroup m fun r hr t heq => ?_
    obtain ⟨file, -, rfl⟩ := List.mem_map.mp hr
    cases heq

theorem begin_ages {r : Routine} {roots : TaskId → Option Routine} (hv : r.Valid roots) : Ages m (begin r m).1 := by
  by_cases hs : ∃ t, r = .start t
  · obtain ⟨t, rfl⟩ := hs
    exact start_ages m t
  · by_cases he : ∃ t tasks, r = .endTasks t tasks
    · obtain ⟨t, tasks, rfl⟩ := he
      exact (endTasks_winds m t tasks).ages
    · exact (begin_lasts hv (fun t h => hs ⟨t, h⟩) fun t tasks h => he ⟨t, tasks, h⟩).toAges

/-- What a frame goes on with lasts, but for those in which the holder of the lock changes who is registered. -/
theorem resume_lasts {F : Frame} (o : Ending) (hF : F.isDesk = false) : Lasts m (resume F o m).1 := by
  cases F with
  | registering l => cases hF
  | starting l t => cases hF
  | leaving l => cases hF
  | closing => cases hF
  | locking w =>
    have hleave := Lasts.modifyLock m fun lock => { lock with waiters := lock.waiters.erase w }
    simp only [resume, acquireResumed]
    split
    · exact hleave.trans (.modifyLock _ fun lock => { lock with held := true })
    · dsimp only
      split
      · exact hleave
      · exact hleave.trans (.wakeLock _)
  | opening l =>
    simp only [resume, openResumed]
    split
    · exact .refl m
    · exact .modifyListener m l _
  | releasing => exact .releaseLock m
  | receiving l =>
    simp only [resume, nextResumed]
    split
    · exact .refl m
    · exact .modifyListener m l _
    · exact .refl m
  | getting l getter =>
    simp only [resume, takeResumed]
    split
    · exact .refl m
    · have hleave := (Lasts.settle m getter .cancelled).trans
        (.modifyListener _ l fun listener => { listener with getters := listener.getters.erase getter })
      dsimp only
      split
      · exact hleave.trans (.wakeGetter _ l)
      · exact hleave
  | collecting l taken =>
    simp only [resume, collectResumed]
    split <;> exact .refl m
  | visiting l count =>
    simp only [resume, visitOpened, visitOn]
    split
    · split <;> exact .refl m
    · exact .refl m
  | visited l count taken =>
    simp only [resume, visitResumed, visitOn]
    split
    · split <;> exact .refl m
    · exact .refl m
  | finishing ending =>
    simp only [resume, cleanedUp]
    split <;> exact .refl m
  | requesting file seq limit =>
    simp only [resume, requestResumed]
    split <;> exact .refl m
  | introducing l opening asking =>
    simp only [resume, exchangeOpened]
    split
    · have hsend := Lasts.sendAll m [opening, asking]
      split <;> rename_i hm <;> rw [hm] at hsend <;> exact hsend
    · exact .refl m
  | expecting l asking =>
    simp only [resume, exchangeResumed]
    split
    · split
      · exact .note m _ _
      · exact .refl m
    · exact .refl m
    · exact .refl m
    · exact .refl m
  | timing u w => exact .timeResumed m u w o
  | overdue u =>
    simp only [resume, overdueResumed]
    split <;> exact .refl m
  | lapsed u w =>
    simp only [resume, lapsedResumed]
    split <;> exact .of_tasks rfl rfl
  | abandoned w =>
    simp only [resume, abandonedResumed]
    split <;> exact .of_tasks rfl rfl
  | cancelWaiting u w => exact .of_tasks rfl rfl
  | gated t call fails w => exact .gateResumed m t call fails w o
  | ending t tasks => exact .endResumed m t tasks o
  | terminating c => exact .terminateResumed m c o
  | killing c => exact .killResumed m c o
  | exiting => exact .refl m
  | reading t c decoder => exact .readResumed m t c decoder o
  | outputEnded t c pending => exact .outputResumed m t c pending o
  | draining c => exact .drainResumed m c o
  | answered file context =>
    simp only [resume, answerResumed]
    split
    · split
      · exact .refl m
      · exact ((Lasts.note m _ _).trans (.future _)).trans (.of_tasks rfl rfl)
    · exact .refl m
  | readSource file context diagnostics =>
    simp only [resume, sourceResumed]
    split <;> exact .refl m
  | gathered members => exact .refl m

/-! ## Whatever reaches the session -/

theorem withTransport_lasts (m : Loop) (t : TransportId) {k : Loop → Loop × Reaction} (hk : Lasts m (k m).1) :
    Lasts m (m.withTransport t k).1 := by
  unfold Loop.withTransport
  split
  · exact hk
  · exact .refl m

theorem withChild_lasts (m : Loop) (c : ChildId) {k : Loop → Loop × Reaction} (hk : Lasts m (k m).1) :
    Lasts m (m.withChild c k).1 := by
  unfold Loop.withChild
  split
  · exact hk
  · exact .refl m

theorem written_lasts (m : Loop) (c : ChildId) (pipe : Pipe) (octets : Bytes) : Lasts m (m.written c pipe octets).1 := by
  unfold Loop.written
  split
  · next h => exact .feedStream h
  · exact .refl m

/-- What reaches a session from outside lasts. -/
theorem apply_lasts {s : Stimulus} {held : List ListenerId} (ha : s.Admissible held m) : Lasts m (m.apply s).1 := by
  cases s with
  | ask r => exact .spawn m fun t h => by rw [h] at ha; cases ha.1
  | cancel u => exact .cancelTask m u
  | advance time => exact .of_tasks rfl rfl
  | listen => exact .listen m
  | issueSeq => exact .issueSeq m
  | send r =>
    simp only [apply, reacted_fst]
    exact .send m r
  | write t r =>
    refine withTransport_lasts m t ?_
    rw [reacted_fst]
    exact .write m t r
  | writeValue t v =>
    refine withTransport_lasts m t ?_
    have hline := Lasts.writeLine m t (encodeValue m.state.settings.encoding v)
    split <;> rename_i hm <;> rw [hm] at hline <;> exact hline
  | receive t v =>
    refine withTransport_lasts m t ?_
    rw [reacted_fst]
    exact .receive m t v
  | report t e => exact withTransport_lasts m t (.report m t e)
  | openGate t call => exact withTransport_lasts m t (.openGate m t call)
  | output c octets => exact withChild_lasts m c (written_lasts m c .output octets)
  | errors c octets => exact withChild_lasts m c (written_lasts m c .errors octets)
  | exit c code => exact withChild_lasts m c (.exitChild m c code)
  | closeInput c => exact withChild_lasts m c (.modifyChild m c fun _ h => h)
  | breakOutput c message => exact withChild_lasts m c (.breakStream m c .output _)

/-! ## What the holder of the lock does -/

theorem addTransport_builds (m : Loop) : Builds m m.addTransport.1 ∧ m.addTransport.2 = m.state.transports.length := by
  have hadd : ∀ {m₁ : Loop} (x : Transport), (∀ c, x = .child c → c = {}) → x.medium = m.state.medium → Lasts m m₁ →
      Builds m (m₁.modify fun s => { s with transports := s.transports ++ [x] }) := by
    intro m₁ x hx hmedium h
    have hsame : ∀ t, ({ m₁.state with transports := m₁.state.transports ++ [x] } : State).childTransport t =
        m₁.state.childTransport t := by
      intro t
      unfold State.childTransport
      dsimp only
      rcases Nat.lt_trichotomy t m₁.state.transports.length with hlt | rfl | hgt
      · rw [List.getElem?_append_left hlt]
      · cases x with
        | child c => simp [hx c rfl]
        | rehearsed r => simp
      · rw [List.getElem?_eq_none (by simp; omega), List.getElem?_eq_none (Nat.le_of_lt hgt)]
    have huniform : m₁.state.Uniform → ({ m₁.state with transports := m₁.state.transports ++ [x] } : State).Uniform := by
      intro hu y hy
      rcases List.mem_append.mp hy with hy | hy
      · exact hu y hy
      · exact (congrArg Transport.medium (List.mem_singleton.mp hy)).trans
          (hmedium.trans (congrArg Setup.medium h.setup).symm)
    refine ⟨h.toEndures.trans ⟨Nat.le_refl _, fun {t} hi => hsame t ▸ hi, id, List.prefix_refl _, id, rfl, huniform⟩, ?_,
      h.children, fun t => (congrArg ChildTransport.child (hsame t)).trans (h.drives t), ?_⟩
    · exact List.length_append.trans (congrArg (· + 1) h.built)
    · exact h.succession.trans (.stays rfl id) (List.prefix_refl _) h.routine id
  unfold Loop.addTransport
  dsimp only
  split
  · next hm => exact ⟨hadd (.child {}) (fun c hc => by cases hc; rfl) hm.symm (.refl m), rfl⟩
  · next hm => exact ⟨hadd (.rehearsed _) (fun c hc => by cases hc) hm.symm (.modify m (fun s => { s with rehearsals := _ }) rfl rfl rfl rfl), rfl⟩

@[simp] theorem releaseLock_routine? (m : Loop) (u : TaskId) : m.releaseLock.routine? u = m.routine? u := by
  unfold Machine.routine? releaseLock wakeLock
  split
  · rfl
  · rw [settle_tasks]
    rfl

/-- The holder of the lock changes who is registered, and gives the lock up. -/
theorem Rests.desk (m : Loop) (registered : List ListenerId → List ListenerId)
    (current : Option TransportId → Option TransportId) :
    Rests m (m.modify fun s =>
      { s with registered := registered s.registered, current := current s.current }).releaseLock :=
  (Rests.modifyDesk m registered current).trans (Lasts.releaseLock _).rests

/-- The same, while the current transport stays. -/
theorem Lasts.desk (m : Loop) (registered : List ListenerId → List ListenerId) :
    Lasts m (m.modify fun s => { s with registered := registered s.registered }).releaseLock := by
  refine .of_rests (.desk m registered id) (.stays ?_ fun {u t} h => ?_)
  · rw [releaseLock_state]
    rfl
  · rwa [releaseLock_routine?] at h

/-- The current transport is dismissed: whoever holds the lock goes on to stop it. -/
structure Dismisses (m : Loop) (t : TransportId) (s : Loop × Move) : Prop where
  rests : Rests m s.1
  was : m.state.current = some t
  gone : s.1.state.current = none
  quits : ∀ {u t}, s.1.routine? u = some (.stop t) → m.routine? u = some (.stop t)
  move : s.2 = .call (.stop t) .releasing

/-- Who registers a listener builds a transport, if there is none. -/
theorem registerLocked_cases (m : Loop) (l : ListenerId) (o : Ending) :
    (Lasts m (registerLocked l o m).1 ∧ ∃ o', (registerLocked l o m).2 = .done o') ∨
      Builds m (registerLocked l o m).1 ∧ m.state.current = none ∧ (registerLocked l o m).2 =
        .call (.start m.state.transports.length) (.starting l m.state.transports.length) := by
  unfold registerLocked
  split
  · have hreg := Lasts.modify m (fun s => { s with registered := s.registered ++ [l] }) rfl rfl rfl rfl
    dsimp only
    split
    · exact .inl ⟨.desk m (· ++ [l]), _, rfl⟩
    · next hnone =>
      obtain ⟨hbuilds, ht⟩ := addTransport_builds (m.modify fun s => { s with registered := s.registered ++ [l] })
      refine .inr ⟨?_, hnone, by rw [ht]; rfl⟩
      exact ⟨hreg.toEndures.trans hbuilds.toEndures, hbuilds.built, hbuilds.children, hbuilds.drives,
        hreg.succession.trans hbuilds.succession hbuilds.transcript hreg.routine hbuilds.routine⟩
  · exact .inl ⟨.refl m, _, rfl⟩

/-- A transport that was started becomes the current one. -/
theorem startResumed_cases (m : Loop) (l : ListenerId) (t : TransportId) (o : Ending) :
    ∃ o', (startResumed l t o m).2 = .done o' ∧
      ((∃ v, o = .value v) ∧ Rests m (startResumed l t o m).1 ∧ (startResumed l t o m).1.state.current = some t ∧
          (∀ {u t'}, (startResumed l t o m).1.routine? u = some (.stop t') → m.routine? u = some (.stop t')) ∨
        (∀ v, o ≠ .value v) ∧ Lasts m (startResumed l t o m).1) := by
  unfold startResumed
  split
  · next v =>
    refine ⟨_, rfl, .inl ⟨⟨v, rfl⟩, .desk m id fun _ => some t, ?_, fun {u t'} h => ?_⟩⟩
    · rw [releaseLock_state]
      rfl
    · rwa [releaseLock_routine?] at h
  · next hne => exact ⟨_, rfl, .inr ⟨fun v h => hne v h, .desk m (·.erase l)⟩⟩

/-- Who leaves dismisses the transport, if nobody else is left. -/
theorem leaveLocked_cases (m : Loop) (l : ListenerId) (o : Ending) :
    (Lasts m (leaveLocked l o m).1 ∧ ∃ o', (leaveLocked l o m).2 = .done o') ∨ ∃ t, Dismisses m t (leaveLocked l o m) := by
  unfold leaveLocked
  split
  · split
    · dsimp only
      split
      · next t _ ht =>
        have hnote := Lasts.note (m.modify fun s => { s with registered := s.registered.erase l, current := none }) .debug
          (lit "Last listener left, stopping tsserver")
        exact .inr ⟨t, (Rests.modifyDesk m (·.erase l) fun _ => none).trans hnote.rests, ht, rfl, id, rfl⟩
      · exact .inl ⟨.desk m (·.erase l), _, rfl⟩
    · exact .inl ⟨.releaseLock m, _, rfl⟩
  · exact .inl ⟨.refl m, _, rfl⟩

/-- Who closes the session dismisses the transport, if there is one. -/
theorem closeLocked_cases (m : Loop) (o : Ending) :
    (Lasts m (closeLocked o m).1 ∧ ∃ o', (closeLocked o m).2 = .done o') ∨ ∃ t, Dismisses m t (closeLocked o m) := by
  obtain ⟨hrests, hnone, hn⟩ := Lasts.detachAll m none
  unfold closeLocked
  split
  · dsimp only
    split
    · next t ht => exact .inr ⟨t, hrests, ht, hnone, hn, rfl⟩
    · next ht =>
      refine .inl ⟨.of_rests (hrests.trans (Lasts.releaseLock _).rests) (.stays ?_ fun {u t} h => ?_), _, rfl⟩
      · rw [releaseLock_state]
        exact hnone.trans ht.symm
      · rw [releaseLock_routine?] at h
        exact hn h
  · exact .inl ⟨.refl m, _, rfl⟩

end Loop

end DiagnosticsClient
