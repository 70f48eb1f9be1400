import DiagnosticsClient.Proofs.Session.Threads
/-
What transports and time limits do to a session.

The routines that start, read and stop a transport, and those that limit the
time of another, touch neither the lock nor the listeners. They pass messages
and ends on (`Minor`), which a session hears, or do not even that (`Beside`); and
what they do next fits.
-/
namespace DiagnosticsClient

open Async Async.Machine

/-- The routine that carries out a call of a transport. -/
def Call.routine : Call → TransportId → Routine
  | .start => .start
  | .stop => .stop

namespace Loop

variable {role : FutureId → Role} {K : TaskId → Prop} {S : Routine → Prop} {m m' m'' : Loop} {t : TransportId}
  {f : FutureId} {called : Routine} {s : Loop × Move}

/-- What is done is aside, and what is done next fits. -/
structure Beside (role : FutureId → Role) (K : TaskId → Prop) (S : Routine → Prop) (called : Routine) (m : Loop)
    (s : Loop × Move) : Prop where
  aside : Aside role K S m s.1
  move : ∀ n, MoveFits role s.1 n called s.2

/-- What is done is to pass values on, which a session hears. -/
structure Told (role : FutureId → Role) (K : TaskId → Prop) (S : Routine → Prop) (m m' : Loop) : Prop where
  works : Works role K S m m'
  hears : m.state.receiver = .session → ∃ ms, Hears role K S ms none m m'

/-- What is done is to pass values on and then perhaps an end, which a session hears. -/
structure Tells (role : FutureId → Role) (K : TaskId → Prop) (S : Routine → Prop) (m m' : Loop) : Prop where
  works : Works role K S m m'
  hears : m.state.receiver = .session → ∃ ms e, Hears role K S ms e m m'

/-- What is done is to pass something on, and what is done next fits. -/
structure Minor (role : FutureId → Role) (K : TaskId → Prop) (S : Routine → Prop) (called : Routine) (m : Loop)
    (s : Loop × Move) : Prop extends Tells role K S m s.1 where
  move : ∀ n, MoveFits role s.1 n called s.2

theorem Aside.told (h : Aside role K S m m') : Told role K S m m' := ⟨h.works, fun _ => ⟨_, h.hears⟩⟩

theorem Told.tells (h : Told role K S m m') : Tells role K S m m' :=
  ⟨h.works, fun hr => have ⟨_, hears⟩ := h.hears hr; ⟨_, _, hears⟩⟩

theorem Told.trans (h : Told role K S m m') (h' : Told role K S m' m'') : Told role K S m m'' :=
  ⟨h.works.trans h'.works, fun hr =>
    have ⟨_, hears⟩ := h.hears hr
    have ⟨_, hears'⟩ := h'.hears (h.works.receiver.trans hr)
    ⟨_, hears.trans hears'⟩⟩

theorem Tells.after (h : Told role K S m m') (h' : Tells role K S m' m'') : Tells role K S m m'' :=
  ⟨h.works.trans h'.works, fun hr =>
    have ⟨_, hears⟩ := h.hears hr
    have ⟨_, _, hears'⟩ := h'.hears (h.works.receiver.trans hr)
    ⟨_, _, hears.trans hears'⟩⟩

theorem Tells.aside (h : Tells role K S m m') (h' : Aside role K S m' m'') : Tells role K S m m'' :=
  ⟨h.works.trans h'.works, fun hr => have ⟨_, _, hears⟩ := h.hears hr; ⟨_, _, hears.aside h'⟩⟩

theorem Beside.after (h : Aside role K S m m') (h' : Beside role K S called m' s) : Beside role K S called m s :=
  ⟨h.trans h'.aside, h'.move⟩

theorem Beside.minor (h : Beside role K S called m s) : Minor role K S called m s := ⟨h.aside.told.tells, h.move⟩

theorem Minor.after (h : Told role K S m m') (h' : Minor role K S called m' s) : Minor role K S called m s :=
  ⟨.after h h'.toTells, h'.move⟩

theorem Minor.of_tells (h : Tells role K S m m') (h' : Beside role K S called m' s) : Minor role K S called m s :=
  ⟨h.aside h'.aside, h'.move⟩

theorem Minor.does (h : Minor role m.Cancellable (·.isOwn = true) called m s) : Does role role m called s :=
  .of_works h.works (h.move _)

/-- An end that gives nothing special. -/
theorem Beside.done (h : Aside role K S m m') {o : Ending} (hg : ∀ v, o = .value v → called.Gives m'.state v) :
    Beside role K S called m (m', .done o) :=
  ⟨h, fun _ => .done hg⟩

theorem MoveFits.await_other {n : Nat} {F : Frame} (hs : F.Serves m.routine? called) (ha : F.Awaits role m f)
    (hf : role f = .other) : MoveFits role m n called (.await f F) :=
  .await hs ha fun hne => absurd hf hne

/-! ## What transports report -/

theorem receive_told (h : m.Tidy role) (t : TransportId) (v : Json) : Told role K S m (m.receive t v).1 := by
  refine ⟨?_, fun hr => ⟨_, receive_hears h hr t v⟩⟩
  cases hr : m.state.receiver with
  | session => exact (receive_hears h hr t v).works
  | watcher =>
    unfold receive
    rw [hr]
    dsimp only
    split
    · exact .refl h
    · exact (record_acts h _).works rfl

/-- Who only watches makes nothing of the end. -/
theorem report_watcher (hr : m.state.receiver = .watcher) (t : TransportId) (e : Option ServerError) :
    m.report t e = m.record (.reported t e) := by
  unfold report
  dsimp only
  rw [show (m.record (.reported t e)).state.receiver = .watcher from hr]

theorem report_tells (h : m.Tidy role) (hs : ∀ t, S (.stop t)) (t : TransportId) (e : Option ServerError) :
    Tells role K S m (m.report t e) := by
  refine ⟨?_, fun hr => ⟨_, _, report_hears h hr hs t e⟩⟩
  cases hr : m.state.receiver with
  | session => exact (report_hears h hr hs t e).works
  | watcher =>
    rw [report_watcher hr]
    exact (record_acts h _).works rfl

/-! ## Rehearsed transports -/

theorem Tidy.gate_waiter (h : m.Tidy role) {call : Call} (hf : f ∈ (m.gate t call).waiters) : m.HasRole role .other f := by
  have hnames : (Transport.rehearsed (m.state.rehearsedTransport t)).Names (m.HasRole role .other) m.IsReader := by
    unfold State.rehearsedTransport
    split
    · next r hr => exact h.names.transports _ (List.mem_of_getElem? hr)
    · exact ⟨by simp, by simp⟩
  cases call with
  | start => exact hnames.1 f hf
  | stop => exact hnames.2 f hf

theorem Aside.modifyGate (h : m.Tidy role) (t : TransportId) (call : Call) {k : Gate → Gate}
    (hc : ∀ gate : Gate, ∀ f ∈ (k gate).waiters, f ∈ gate.waiters ∨ m.HasRole role .other f) :
    Aside role K S m (m.modifyGate t call k) := by
  refine .modify h _ rfl id (h.names.modifyTransports t fun transport _ hnames => ?_)
  cases transport with
  | child c => exact hnames
  | rehearsed r =>
    cases call with
    | start => exact ⟨fun f hf => (hc _ f hf).elim (hnames.1 f) id, hnames.2⟩
    | stop => exact ⟨hnames.1, fun f hf => (hc _ f hf).elim (hnames.2 f) id⟩

theorem Aside.openGate (h : m.Tidy role) (t : TransportId) (call : Call) : Aside role K S m (m.openGate t call) := by
  have hopen := Aside.modifyGate (K := K) (S := S) h t call
    (k := fun gate => { gate with isOpen := true }) fun gate f hf => .inl hf
  exact hopen.trans (.settleAll hopen.tidy _ (fun f hf => (h.gate_waiter hf).extends hopen.effect.extends) _)

theorem gives_of_call (s : State) (call : Call) (v : Value) : (call.routine t).Gives s v := by
  cases call <;> trivial

theorem concludeCall_beside (h : m.Tidy role) (t : TransportId) (call : Call) (fails : Bool) :
    Beside role K S (call.routine t) m (m.concludeCall t call fails) := by
  unfold concludeCall
  split
  · exact .done (.refl h) fun v _ => gives_of_call _ call v
  · exact .done (.record h rfl) fun v _ => gives_of_call _ call v

theorem passGate_beside (h : m.Tidy role) (t : TransportId) (call : Call) (fails : Bool) :
    Beside role K S (call.routine t) m (m.passGate t call fails) := by
  unfold passGate
  split
  · exact concludeCall_beside h t call fails
  · obtain ⟨hnew, hrole⟩ := Aside.future (K := K) (S := S) h
    have hgate := Aside.modifyGate (K := K) (S := S) hnew.tidy t call
      (k := fun gate => { gate with waiters := gate.waiters ++ [m.future.2] }) fun gate f hf => by
        rcases List.mem_append.mp hf with hf | hf
        · exact .inl hf
        · exact .inr (List.mem_singleton.mp hf ▸ hrole)
    refine ⟨hnew.trans hgate, fun n => .await_other ?_ (.gated t call fails _ (hrole.extends hgate.effect.extends)) hrole.2⟩
    cases call with
    | start => exact .gatedStart t fails _
    | stop => exact .gatedStop t fails _

theorem gateResumed_beside (h : m.Tidy role) (t : TransportId) (call : Call) (fails : Bool) (waiter : FutureId)
    (o : Ending) : Beside role K S (call.routine t) m (gateResumed t call fails waiter o m) := by
  have hgate := Aside.modifyGate (K := K) (S := S) h t call
    (k := fun gate => { gate with waiters := gate.waiters.erase waiter }) fun gate f hf => .inl (List.mem_of_mem_erase hf)
  unfold gateResumed
  dsimp only
  split
  · exact .after hgate (concludeCall_beside hgate.tidy t call fails)
  · exact .done hgate fun v _ => gives_of_call _ call v

theorem rehearse_beside (h : m.Tidy role) (t : TransportId) (call : Call) (conduct : Conduct) :
    Beside role K S (call.routine t) m (m.rehearse t call conduct) := by
  cases conduct with
  | succeeds => exact concludeCall_beside h t call false
  | fails => exact concludeCall_beside h t call true
  | timesOut => exact .done (.refl h) fun v hv => by cases hv
  | waits => exact passGate_beside h t call false
  | waitsAndFails => exact passGate_beside h t call true

/-! ## Starting -/

theorem startRehearsed_minor (h : m.Tidy role) (hs : ∀ t, S (.stop t)) (t : TransportId) (rehearsal : Rehearsal) :
    Minor role K S (.start t) m (startRehearsed t rehearsal m) := by
  have hcalled := (Aside.record (K := K) (S := S) h (e := .called t .start) rfl).told
  -- whether or not it has said something
  have hrest : ∀ greeted, Told role K S m greeted → Minor role K S (.start t) m
      ((if rehearsal.endsAtStart then greeted.report t none else greeted).rehearse t .start rehearsal.start) := by
    intro greeted hgreet
    split
    · have hreport := report_tells (K := K) (S := S) hgreet.works.tidy hs t none
      exact .of_tells (.after hgreet hreport) (rehearse_beside hreport.works.tidy t .start _)
    · exact .of_tells hgreet.tells (rehearse_beside hgreet.works.tidy t .start _)
  unfold startRehearsed
  cases rehearsal.greeting with
  | none => exact hrest _ hcalled
  | some v => exact hrest _ (hcalled.trans (receive_told hcalled.works.tidy t v))

theorem Aside.modifyTransport (h : m.Tidy role) (t : TransportId) {k : ChildTransport → ChildTransport}
    (hr : ∀ c : ChildTransport, ∀ u ∈ (k c).reader, u ∈ c.reader ∨ m.IsReader u)
    (hd : ∀ c : ChildTransport, ∀ u ∈ (k c).drain, u ∈ c.drain ∨ m.IsReader u) :
    Aside role K S m (m.modifyTransport t k) := by
  refine .modify h _ rfl id (h.names.modifyTransports t fun transport _ hnames => ?_)
  cases transport with
  | child c => exact ⟨fun u hu => (hr c u hu).elim (hnames.1 u) id, fun u hu => (hd c u hu).elim (hnames.2 u) id⟩
  | rehearsed r => exact hnames

theorem Aside.setPhase (h : m.Tidy role) (t : TransportId) (phase : Phase) :
    Aside role K S m (m.setPhase t phase) :=
  .modifyTransport h t (fun _ _ hu => .inl hu) fun _ _ hu => .inl hu

/-- A new task is aside. -/
theorem Aside.spawn (h : m.Tidy role) {r : Routine} (hr : S r) :
    Aside role K S m (m.spawn r).1 ∧ (m.spawn r).1.routine? (m.spawn r).2 = some r := by
  refine ⟨.of_effect h (.single (.spawn m hr)) rfl, ?_⟩
  change (m.spawn r).1.routine? m.tasks.size = some r
  simp [routine?, getElem?_spawn]

theorem startChild_beside (h : m.Tidy role) (hs : ∀ {r}, r.isOwn = true → S r) (t : TransportId) :
    Beside role K S (.start t) m (startChild t m) := by
  have hgives : ∀ {s : State} (o : Ending) v, o = .value v → (Routine.start t).Gives s v := fun _ _ _ => trivial
  unfold startChild
  dsimp only
  split
  · split
    · exact .done (.setPhase h t .stopped) (hgives _)
    · have hlaunch := Aside.launch (K := K) (S := S) h
      split
      · next hm =>
        rw [hm] at hlaunch
        exact .done (hlaunch.trans (.setPhase hlaunch.tidy t .stopped)) (hgives _)
      · next m₁ c hm =>
        rw [hm] at hlaunch
        have hphase := Aside.modifyTransport (K := K) (S := S) hlaunch.tidy t
          (k := fun transport => { transport with phase := .running, child := some c }) (fun _ _ hu => .inl hu)
          fun _ _ hu => .inl hu
        obtain ⟨hreader, hread⟩ := Aside.spawn (K := K) hphase.tidy (hs (r := .readOutput t c) rfl)
        obtain ⟨hdrain, hdrained⟩ := Aside.spawn (K := K) hreader.tidy (hs (r := .drainErrors c) rfl)
        have hnamed := Aside.modifyTransport (K := K) (S := S) hdrain.tidy t
          (k := fun transport => { transport with reader := some _, drain := some _ })
          (fun _ u hu => .inr (Option.some.inj hu ▸ IsReader.keeps ⟨_, hread, rfl⟩ (keeps_of_extends hdrain.effect.extends)))
          fun _ u hu => .inr (Option.some.inj hu ▸ ⟨_, hdrained, rfl⟩)
        have hall := (((hlaunch.trans hphase).trans hreader).trans hdrain).trans hnamed
        exact .done (hall.trans (.note hnamed.tidy _ _)) (hgives _)
  · exact .done (.refl h) (hgives _)

theorem start_minor (h : m.Tidy role) (hs : ∀ {r : Routine}, r.isOwn = true → S r) (t : TransportId) :
    Minor role K S (.start t) m (start t m) := by
  unfold start
  split
  · exact startRehearsed_minor h (fun _ => hs rfl) t _
  · exact (startChild_beside h hs t).minor

/-! ## Waiting for a child -/

theorem awaitExit_effect {may : Licence Routine} (m : Loop) (c : ChildId) : Effect may m (awaitExit c m).1 := by
  unfold awaitExit
  split
  · exact .refl
  · exact .tail (.single (.newFuture m)) (.share _ _)

theorem awaitExit_heard (m : Loop) (c : ChildId) : Heard [] none m (awaitExit c m).1 := by
  unfold awaitExit
  split <;> exact .of_core rfl

/-- Who waits for the end of a child is given its code at once, or waits for a future that stands for it. -/
theorem awaitExit_does (h : m.Tidy role) (c : ChildId) : ∃ role', Does role role' m (.awaitExit c) (awaitExit c m) := by
  unfold awaitExit
  split
  · next code hcode =>
    refine ⟨role, .of_works (.refl h) (.done fun _ _ => ?_)⟩
    change Child.isAlive _ = false
    rw [Child.isAlive, hcode]
    rfl
  · obtain ⟨htidy, hrole⟩ := h.assign (.exit c)
    have hwait := Aside.modifyChild (K := m.Cancellable) (S := (·.isOwn = true)) htidy c
      (k := fun child => { child with exitWaiters := child.exitWaiters ++ [m.future.2] }) (fun _ => id) fun child hchild => by
        refine ⟨fun f hf => ?_, hchild.output, hchild.errors⟩
        rcases List.mem_append.mp hf with hf | hf
        · exact hchild.exits f hf
        · exact List.mem_singleton.mp hf ▸ hrole
    refine ⟨_, ⟨?_, hwait.dead, hwait.tidy, agrees_assign _ (Nat.le_refl _), rfl, ?_⟩⟩
    · exact .tail (.single (.newFuture m)) (.share _ _)
    · exact .await (.exiting c) (.exiting ⟨hrole.1, hrole.2⟩) fun _ => Nat.le_refl _

/-- The wait for the end of a child is over. -/
theorem exitResumed_beside (h : m.Tidy role) {c : ChildId} {o : Ending} (hw : ∀ v, o = .value v → m.state.IsDead c) :
    Beside role K S (.awaitExit c) m (m, .done o) :=
  .done (.refl h) hw

/-! ## Reading -/

theorem conclude_tells (h : m.Tidy role) (hs : ∀ t, S (.stop t)) (t : TransportId) (error : Option ServerError) :
    Tells role K S m (m.conclude t error) := by
  unfold conclude
  split
  · have hphase := Aside.setPhase (K := K) (S := S) h t .stopped
    exact .after hphase.told (report_tells hphase.tidy hs t error)
  · exact (Aside.refl h).told.tells

theorem breakOff_minor (h : m.Tidy role) (hs : ∀ t, S (.stop t)) (t : TransportId) (c : ChildId) (failure : Failure) :
    Minor role K S (.readOutput t c) m (m.breakOff t failure) := by
  have hnote := Aside.note (K := K) (S := S) h .error (lit "Read loop error: " ++ failure.message)
  have hend := conclude_tells (K := K) (S := S) hnote.tidy hs t
    (some { message := lit "Error reading from tsserver: " ++ failure.message })
  exact .of_tells (.after hnote.told hend) (.done (.refl hend.works.tidy) fun _ _ => trivial)

theorem receiveAll_told (h : m.Tidy role) (t : TransportId) (vs : List Json) :
    Told role K S m (m.receiveAll t vs).1 := by
  induction vs generalizing m with
  | nil => exact (Aside.refl h).told
  | cons v vs ih =>
    have hone := receive_told (K := K) (S := S) h t v
    unfold receiveAll
    split <;> rename_i hm <;> rw [hm] at hone
    · exact hone.trans (ih hone.works.tidy)
    · exact hone

theorem awaitStream_beside (h : m.Tidy role) (c : ChildId) (pipe : Pipe) {F : Frame}
    (hs : ∀ roots, F.Serves roots called) (ha : ∀ {m : Loop} {f : FutureId}, m.HasRole role .other f → F.Awaits role m f) :
    Beside role K S called m (m.awaitStream c pipe F) := by
  obtain ⟨hnew, hrole⟩ := Aside.future (K := K) (S := S) h
  have hwait := Aside.modifyStream (K := K) (S := S) hnew.tidy c pipe
    (k := fun s => { s with waiter := some m.future.2 }) fun s f hf => .inr (Option.some.inj hf ▸ hrole)
  exact ⟨hnew.trans hwait, fun n => .await_other (hs _) (ha (hrole.extends hwait.effect.extends)) hrole.2⟩

theorem Aside.recordNotes (h : m.Tidy role) (notes : List Note) :
    Aside role K S m (m.modify fun s => notes.foldl (fun s n => s.record (.note n)) s) := by
  have hcore : ∀ s : State, (notes.foldl (fun s n => s.record (.note n)) s).core = s.core ∧
      (notes.foldl (fun s n => s.record (.note n)) s).transports = s.transports ∧
      (notes.foldl (fun s n => s.record (.note n)) s).children = s.children := by
    induction notes with
    | nil => exact fun s => ⟨rfl, rfl, rfl⟩
    | cons n notes ih =>
      intro s
      obtain ⟨hc, ht, hch⟩ := ih (s.record (.note n))
      exact ⟨hc.trans (State.core_record rfl), ht, hch⟩
  obtain ⟨hc, ht, hch⟩ := hcore m.state
  have hlock := congrArg Core.lock hc
  have hlist := congrArg Core.listeners hc
  refine .modify h _ hc (fun {c} hdead => ?_) ⟨ht ▸ h.names.transports, hch ▸ h.names.children,
    fun f hf => h.names.lock f (by rw [← show _ = m.state.lock from hlock]; exact hf),
    fun l hl => h.names.getters l (by rw [← show _ = m.state.listeners from hlist]; exact hl)⟩
  unfold State.IsDead State.child
  rwa [hch]

theorem readChunks_minor (h : m.Tidy role) (hs : ∀ t, S (.stop t)) (t : TransportId) (c : ChildId) (fuel : Nat)
    (decoder : Decoder) : Minor role K S (.readOutput t c) m (readChunks t c fuel decoder m) := by
  have hwait : ∀ {m : Loop} decoder, m.Tidy role → Beside role K S (.readOutput t c) m
      (m.awaitStream c .output (.reading t c decoder)) :=
    fun decoder h => awaitStream_beside h c .output (fun _ => .reading t c decoder) (.reading t c decoder)
  induction fuel generalizing m decoder with
  | zero => exact (hwait decoder h).minor
  | succ fuel ih =>
    unfold readChunks
    split
    · exact (hwait decoder h).minor
    · exact breakOff_minor h hs t c _
    · refine Beside.minor ⟨.refl h, fun n => .call (.outputEnded t c _) (.outputEnded t c _) (fun u hu => ?_) trivial⟩
      cases hu
    · next chunk rest _ _ =>
      have hread := Aside.modifyStream (K := K) (S := S) h c .output
        (k := fun s => { s with buffer := rest }) fun s f hf => .inl hf
      have hnotes := hread.trans (.recordNotes hread.tidy (decoder.feed chunk).notes)
      dsimp only
      split
      · exact .after hnotes.told (breakOff_minor hnotes.tidy hs t c _)
      · next messages _ =>
        have hboth := hnotes.told.trans (receiveAll_told hnotes.tidy t messages)
        split <;> rename_i hm <;> rw [hm] at hboth
        · exact .after hboth (breakOff_minor hboth.works.tidy hs t c _)
        · exact .after hboth (ih hboth.works.tidy _)

theorem readOutput_minor (h : m.Tidy role) (hs : ∀ t, S (.stop t)) (t : TransportId) (c : ChildId) :
    Minor role K S (.readOutput t c) m (readOutput t c m) :=
  readChunks_minor h hs t c _ _

theorem Aside.streamResumed (h : m.Tidy role) (c : ChildId) (pipe : Pipe) : Aside role K S m (m.streamResumed c pipe) :=
  .modifyStream h c pipe fun s f hf => by cases hf

theorem readResumed_minor (h : m.Tidy role) (hs : ∀ t, S (.stop t)) (t : TransportId) (c : ChildId) (decoder : Decoder)
    (o : Ending) : Minor role K S (.readOutput t c) m (readResumed t c decoder o m) := by
  have hfree := Aside.streamResumed (K := K) (S := S) h c .output
  unfold readResumed
  dsimp only
  split
  · exact .after hfree.told (readChunks_minor hfree.tidy hs t c _ _)
  · exact .after hfree.told (breakOff_minor hfree.tidy hs t c _)
  · exact .of_tells hfree.told.tells (.done (.refl hfree.tidy) fun _ _ => trivial)

theorem outputResumed_minor (h : m.Tidy role) (hs : ∀ t, S (.stop t)) (t : TransportId) (c : ChildId) (pending : Nat)
    (o : Ending) : Minor role K S (.readOutput t c) m (outputResumed t c pending o m) := by
  have hend : ∀ {m₁ : Loop}, Tells role K S m m₁ → Minor role K S (.readOutput t c) m (m₁, .done (.value .nothing)) :=
    fun h => .of_tells h (.done (.refl h.works.tidy) fun _ _ => trivial)
  unfold outputResumed
  split
  · next code =>
    dsimp only
    obtain ⟨m₁, hm₁, hpend⟩ : ∃ m₁, (if pending = 0 then m
        else m.note .debug (lit "tsserver exited with " ++ Text.ofNat pending ++ lit " undecoded bytes")) = m₁ ∧
        Aside role K S m m₁ := by
      refine ⟨_, rfl, ?_⟩
      split
      · exact .refl h
      · exact .note h _ _
    rw [hm₁]
    split
    · have hnote := hpend.trans (.note hpend.tidy .info
        (lit "tsserver exited (pid=" ++ Text.ofNat (Child.pid c) ++ lit ")"))
      exact hend (.after hnote.told (conclude_tells hnote.tidy hs t none))
    · exact hend (.after hpend.told (conclude_tells hpend.tidy hs t
        (some { message := lit "tsserver exited with code " ++ Text.ofInt code, returnCode := some code })))
  · have hdone : Beside role K S (.readOutput t c) m (m, .done o) := .done (.refl h) fun _ _ => trivial
    exact hdone.minor

theorem drainLines_beside (h : m.Tidy role) (c : ChildId) (fuel : Nat) :
    Beside role K S (.drainErrors c) m (drainLines c fuel m) := by
  have hwait : ∀ {m : Loop}, m.Tidy role → Beside role K S (.drainErrors c) m (m.awaitStream c .errors (.draining c)) :=
    fun h => awaitStream_beside h c .errors (fun _ => .draining c) (.draining c)
  induction fuel generalizing m with
  | zero => exact hwait h
  | succ fuel ih =>
    unfold drainLines
    split
    · exact hwait h
    · exact .done (.refl h) fun _ _ => trivial
    · next line rest _ =>
      have hread := Aside.modifyStream (K := K) (S := S) h c .errors
        (k := fun s => { s with buffer := rest }) fun s f hf => .inl hf
      dsimp only
      split
      · exact .done hread fun _ _ => trivial
      · split
        · exact .done hread fun _ _ => trivial
        · next text _ =>
          have hnote := hread.trans (.note hread.tidy .debug (lit "[tsserver stderr] " ++ text))
          exact .after hnote (ih hnote.tidy)

theorem drainResumed_beside (h : m.Tidy role) (c : ChildId) (o : Ending) :
    Beside role K S (.drainErrors c) m (drainResumed c o m) := by
  have hfree := Aside.streamResumed (K := K) (S := S) h c .errors
  unfold drainResumed
  dsimp only
  split
  · exact .after hfree (drainLines_beside hfree.tidy c _)
  · exact .done hfree fun _ _ => trivial

end Loop

end DiagnosticsClient
