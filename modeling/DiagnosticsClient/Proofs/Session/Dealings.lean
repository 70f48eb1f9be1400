import DiagnosticsClient.Proofs.Session.Launching
/-
What others are told to do, and who waits for the end of a child.

Errands are the requests given to rehearsed transports and the signals to children. Only a
request that is sent (`errands_send`) and a child that is made to end (`errands_endTasks`,
`errands_terminateResumed`) add one. Most of what is done runs no errand, ends no child
and leaves those alone who wait for the end of one (`State.dealings`): there is a lemma for
each thing that is done at once, with no condition on the loop. When a child does end,
whoever waits for that is woken (`Rouses`).
-/
namespace DiagnosticsClient

open Async Async.Machine

/-- Entries about what others are told to do. -/
def Entry.isErrand : Entry → Bool
  | .sent .. => true
  | .signalled .. => true
  | _ => false

namespace State

/-- The errands that were run, in order. -/
def errands (s : State) : List Entry := s.transcript.toList.filter Entry.isErrand

/-- The signals to children, in order. -/
def signals (s : State) : List (ChildId × Signal) :=
  s.errands.filterMap fun
    | .signalled c signal => some (c, signal)
    | _ => none

/-- The requests that a rehearsed transport was given, in order. -/
def requests (s : State) (t : TransportId) : List Request :=
  s.errands.filterMap fun
    | .sent t' r => if t' = t then some r else none
    | _ => none

/-- The errands that were run, and for each child its return code and who waits for that. -/
def dealings (s : State) : List Entry × List (Option Int × List FutureId) :=
  (s.errands, s.children.map fun child => (child.returnCode, child.exitWaiters))

theorem errands_record_of (s : State) {e : Entry} (h : e.isErrand = true) : (s.record e).errands = s.errands ++ [e] := by
  simp [errands, record, List.filter_append, h]

@[simp] theorem dealings_record (s : State) {e : Entry} (h : e.isErrand = false) : (s.record e).dealings = s.dealings := by
  simp [dealings, errands, record, List.filter_append, h]

@[simp] theorem dealings_note (s : State) (level : Level) (text : Text) : (s.note level text).dealings = s.dealings :=
  dealings_record s rfl

theorem dealings_modifyChild (s : State) (c : ChildId) {k : Child → Child} (hcode : ∀ x, (k x).returnCode = x.returnCode)
    (hwaits : ∀ x, (k x).exitWaiters = x.exitWaiters) : (s.modifyChild c k).dealings = s.dealings := by
  refine Prod.ext rfl (List.ext_getElem? fun i => ?_)
  simp only [dealings, modifyChild, List.getElem?_map, List.getElem?_modify]
  by_cases h : c = i <;> cases s.children[i]? <;> simp [h, hcode, hwaits]

theorem child_of_dealings {s s' : State} (h : s'.dealings = s.dealings) (c : ChildId) :
    (s'.child c).returnCode = (s.child c).returnCode ∧ (s'.child c).exitWaiters = (s.child c).exitWaiters := by
  have hget : s'.dealings.2[c]? = s.dealings.2[c]? := by rw [h]
  simp only [dealings, List.getElem?_map] at hget
  unfold child
  cases hc : s.children[c]? <;> cases hc' : s'.children[c]? <;> simp_all

end State

namespace Loop

variable {m m' m'' : Loop} {t : TransportId} {c : ChildId} {f : FutureId}

theorem dealings_of_state (h : m'.state = m.state) : m'.state.dealings = m.state.dealings := congrArg State.dealings h

theorem errands_of_dealings (h : m'.state.dealings = m.state.dealings) : m'.state.errands = m.state.errands :=
  congrArg Prod.fst h

/-! ## What deals with no child -/

@[simp] theorem dealings_record {e : Entry} (h : e.isErrand = false) : (m.record e).state.dealings = m.state.dealings :=
  State.dealings_record m.state h

@[simp] theorem dealings_note (level : Level) (text : Text) : (m.note level text).state.dealings = m.state.dealings :=
  State.dealings_note m.state level text

@[simp] theorem dealings_settle (f : FutureId) (o : Ending) : (m.settle f o).state.dealings = m.state.dealings :=
  dealings_of_state settle_state

@[simp] theorem dealings_settleAll (fs : List FutureId) (o : Ending) :
    (fs.foldl (fun m f => m.settle f o) m).state.dealings = m.state.dealings := by
  induction fs generalizing m with
  | nil => rfl
  | cons f fs ih => exact ih.trans (dealings_settle f o)

@[simp] theorem dealings_future : m.future.1.state.dealings = m.state.dealings := rfl

@[simp] theorem dealings_modifyStream (c : ChildId) (pipe : Pipe) (k : Stream → Stream) :
    (m.modifyStream c pipe k).state.dealings = m.state.dealings :=
  State.dealings_modifyChild m.state c (fun x => by cases pipe <;> rfl) fun x => by cases pipe <;> rfl

@[simp] theorem dealings_modifyTransport (t : TransportId) (k : ChildTransport → ChildTransport) :
    (m.modifyTransport t k).state.dealings = m.state.dealings := rfl

@[simp] theorem dealings_setPhase (t : TransportId) (phase : Phase) : (m.setPhase t phase).state.dealings = m.state.dealings := rfl

@[simp] theorem dealings_modifyGate (t : TransportId) (call : Call) (k : Gate → Gate) :
    (m.modifyGate t call k).state.dealings = m.state.dealings := rfl

@[simp] theorem dealings_modifyListener (l : ListenerId) (k : Listener → Listener) :
    (m.modifyListener l k).state.dealings = m.state.dealings := rfl

@[simp] theorem dealings_modifyLock (k : Lock → Lock) : (m.modifyLock k).state.dealings = m.state.dealings := rfl

/-! ## Streams and children -/

@[simp] theorem dealings_wakeReader (c : ChildId) (pipe : Pipe) (o : Ending) :
    (m.wakeReader c pipe o).state.dealings = m.state.dealings := by
  unfold wakeReader
  split
  · rfl
  · exact (dealings_settle _ _).trans (dealings_modifyStream c pipe _)

theorem dealings_feedStream {pipe : Pipe} {octets : Bytes} (h : m.feedStream c pipe octets = .ok m') :
    m'.state.dealings = m.state.dealings := by
  unfold feedStream at h
  split at h
  · cases h
  · split at h <;> cases h
    · rfl
    · exact (dealings_wakeReader c pipe _).trans (dealings_modifyStream c pipe _)

@[simp] theorem dealings_endStream (c : ChildId) (pipe : Pipe) : (m.endStream c pipe).state.dealings = m.state.dealings :=
  (dealings_wakeReader c pipe _).trans (dealings_modifyStream c pipe _)

@[simp] theorem dealings_breakStream (c : ChildId) (pipe : Pipe) (e : SystemError) :
    (m.breakStream c pipe e).state.dealings = m.state.dealings :=
  (dealings_wakeReader c pipe _).trans (dealings_modifyStream c pipe _)

@[simp] theorem dealings_put (c : ChildId) (octets : Bytes) : (m.put c octets).state.dealings = m.state.dealings := by
  unfold put
  split
  · next h => exact dealings_feedStream h
  · rfl

/-- What a child replies and keeps for later is between it and its pipes. -/
theorem dealings_setScript (c : ChildId) (script : Script) :
    (m.modify (·.modifyChild c fun child => { child with script := some script })).state.dealings = m.state.dealings :=
  State.dealings_modifyChild m.state c (fun _ => rfl) fun _ => rfl

/-! ## Listeners -/

@[simp] theorem dealings_wakeLock : m.wakeLock.state.dealings = m.state.dealings := by
  unfold wakeLock
  split
  · rfl
  · exact dealings_settle _ _

@[simp] theorem dealings_releaseLock : m.releaseLock.state.dealings = m.state.dealings := dealings_wakeLock

@[simp] theorem dealings_wakeNext (fs : List FutureId) : (m.wakeNext fs).1.state.dealings = m.state.dealings := by
  induction fs with
  | nil => rfl
  | cons f rest ih =>
    unfold wakeNext
    split
    · exact ih
    · exact dealings_settle _ _

@[simp] theorem dealings_wakeGetter (l : ListenerId) : (m.wakeGetter l).state.dealings = m.state.dealings :=
  dealings_wakeNext _

@[simp] theorem dealings_deliver (l : ListenerId) (d : Delivery) : (m.deliver l d).state.dealings = m.state.dealings :=
  (dealings_wakeGetter l).trans (dealings_record (m := m) rfl)

@[simp] theorem dealings_deliverAll (ls : List ListenerId) (d : Delivery) : (m.deliverAll ls d).state.dealings = m.state.dealings := by
  induction ls generalizing m with
  | nil => rfl
  | cons l ls ih => exact ih.trans (dealings_deliver l d)

@[simp] theorem dealings_detachAll (e : Option ServerError) : (m.detachAll e).state.dealings = m.state.dealings := dealings_deliverAll _ _

@[simp] theorem dealings_receive (t : TransportId) (v : Json) : (m.receive t v).1.state.dealings = m.state.dealings := by
  have hrec : (m.record (.received t v)).state.dealings = m.state.dealings := dealings_record rfl
  unfold receive
  split
  · refine Eq.trans ?_ hrec
    unfold dispatch
    split
    · exact dealings_deliverAll _ _
    · exact dealings_note _ _
  · split
    · rfl
    · exact hrec

@[simp] theorem dealings_receiveAll (t : TransportId) (vs : List Json) : (m.receiveAll t vs).1.state.dealings = m.state.dealings := by
  induction vs generalizing m with
  | nil => rfl
  | cons v vs ih =>
    have hone := dealings_receive (m := m) t v
    unfold receiveAll
    split <;> rename_i hm <;> rw [hm] at hone
    · exact ih.trans hone
    · exact hone

@[simp] theorem dealings_report (t : TransportId) (e : Option ServerError) : (m.report t e).state.dealings = m.state.dealings := by
  have hrec : (m.record (.reported t e)).state.dealings = m.state.dealings := dealings_record rfl
  unfold report
  dsimp only
  split
  · exact hrec
  · split
    · refine Eq.trans (dealings_detachAll e) ?_
      split
      · exact (dealings_note _ _).trans hrec
      · exact hrec
    · exact hrec

/-! ## Driving -/

@[simp] theorem dealings_concludeCall (t : TransportId) (call : Call) (fails : Bool) :
    (m.concludeCall t call fails).1.state.dealings = m.state.dealings := by
  unfold concludeCall
  split
  · rfl
  · exact dealings_record rfl

@[simp] theorem dealings_rehearse (t : TransportId) (call : Call) (conduct : Conduct) :
    (m.rehearse t call conduct).1.state.dealings = m.state.dealings := by
  have hgate : ∀ fails, (m.passGate t call fails).1.state.dealings = m.state.dealings := by
    intro fails
    unfold passGate
    split
    · exact dealings_concludeCall t call fails
    · rfl
  cases conduct with
  | succeeds => exact dealings_concludeCall t call false
  | fails => exact dealings_concludeCall t call true
  | timesOut => rfl
  | waits => exact hgate false
  | waitsAndFails => exact hgate true

theorem dealings_stop (t : TransportId) : (stop t m).1.state.dealings = m.state.dealings := by
  unfold stop
  split
  · next r _ => exact (dealings_rehearse t .stop _).trans (dealings_record (m := m) rfl)
  · unfold stopChild
    dsimp only
    split <;> rfl

/-! ## Limits -/

@[simp] theorem dealings_cancelFuture (fuel : Nat) (f : FutureId) : (m.cancelFuture fuel f).1.state.dealings = m.state.dealings := by
  rw [cancelFuture_state]

@[simp] theorem dealings_cancelTask (u : TaskId) : (m.cancelTask u).1.state.dealings = m.state.dealings := dealings_cancelFuture _ _

@[simp] theorem dealings_addCallback (f : FutureId) (k : Callback) : (m.addCallback f k).state.dealings = m.state.dealings := by
  unfold Machine.addCallback
  split <;> rfl

@[simp] theorem dealings_addTimer (time : Binary64) (f : FutureId) : (m.addTimer time f).state.dealings = m.state.dealings := by
  unfold Machine.addTimer
  split <;> rfl

theorem dealings_within (limit : Seconds) (inner : Routine) : (within limit inner m).1.state.dealings = m.state.dealings := by
  unfold within
  split
  · rfl
  · split
    · rfl
    · exact (dealings_addCallback _ _).trans (dealings_addTimer _ _)

/-! ## Reading -/

theorem dealings_conclude (t : TransportId) (e : Option ServerError) : (m.conclude t e).state.dealings = m.state.dealings := by
  unfold conclude
  split
  · exact dealings_report t e
  · rfl

theorem dealings_breakOff (t : TransportId) (failure : Failure) : (m.breakOff t failure).1.state.dealings = m.state.dealings :=
  (dealings_conclude t _).trans (dealings_note _ _)

theorem dealings_recordNotes (notes : List Note) :
    (m.modify fun s => notes.foldl (fun s n => s.record (.note n)) s).state.dealings = m.state.dealings := by
  have hfold : ∀ s : State, (notes.foldl (fun s n => s.record (.note n)) s).dealings = s.dealings := by
    induction notes with
    | nil => exact fun _ => rfl
    | cons n notes ih => exact fun s => (ih _).trans (State.dealings_record s rfl)
  exact hfold m.state

theorem dealings_awaitStream (c : ChildId) (pipe : Pipe) (F : Frame) :
    (m.awaitStream c pipe F).1.state.dealings = m.state.dealings :=
  (dealings_modifyStream (m := m.future.1) c pipe fun s => { s with waiter := some m.future.2 }).trans dealings_future

theorem dealings_readChunks (t : TransportId) (c : ChildId) (fuel : Nat) (decoder : Decoder) (m : Loop) :
    (readChunks t c fuel decoder m).1.state.dealings = m.state.dealings := by
  induction fuel generalizing m decoder with
  | zero => exact dealings_awaitStream c .output _
  | succ fuel ih =>
    unfold readChunks
    split
    · exact dealings_awaitStream c .output _
    · exact dealings_breakOff t _
    · rfl
    · next chunk rest _ _ =>
      have hread : ((m.modifyStream c .output fun s => { s with buffer := rest }).modify fun s =>
          (decoder.feed chunk).notes.foldl (fun s n => s.record (.note n)) s).state.dealings = m.state.dealings :=
        (dealings_recordNotes _).trans (dealings_modifyStream c .output _)
      dsimp only
      split
      · exact (dealings_breakOff t _).trans hread
      · next messages _ =>
        have hall := (dealings_receiveAll t messages).trans hread
        split <;> rename_i hm <;> rw [hm] at hall
        · exact (dealings_breakOff t _).trans hall
        · exact (ih _ _).trans hall

theorem dealings_readResumed (t : TransportId) (c : ChildId) (decoder : Decoder) (o : Ending) :
    (readResumed t c decoder o m).1.state.dealings = m.state.dealings := by
  have hfree : (m.streamResumed c .output).state.dealings = m.state.dealings := dealings_modifyStream c .output _
  unfold readResumed
  dsimp only
  split
  · exact (dealings_readChunks t c _ _ _).trans hfree
  · exact (dealings_breakOff t _).trans hfree
  · exact hfree

theorem dealings_outputResumed (t : TransportId) (c : ChildId) (pending : Nat) (o : Ending) :
    (outputResumed t c pending o m).1.state.dealings = m.state.dealings := by
  unfold outputResumed
  split
  · dsimp only
    have hpend : (if pending = 0 then m
        else m.note .debug (lit "tsserver exited with " ++ Text.ofNat pending ++ lit " undecoded bytes")).state.dealings = m.state.dealings := by
      split
      · rfl
      · exact dealings_note _ _
    split
    · exact ((dealings_conclude t none).trans (dealings_note _ _)).trans hpend
    · exact (dealings_conclude t _).trans hpend
  · rfl

theorem dealings_drainLines (c : ChildId) (fuel : Nat) (m : Loop) :
    (drainLines c fuel m).1.state.dealings = m.state.dealings := by
  induction fuel generalizing m with
  | zero => exact dealings_awaitStream c .errors _
  | succ fuel ih =>
    unfold drainLines
    split
    · exact dealings_awaitStream c .errors _
    · rfl
    · next line rest _ =>
      have hread : (m.modifyStream c .errors fun s => { s with buffer := rest }).state.dealings = m.state.dealings :=
        dealings_modifyStream c .errors _
      dsimp only
      split
      · exact hread
      · split
        · exact hread
        · exact ((ih _).trans (dealings_note _ _)).trans hread

theorem dealings_drainResumed (c : ChildId) (o : Ending) : (drainResumed c o m).1.state.dealings = m.state.dealings := by
  have hfree : (m.streamResumed c .errors).state.dealings = m.state.dealings := dealings_modifyStream c .errors _
  unfold drainResumed
  dsimp only
  split
  · exact (dealings_drainLines c _ _).trans hfree
  · exact hfree

theorem dealings_writeLine (t : TransportId) (line : Except EncodeError Bytes) :
    (m.writeLine t line).1.state.dealings = m.state.dealings := by
  unfold writeLine
  dsimp only
  split
  · split
    · exact dealings_note _ _
    · split
      · rfl
      · exact dealings_record rfl
  · exact dealings_note _ _

/-! ## What runs no errand -/

theorem errands_exitChild (c : ChildId) (code : Int) : (m.exitChild c code).state.errands = m.state.errands := by
  unfold exitChild
  dsimp only
  split
  · let m₁ := m.modify (·.modifyChild c fun child => { child with returnCode := some code, exitWaiters := [] })
    have hstreams : ((m₁.endStream c .output).endStream c .errors).state.dealings = m₁.state.dealings :=
      (dealings_endStream c .errors).trans (dealings_endStream c .output)
    exact errands_of_dealings (m := m₁) ((dealings_settleAll _ _).trans hstreams)
  · rfl

theorem errands_react (c : ChildId) (request : Request) : (m.react c request).state.errands = m.state.errands := by
  unfold react
  split
  · split
    · unfold reply
      dsimp only
      split
      · split
        · exact errands_of_dealings (dealings_setScript c _)
        · exact errands_of_dealings ((dealings_put c _).trans (dealings_setScript c _))
      · exact errands_of_dealings (dealings_put c _)
      · exact errands_exitChild c _
      · rfl
    · rfl
  · rfl

/-- To launch a child adds it. -/
theorem launch_dealings (m : Loop) : m.launch.1.state.errands = m.state.errands ∧
    ∃ added : List Child, m.launch.1.state.children = m.state.children ++ added ∧
      ∀ child ∈ added, child.returnCode = none ∧ child.exitWaiters = [] := by
  have hnext : ∀ launches e, ((m.modify fun s => { s with launches }).record (.launched e)).state.dealings = m.state.dealings :=
    fun launches e => dealings_record (m := m.modify fun s => { s with launches }) rfl
  unfold launch
  dsimp only
  split
  · exact ⟨errands_of_dealings (hnext _ _), [], (List.append_nil _).symm, fun _ h => by cases h⟩
  · refine ⟨congrArg Prod.fst (hnext _ _), _, rfl, fun child h => ?_⟩
    rw [List.mem_singleton.mp h]
    split <;> exact ⟨rfl, rfl⟩

/-- To start a transport perhaps adds a child. -/
theorem start_dealings (m : Loop) (t : TransportId) : (start t m).1.state.dealings = m.state.dealings ∨
    (start t m).1.state.errands = m.state.errands ∧ ∃ added : List Child,
      (start t m).1.state.children = m.state.children ++ added ∧ ∀ child ∈ added, child.returnCode = none ∧ child.exitWaiters = [] := by
  unfold start
  split
  · next r _ =>
    have hcalled : (m.record (.called t .start)).state.dealings = m.state.dealings := dealings_record rfl
    -- whether or not it has said something
    have hrest : ∀ greeted : Loop, greeted.state.dealings = m.state.dealings →
        ((if r.rehearsal.endsAtStart then greeted.report t none else greeted).rehearse t .start r.rehearsal.start).1.state.dealings =
          m.state.dealings := by
      intro greeted hgreet
      refine (dealings_rehearse t .start _).trans ?_
      split
      · exact (dealings_report t none).trans hgreet
      · exact hgreet
    unfold startRehearsed
    refine .inl ?_
    cases r.rehearsal.greeting with
    | none => exact hrest _ hcalled
    | some v => exact hrest _ ((dealings_receive t v).trans hcalled)
  · have hlaunch := launch_dealings m
    unfold startChild
    dsimp only
    split
    · split
      · exact .inl rfl
      · split <;> rename_i hm <;> rw [hm] at hlaunch
        · exact .inr hlaunch
        · exact .inr ⟨(errands_of_dealings (dealings_note _ _)).trans hlaunch.1, hlaunch.2⟩
    · exact .inl rfl

/-- To wait for the end of a child adds a waiter if it lives. -/
theorem awaitExit_dealings (m : Loop) (c : ChildId) : (awaitExit c m).1.state.dealings = m.state.dealings ∨
    ¬ m.state.IsDead c ∧ (awaitExit c m).1.state = m.state.modifyChild c fun child =>
      { child with exitWaiters := child.exitWaiters ++ [m.futures.size] } := by
  unfold awaitExit
  split
  · exact .inl rfl
  · next hnone => exact .inr ⟨by simp [State.IsDead, Child.isAlive, hnone], rfl⟩

theorem errands_awaitExit (c : ChildId) : (awaitExit c m).1.state.errands = m.state.errands := by
  rcases awaitExit_dealings m c with h | ⟨-, h⟩
  · exact errands_of_dealings h
  · rw [h]
    rfl

/-! ## What runs an errand -/

/-- A signal is an errand. -/
theorem errands_signal (c : ChildId) (s : Signal) : (m.signal c s).state.errands = m.state.errands ++ [.signalled c s] := by
  have hrec : (m.record (.signalled c s)).state.errands = m.state.errands ++ [.signalled c s] := State.errands_record_of m.state rfl
  unfold signal
  dsimp only
  split
  · exact hrec
  · exact (errands_exitChild _ _).trans hrec

/-- A child that did not end in time is killed. -/
theorem errands_terminateResumed (c : ChildId) (o : Ending) : (terminateResumed c o m).1.state.errands =
    m.state.errands ++ match o with
      | .failed (.timedOut _) => [.signalled c .kill]
      | _ => [] := by
  unfold terminateResumed
  split
  · exact (errands_of_dealings (dealings_note _ _)).trans (List.append_nil _).symm
  · exact errands_signal c .kill
  · next hne =>
    split
    · exact absurd rfl (hne _)
    · exact (List.append_nil _).symm

/-- A child that is taken from its transport alive is asked to end. -/
theorem errands_endTasks (t : TransportId) (us : List TaskId) : (endTasks t us m).1.state.errands =
    m.state.errands ++ match (endTasks t us m).2 with
      | .call _ (.terminating c) => [.signalled c .terminate]
      | _ => [] := by
  induction us with
  | nil =>
    unfold endTasks
    dsimp only
    split
    · exact (List.append_nil _).symm
    · split
      · exact errands_signal _ .terminate
      · exact (List.append_nil _).symm
  | cons u rest ih =>
    unfold endTasks
    split
    · exact ih
    · exact (errands_of_dealings (dealings_cancelTask u)).trans (List.append_nil _).symm

/-- A request that is written is given to a rehearsed transport. -/
theorem errands_write (t : TransportId) (request : Request) : (m.write t request).1.state.errands =
    m.state.errands ++ match m.state.transports[t]? with
      | some (.rehearsed _) => [.sent t request]
      | _ => [] := by
  have hother (hne : ∀ r, m.state.transports[t]? ≠ some (.rehearsed r)) :
      (m.write t request).1.state.errands = m.state.errands ++ [] := by
    have hline := errands_of_dealings (dealings_writeLine (m := m) t (encodeMessage m.state.settings.encoding (.request request)))
    rw [List.append_nil]
    unfold write
    split
    · next r h => exact absurd h (hne r)
    · split <;> rename_i hm <;> rw [hm] at hline
      · exact hline
      · exact (errands_react _ _).trans hline
      · exact hline
  cases ht : m.state.transports[t]? with
  | none => exact hother fun r h => by cases ht.symm.trans h
  | some transport =>
    cases transport with
    | child => exact hother fun r h => by cases ht.symm.trans h
    | rehearsed r =>
      simp only [write, ht]
      exact State.errands_record_of m.state rfl

/-- A request that is sent is written to the current transport. -/
theorem errands_send (request : Request) : (m.send request).1.state.errands =
    m.state.errands ++ match m.state.current.bind (m.state.transports[·]?) with
      | some (.rehearsed _) => [.sent (m.state.current.getD 0) request]
      | _ => [] := by
  unfold send
  dsimp only
  split
  · next h => simp [h, errands_of_dealings (dealings_note (m := m) _ _)]
  · next t h =>
    refine (errands_write t request).trans ?_
    rw [errands_of_dealings (dealings_note _ _), h]
    rfl

/-! ## Whatever a task does -/

/-- What a routine begins with deals with no child, unless it starts a transport, ends a child or waits for its end. -/
theorem begin_dealings (m : Loop) {r : Routine} (hs : ∀ t, r ≠ .start t) (he : ∀ t us, r ≠ .endTasks t us)
    (hw : ∀ c, r ≠ .awaitExit c) :
    (begin r m).1.state.dealings = m.state.dealings := by
  cases r with
  | acquireLock =>
    simp only [begin, acquire]
    split <;> rfl
  | openListener l =>
    simp only [begin, openListener]
    split <;> rfl
  | next l =>
    simp only [begin, next]
    split
    · rfl
    · split <;> rfl
  | take l =>
    simp only [begin, take]
    split <;> rfl
  | request file limit => cases limit <;> rfl
  | within limit inner => exact dealings_within limit inner
  | cancelAndWait u => exact (dealings_cancelTask u).trans (dealings_addCallback _ _)
  | start t => exact absurd rfl (hs t)
  | stop t => exact dealings_stop t
  | endTasks t us => exact absurd rfl (he t us)
  | awaitExit c => exact absurd rfl (hw c)
  | readOutput t c => exact dealings_readChunks t c _ _ m
  | drainErrors c => exact dealings_drainLines c _ m
  | checkFiles files context limit => exact dealings_of_state (spawnGroup_state m _)
  | _ => rfl

/-- What a routine begins with runs no errand, unless it ends a child. -/
theorem begin_errands (m : Loop) {r : Routine} (he : ∀ t us, r ≠ .endTasks t us) :
    (begin r m).1.state.errands = m.state.errands := by
  by_cases hs : ∃ t, r = .start t
  · obtain ⟨t, rfl⟩ := hs
    exact (start_dealings m t).elim errands_of_dealings And.left
  by_cases hw : ∃ c, r = .awaitExit c
  · obtain ⟨c, rfl⟩ := hw
    exact errands_awaitExit c
  exact errands_of_dealings (begin_dealings m (fun t h => hs ⟨t, h⟩) he fun c h => hw ⟨c, h⟩)

/-- A frame goes on without a child to deal with, unless requests are sent or a child is killed. -/
theorem resume_dealings (m : Loop) {F : Frame} (hs : ∀ l opening asking, F ≠ .introducing l opening asking)
    (hk : ∀ c, F ≠ .terminating c) (o : Ending) : (resume F o m).1.state.dealings = m.state.dealings := by
  cases F with
  | locking w =>
    simp only [resume, acquireResumed]
    split
    · rfl
    · dsimp only
      split
      · rfl
      · exact dealings_wakeLock
  | opening l =>
    simp only [resume, openResumed]
    split <;> rfl
  | registering l =>
    simp only [resume, registerLocked]
    split
    · split
      · exact dealings_releaseLock
      · unfold addTransport
        dsimp only
        split <;> rfl
    · rfl
  | starting l t =>
    simp only [resume, startResumed]
    split <;> exact dealings_releaseLock
  | leaving l =>
    simp only [resume, leaveLocked]
    split
    · split
      · split
        · exact dealings_note _ _
        · exact dealings_releaseLock
      · exact dealings_releaseLock
    · rfl
  | closing =>
    simp only [resume, closeLocked]
    split
    · split
      · exact dealings_detachAll none
      · exact dealings_releaseLock.trans (dealings_detachAll none)
    · rfl
  | releasing => exact dealings_releaseLock
  | receiving l =>
    simp only [resume, nextResumed]
    split <;> rfl
  | getting l getter =>
    simp only [resume, takeResumed]
    split
    · rfl
    · dsimp only
      split
      · exact (dealings_wakeGetter l).trans (dealings_settle getter _)
      · exact dealings_settle getter _
  | collecting l taken =>
    simp only [resume, collectResumed]
    split <;> rfl
  | visiting l count =>
    simp only [resume, visitOpened, visitOn]
    split
    · split <;> rfl
    · rfl
  | visited l count taken =>
    simp only [resume, visitResumed, visitOn]
    split
    · split <;> rfl
    · rfl
  | finishing ending =>
    simp only [resume, cleanedUp]
    split <;> rfl
  | requesting file seq limit =>
    simp only [resume, requestResumed]
    split <;> rfl
  | introducing l opening asking => exact absurd rfl (hs l opening asking)
  | expecting l asking =>
    simp only [resume, exchangeResumed]
    split
    · split
      · exact dealings_note _ _
      · rfl
    · rfl
    · rfl
    · rfl
  | timing u w =>
    simp only [resume, timeResumed]
    split
    · rfl
    · split <;> rfl
  | overdue u =>
    simp only [resume, overdueResumed]
    split <;> rfl
  | lapsed u w =>
    simp only [resume, lapsedResumed]
    split <;> rfl
  | abandoned w =>
    simp only [resume, abandonedResumed]
    split <;> rfl
  | gated t call fails w =>
    simp only [resume, gateResumed]
    split
    · exact dealings_concludeCall t call fails
    · rfl
  | ending t us =>
    simp only [resume, endResumed]
    split <;> rfl
  | terminating c => exact absurd rfl (hk c)
  | killing c =>
    simp only [resume, killResumed]
    split
    · exact dealings_note _ _
    · rfl
  | reading t c decoder => exact dealings_readResumed t c decoder o
  | outputEnded t c pending => exact dealings_outputResumed t c pending o
  | draining c => exact dealings_drainResumed c o
  | answered file context =>
    simp only [resume, answerResumed]
    split
    · split
      · rfl
      · exact dealings_note _ _
    · rfl
  | readSource file context diagnostics =>
    simp only [resume, sourceResumed]
    split <;> rfl
  | _ => rfl

/-- Nothing that reaches a session runs an errand, but requests that callers send. -/
theorem apply_errands (m : Loop) {s : Stimulus} (hs : ∀ r, s ≠ .send r)
    (hw : ∀ t r, s = .write t r → ∀ x, m.state.transports[t]? ≠ some (.rehearsed x)) :
    (m.apply s).1.state.errands = m.state.errands := by
  have hto : ∀ {t : TransportId} {k : Loop → Loop × Reaction}, (k m).1.state.errands = m.state.errands →
      (m.withTransport t k).1.state.errands = m.state.errands := by
    intro t k hk
    unfold withTransport
    split
    · exact hk
    · rfl
  have hchild : ∀ {c : ChildId} {k : Loop → Loop × Reaction}, (k m).1.state.errands = m.state.errands →
      (m.withChild c k).1.state.errands = m.state.errands := by
    intro c k hk
    unfold withChild
    split
    · exact hk
    · rfl
  have hwritten : ∀ c pipe octets, (m.written c pipe octets).1.state.errands = m.state.errands := by
    intro c pipe octets
    unfold written
    split
    · next h => exact errands_of_dealings (dealings_feedStream h)
    · rfl
  cases s with
  | cancel u => exact errands_of_dealings (dealings_cancelTask u)
  | send r => exact absurd rfl (hs r)
  | write t r =>
    refine hto ?_
    rw [reacted_fst, errands_write]
    split
    · next x h => exact absurd h (hw t r rfl x)
    · exact List.append_nil _
  | writeValue t v =>
    have hline := errands_of_dealings (dealings_writeLine (m := m) t (encodeValue m.state.settings.encoding v))
    refine hto ?_
    split <;> rename_i hm <;> rw [hm] at hline <;> exact hline
  | receive t v =>
    refine hto ?_
    rw [reacted_fst]
    exact errands_of_dealings (dealings_receive t v)
  | report t e => exact hto (errands_of_dealings (dealings_report t e))
  | openGate t call => exact hto (errands_of_dealings (dealings_settleAll _ _))
  | output c octets => exact hchild (hwritten c .output octets)
  | errors c octets => exact hchild (hwritten c .errors octets)
  | exit c code => exact hchild (errands_exitChild c code)
  | closeInput c => exact hchild rfl
  | breakOutput c message => exact hchild (errands_of_dealings (dealings_breakStream c .output _))
  | _ => rfl

/-! ## Who waits for the end of a child -/

/-- Whoever waits for the end of a child goes on to wait for it or is woken, and nobody comes to wait for one that has
ended. -/
structure Rouses (m m' : Loop) : Prop where
  waits : ∀ {c : ChildId} {f : FutureId}, f ∈ (m.state.child c).exitWaiters → f < m.futures.size →
    f ∈ (m'.state.child c).exitWaiters ∨ m'.isSettled f = true
  dead : ∀ {c : ChildId}, (m.state.IsDead c → (m.state.child c).exitWaiters = []) → m'.state.IsDead c →
    (m'.state.child c).exitWaiters = []

namespace Rouses

/-- What deals with no child wakes nobody. -/
theorem of_dealings (h : m'.state.dealings = m.state.dealings) : Rouses m m' where
  waits hf _ := .inl ((State.child_of_dealings h _).2 ▸ hf)
  dead hd hdead := by
    obtain ⟨hcode, hwaits⟩ := State.child_of_dealings h _
    rw [hwaits]
    exact hd (by rwa [State.IsDead, Child.isAlive, ← hcode])

/-- A child is dealt with after something else was done. -/
theorem after (h : m'.state.dealings = m.state.dealings) (hsize : m.futures.size ≤ m'.futures.size) (h' : Rouses m' m'') :
    Rouses m m'' where
  waits hf hlt := h'.waits ((State.child_of_dealings h _).2 ▸ hf) (Nat.lt_of_lt_of_le hlt hsize)
  dead hd := h'.dead ((of_dealings h).dead hd)

/-- A child that is added has nobody who waits for its end. -/
theorem of_children {added : List Child} (h : m'.state.children = m.state.children ++ added)
    (hnew : ∀ child ∈ added, child.returnCode = none ∧ child.exitWaiters = []) : Rouses m m' := by
  have hchild : ∀ c, m'.state.child c = m.state.child c ∨
      (m.state.child c).exitWaiters = [] ∧ (m'.state.child c).exitWaiters = [] := by
    intro c
    unfold State.child
    rw [h]
    rcases Nat.lt_or_ge c m.state.children.length with hlt | hge
    · exact .inl (by rw [List.getElem?_append_left hlt])
    · refine .inr ⟨by rw [List.getElem?_eq_none hge]; rfl, ?_⟩
      rw [List.getElem?_append_right hge]
      cases hget : added[c - m.state.children.length]? with
      | none => rfl
      | some child => exact (hnew child (List.mem_of_getElem? hget)).2
  refine ⟨fun {c f} hf _ => .inl ?_, fun {c} hd hdead => ?_⟩
  · rcases hchild c with heq | ⟨hnone, -⟩
    · rwa [heq]
    · rw [hnone] at hf
      cases hf
  · rcases hchild c with heq | ⟨-, hnone⟩
    · rw [heq]
      exact hd (by rwa [State.IsDead, ← heq])
    · exact hnone

end Rouses

/-- Whoever is settled among others has been settled in the end. -/
theorem isSettled_settleAll {fs : List FutureId} (o : Ending) (hf : f ∈ fs ∨ m.isSettled f = true) (hlt : f < m.futures.size) :
    (fs.foldl (fun m f => m.settle f o) m).isSettled f = true := by
  induction fs generalizing m with
  | nil => exact hf.resolve_left fun h => by cases h
  | cons g fs ih =>
    refine ih ?_ (by rwa [size_futures_settle])
    rcases hf with hf | hf
    · rcases List.mem_cons.mp hf with rfl | hf
      · exact .inr (isSettled_settle_self hlt)
      · exact .inl hf
    · obtain ⟨o', ho'⟩ := isSettled_iff.mp hf
      exact .inr (isSettled_iff.mpr ⟨o', outcome?_settle_of_some ho'⟩)

/-- **When a child ends, all who wait for that are woken.** -/
theorem exitChild_rouses (m : Loop) (c : ChildId) (code : Int) : Rouses m (m.exitChild c code) := by
  unfold exitChild
  dsimp only
  split
  · let m₁ := m.modify (·.modifyChild c fun child => { child with returnCode := some code, exitWaiters := [] })
    let m₂ := (m₁.endStream c .output).endStream c .errors
    have hstreams : m₂.state.dealings = m₁.state.dealings := (dealings_endStream c .errors).trans (dealings_endStream c .output)
    have hsize : m₂.futures.size = m.futures.size := by
      have hone : ∀ (m : Loop) pipe, (m.endStream c pipe).futures.size = m.futures.size := by
        intro m pipe
        unfold endStream wakeReader
        split
        · rfl
        · exact size_futures_settle
      exact (hone _ .errors).trans (hone m₁ .output)
    have hall : ((m.state.child c).exitWaiters.foldl (fun m f => m.settle f (.value (.returnCode code))) m₂).state.dealings =
        m₁.state.dealings := (dealings_settleAll _ _).trans hstreams
    have hchild : ∀ c', m₁.state.child c' = if c' = c ∧ c < m.state.children.length
        then { m.state.child c with returnCode := some code, exitWaiters := [] } else m.state.child c' :=
      fun c' => State.child_modifyChild m.state c c' _
    refine ⟨fun {c' f} hf hlt => ?_, fun {c'} hd hdead => ?_⟩
    · rw [(State.child_of_dealings hall c').2, hchild]
      split
      · next heq => exact .inr (isSettled_settleAll _ (.inl (heq.1 ▸ hf)) (hsize ▸ hlt))
      · exact .inl hf
    · rw [(State.child_of_dealings hall c').2]
      rw [State.IsDead, Child.isAlive, (State.child_of_dealings hall c').1] at hdead
      rw [hchild] at hdead ⊢
      split
      · rfl
      · next hne =>
        rw [if_neg hne] at hdead
        exact hd hdead
  · exact .of_dealings rfl

theorem signal_rouses (m : Loop) (c : ChildId) (s : Signal) : Rouses m (m.signal c s) := by
  have hrec : Rouses m (m.record (.signalled c s)) := .of_children (List.append_nil _).symm fun _ h => by cases h
  have hexit := exitChild_rouses (m.record (.signalled c s)) c s.returnCode
  unfold signal
  dsimp only
  split
  · exact hrec
  · exact ⟨hexit.waits, hexit.dead⟩

theorem react_rouses (m : Loop) (c : ChildId) (request : Request) : Rouses m (m.react c request) := by
  unfold react
  split
  · split
    · unfold reply
      dsimp only
      split
      · split
        · exact .of_dealings (dealings_setScript c _)
        · exact .of_dealings ((dealings_put c _).trans (dealings_setScript c _))
      · exact .of_dealings (dealings_put c _)
      · exact exitChild_rouses m c _
      · exact .of_dealings rfl
    · exact .of_dealings rfl
  · exact .of_dealings rfl

theorem size_writeLine (t : TransportId) (line : Except EncodeError Bytes) : (m.writeLine t line).1.futures = m.futures := by
  unfold writeLine
  dsimp only
  split
  · split
    · rfl
    · split <;> rfl
  · rfl

theorem write_rouses (m : Loop) (t : TransportId) (request : Request) : Rouses m (m.write t request).1 := by
  unfold write
  split
  · exact .of_children (List.append_nil _).symm fun _ h => by cases h
  · have hline := dealings_writeLine (m := m) t (encodeMessage m.state.settings.encoding (.request request))
    have hsize := size_writeLine (m := m) t (encodeMessage m.state.settings.encoding (.request request))
    split <;> rename_i hm <;> rw [hm] at hline hsize
    · exact .of_dealings hline
    · exact .after hline (Nat.le_of_eq (congrArg Array.size hsize).symm) (react_rouses _ _ request)
    · exact .of_dealings hline

theorem terminateResumed_rouses (m : Loop) (c : ChildId) (o : Ending) : Rouses m (terminateResumed c o m).1 := by
  unfold terminateResumed
  split
  · exact .of_dealings (dealings_note _ _)
  · exact signal_rouses m c .kill
  · exact .of_dealings rfl

theorem endTasks_rouses (m : Loop) (t : TransportId) (us : List TaskId) : Rouses m (endTasks t us m).1 := by
  induction us with
  | nil =>
    unfold endTasks
    dsimp only
    split
    · exact .of_dealings rfl
    · next c _ =>
      let m₁ := m.modifyTransport t fun transport => { transport with reader := none, drain := none }
      let m₂ := m₁.modifyTransport t fun transport => { transport with child := none }
      let m₃ := m₂.modify (·.modifyChild c fun child => { child with inputClosed := true })
      have hclosed : m₃.state.dealings = m.state.dealings :=
        State.dealings_modifyChild m₂.state c (fun _ => rfl) fun _ => rfl
      split
      · exact .after hclosed (Nat.le_refl _) (signal_rouses m₃ c .terminate)
      · exact .of_dealings hclosed
  | cons u rest ih =>
    unfold endTasks
    split
    · exact ih
    · exact .of_dealings (dealings_cancelTask u)

theorem awaitExit_rouses (m : Loop) (c : ChildId) : Rouses m (awaitExit c m).1 := by
  rcases awaitExit_dealings m c with h | ⟨hlive, h⟩
  · exact .of_dealings h
  · refine ⟨fun {c' f} hf _ => .inl ?_, fun {c'} hd hdead => ?_⟩
    · rw [h, State.child_modifyChild]
      split
      · next heq => exact List.mem_append_left _ (heq.1 ▸ hf)
      · exact hf
    · rw [h] at hdead ⊢
      rw [State.IsDead, State.child_modifyChild] at hdead
      rw [State.child_modifyChild]
      split
      · next heq =>
        rw [if_pos heq] at hdead
        exact absurd hdead hlive
      · next hne =>
        rw [if_neg hne] at hdead
        exact hd hdead

/-- Whatever a routine begins with wakes those whose wait is over. -/
theorem begin_rouses (m : Loop) (r : Routine) : Rouses m (begin r m).1 := by
  by_cases hs : ∃ t, r = .start t
  · obtain ⟨t, rfl⟩ := hs
    rcases start_dealings m t with h | ⟨-, added, h, hnew⟩
    · exact .of_dealings h
    · exact .of_children h hnew
  by_cases he : ∃ t us, r = .endTasks t us
  · obtain ⟨t, us, rfl⟩ := he
    exact endTasks_rouses m t us
  by_cases hw : ∃ c, r = .awaitExit c
  · obtain ⟨c, rfl⟩ := hw
    exact awaitExit_rouses m c
  exact .of_dealings (begin_dealings m (fun t h => hs ⟨t, h⟩) (fun t us h => he ⟨t, us, h⟩) fun c h => hw ⟨c, h⟩)

/-- And so does whatever a frame goes on with, unless it writes. -/
theorem resume_rouses (m : Loop) {F : Frame} (hs : ∀ l opening asking, F ≠ .introducing l opening asking) (o : Ending) :
    Rouses m (resume F o m).1 := by
  by_cases ht : ∃ c, F = .terminating c
  · obtain ⟨c, rfl⟩ := ht
    exact terminateResumed_rouses m c o
  · exact .of_dealings (resume_dealings m hs (fun c h => ht ⟨c, h⟩) o)

/-- And so does whatever reaches a loop from outside, unless somebody writes by way of the session. -/
theorem apply_rouses (m : Loop) {s : Stimulus} (hs : ∀ r, s ≠ .send r) : Rouses m (m.apply s).1 := by
  have hto : ∀ {t : TransportId} {k : Loop → Loop × Reaction}, Rouses m (k m).1 → Rouses m (m.withTransport t k).1 := by
    intro t k hk
    unfold withTransport
    split
    · exact hk
    · exact .of_dealings rfl
  have hchild : ∀ {c : ChildId} {k : Loop → Loop × Reaction}, Rouses m (k m).1 → Rouses m (m.withChild c k).1 := by
    intro c k hk
    unfold withChild
    split
    · exact hk
    · exact .of_dealings rfl
  have hwritten : ∀ c pipe octets, Rouses m (m.written c pipe octets).1 := by
    intro c pipe octets
    unfold written
    split
    · next h => exact .of_dealings (dealings_feedStream h)
    · exact .of_dealings rfl
  cases s with
  | cancel u => exact .of_dealings (dealings_cancelTask u)
  | send r => exact absurd rfl (hs r)
  | write t r =>
    refine hto ?_
    rw [reacted_fst]
    exact write_rouses m t r
  | writeValue t v =>
    have hline := dealings_writeLine (m := m) t (encodeValue m.state.settings.encoding v)
    refine hto ?_
    split <;> rename_i hm <;> rw [hm] at hline <;> exact .of_dealings hline
  | receive t v =>
    refine hto ?_
    rw [reacted_fst]
    exact .of_dealings (dealings_receive t v)
  | report t e => exact hto (.of_dealings (dealings_report t e))
  | openGate t call => exact hto (.of_dealings (dealings_settleAll _ _))
  | output c octets => exact hchild (hwritten c .output octets)
  | errors c octets => exact hchild (hwritten c .errors octets)
  | exit c code => exact hchild (exitChild_rouses m c code)
  | closeInput c => exact hchild (.of_dealings (State.dealings_modifyChild m.state c (fun _ => rfl) fun _ => rfl))
  | breakOutput c message => exact hchild (.of_dealings (dealings_breakStream c .output _))
  | _ => exact .of_dealings rfl

end Loop

end DiagnosticsClient
