import DiagnosticsClient.Proofs.Session.Launching
import DiagnosticsClient.Proofs.Transport.Passes
/-
What bypasses transports.

Most of what the tasks of a session do receives nothing, has no task made for a transport,
and leaves transports alone, or all but one of them (`Bypasses`).
There is a lemma for each thing that is done at once, with no condition on the loop. What
does more is to read the output of a child, and to start a transport.
-/
namespace DiagnosticsClient

open Async Async.Machine

/-- What is run as a task for a transport: to stop it, or to pass on what its child writes. -/
def Routine.tends : Routine → Bool
  | .stop _ => true
  | .readOutput .. => true
  | _ => false

/-- What handles a transport: to start or stop it, or to read what its child writes. -/
def Routine.handles : Routine → Bool
  | .start _ => true
  | .stop _ => true
  | .endTasks .. => true
  | .readOutput .. => true
  | _ => false

/-- The transport for which a frame reads. -/
def Frame.readsFor : Frame → Option TransportId
  | .reading t _ _ => some t
  | .outputEnded t _ _ => some t
  | _ => none

/-- Somebody speaks in the place of a transport. -/
def Stimulus.isPrompt : Stimulus → Bool
  | .receive .. => true
  | .report .. => true
  | _ => false

/-- An entry about what a transport passed on. -/
def Entry.isReceipt : Entry → Bool
  | .received .. => true
  | _ => false

namespace Loop

variable {T : TransportId → Prop} {m m' m'' : Loop} {c : ChildId} {t : TransportId}

/-- Messages are received, no task is made for a transport, and transports are left alone, but for some. -/
structure Bypasses (T : TransportId → Prop) (ms : List Message) (m m' : Loop) : Prop where
  transports : ∀ {t}, ¬ T t → m'.state.childTransport t = m.state.childTransport t
  received : m'.state.received = m.state.received ++ ms
  made : ∀ {u r}, m'.routine? u = some r → r.tends = true → m.routine? u = some r

namespace Bypasses

theorem trans {ms ms' : List Message} (h : Bypasses T ms m m') (h' : Bypasses T ms' m' m'') : Bypasses T (ms ++ ms') m m'' where
  transports ht := (h'.transports ht).trans (h.transports ht)
  received := by rw [h'.received, h.received, List.append_assoc]
  made hr htends := h.made (h'.made hr htends) htends

theorem of_state (hs : m'.state = m.state) (hm : ∀ {u r}, m'.routine? u = some r → r.tends = true → m.routine? u = some r) :
    Bypasses T [] m m' :=
  ⟨fun _ => by rw [hs], by rw [hs, List.append_nil], hm⟩

theorem of_tasks (hs : m'.state = m.state) (ht : m'.tasks = m.tasks) : Bypasses T [] m m' :=
  .of_state hs fun hr _ => by simpa only [Machine.routine?, ht] using hr

theorem refl (m : Loop) : Bypasses T [] m m := .of_tasks rfl rfl

theorem settle (m : Loop) (f : FutureId) (o : Ending) : Bypasses T [] m (m.settle f o) := .of_tasks settle_state settle_tasks

theorem settleAll (m : Loop) (fs : List FutureId) (o : Ending) : Bypasses T [] m (fs.foldl (fun m f => m.settle f o) m) := by
  induction fs generalizing m with
  | nil => exact .refl m
  | cons f fs ih => exact (settle m f o).trans (ih _)

theorem future (m : Loop) : Bypasses T [] m m.future.1 := .of_tasks rfl rfl

theorem spawn (m : Loop) {r : Routine} (hr : r.tends = false) : Bypasses T [] m (m.spawn r).1 := by
  refine .of_state rfl fun {u r'} h htends => ?_
  rw [routine?_spawn] at h
  split at h
  · cases h
    cases hr.symm.trans htends
  · exact h

theorem spawnGroup (m : Loop) {routines : List Routine} (hr : ∀ r ∈ routines, r.tends = false) :
    Bypasses T [] m (m.spawnGroup routines).1 := by
  have heff : Effect { target := fun _ => True, wake := fun _ => False, cancel := fun _ => False, spawn := (· ∈ routines), gather := True }
      m (m.spawnGroup routines).1 := spawnGroup_effect (fun _ hmem => hmem) trivial fun _ _ => trivial
  refine .of_state (spawnGroup_state m routines) fun {u r} h htends => ?_
  obtain ⟨task, htask, hroutine⟩ := Option.map_eq_some_iff.mp h
  rcases heff.extends.task_cases htask with ⟨task', held, htask', rfl, -⟩ | ⟨-, hmem, -⟩
  · simp [Machine.routine?, htask', ← hroutine]
  · rw [← hroutine, hr _ hmem] at htends
    cases htends

/-- What is shared is changed beside the transports and the transcript. -/
theorem modify (m : Loop) (k : State → State) (ht : (k m.state).transports = m.state.transports)
    (hlog : (k m.state).transcript = m.state.transcript) : Bypasses T [] m (m.modify k) where
  transports _ := by simp only [Loop.modify, State.childTransport, ht]
  received := by simp only [Loop.modify, State.received, State.log, hlog, List.append_nil]
  made hr _ := hr

theorem record (m : Loop) {e : Entry} (he : e.isReceipt = false) : Bypasses T [] m (m.record e) where
  transports _ := rfl
  received := by
    refine (State.received_record m.state e).trans ?_
    cases e with
    | received t v => cases he
    | _ => rfl
  made hr _ := hr

theorem note (m : Loop) (level : Level) (text : Text) : Bypasses T [] m (m.note level text) := .record m rfl

theorem modifyChild (m : Loop) (c : ChildId) (k : Child → Child) : Bypasses T [] m (m.modify (·.modifyChild c k)) :=
  .modify m _ rfl rfl

theorem modifyTransport (m : Loop) (ht : T t) (k : ChildTransport → ChildTransport) : Bypasses T [] m (m.modifyTransport t k) where
  transports {t'} ht' :=
    (State.childTransport_modifyChildTransport m.state t t' k).resolve_right fun h => ht' (by rwa [h.1])
  received := (List.append_nil _).symm
  made hr _ := hr

theorem modifyGate (m : Loop) (t : TransportId) (call : Call) (k : Gate → Gate) : Bypasses T [] m (m.modifyGate t call k) where
  transports {t'} _ := State.childTransport_modifyRehearsedTransport m.state t t' _
  received := (List.append_nil _).symm
  made hr _ := hr

/-! ## Streams and children -/

theorem modifyStream (m : Loop) (c : ChildId) (pipe : Pipe) (k : Stream → Stream) : Bypasses T [] m (m.modifyStream c pipe k) :=
  .modifyChild m c _

theorem wakeReader (m : Loop) (c : ChildId) (pipe : Pipe) (o : Ending) : Bypasses T [] m (m.wakeReader c pipe o) := by
  unfold Loop.wakeReader
  split
  · exact .refl m
  · exact (modifyStream m c pipe _).trans (.settle _ _ o)

theorem feedStream {octets : Bytes} {pipe : Pipe} (h : m.feedStream c pipe octets = .ok m') : Bypasses T [] m m' := by
  unfold Loop.feedStream at h
  split at h
  · cases h
  · split at h <;> cases h
    · exact .refl m
    · exact (modifyStream m c pipe _).trans (.wakeReader _ c pipe _)

theorem endStream (m : Loop) (c : ChildId) (pipe : Pipe) : Bypasses T [] m (m.endStream c pipe) :=
  (modifyStream m c pipe _).trans (.wakeReader _ c pipe _)

theorem breakStream (m : Loop) (c : ChildId) (pipe : Pipe) (e : SystemError) : Bypasses T [] m (m.breakStream c pipe e) :=
  (modifyStream m c pipe _).trans (.wakeReader _ c pipe _)

theorem exitChild (m : Loop) (c : ChildId) (code : Int) : Bypasses T [] m (m.exitChild c code) := by
  unfold Loop.exitChild
  dsimp only
  split
  · exact (((modifyChild m c _).trans (.endStream _ c .output)).trans (.endStream _ c .errors)).trans (.settleAll _ _ _)
  · exact .refl m

theorem signal (m : Loop) (c : ChildId) (s : Signal) : Bypasses T [] m (m.signal c s) := by
  have hrec := record (T := T) m (e := .signalled c s) rfl
  unfold Loop.signal
  dsimp only
  split
  · exact hrec
  · exact hrec.trans (.exitChild _ c _)

theorem launch (m : Loop) : Bypasses T [] m m.launch.1 := by
  have hnext : ∀ launches l, Bypasses T [] m ((m.modify fun s => { s with launches }).record (.launched l)) := fun launches l =>
    (modify m (fun s => { s with launches }) rfl rfl).trans (.record _ rfl)
  unfold Loop.launch
  dsimp only
  split
  · exact hnext _ _
  · exact (hnext _ _).trans (.modify _ (fun s => { s with children := s.children ++ [_] }) rfl rfl)

theorem awaitExit (m : Loop) (c : ChildId) : Bypasses T [] m (awaitExit c m).1 := by
  unfold Loop.awaitExit
  split
  · exact .refl m
  · exact (future m).trans (.modifyChild _ c fun child => { child with exitWaiters := child.exitWaiters ++ [m.future.2] })

theorem awaitStream (m : Loop) (c : ChildId) (pipe : Pipe) (F : Frame) : Bypasses T [] m (m.awaitStream c pipe F).1 :=
  (future m).trans (.modifyStream m.future.1 c pipe fun s => { s with waiter := some m.future.2 })

theorem drainLines (c : ChildId) (fuel : Nat) (m : Loop) : Bypasses T [] m (drainLines c fuel m).1 := by
  induction fuel generalizing m with
  | zero => exact .awaitStream m c .errors _
  | succ fuel ih =>
    unfold Loop.drainLines
    split
    · exact .awaitStream m c .errors _
    · exact .refl m
    · next line rest _ =>
      have hread := modifyStream (T := T) m c .errors fun s => { s with buffer := rest }
      dsimp only
      split
      · exact hread
      · split
        · exact hread
        · exact (hread.trans (.note _ _ _)).trans (ih _)

theorem drainResumed (m : Loop) (c : ChildId) (o : Ending) : Bypasses T [] m (drainResumed c o m).1 := by
  have hfree := modifyStream (T := T) m c .errors fun s => { s with waiter := none }
  unfold Loop.drainResumed
  dsimp only
  split
  · exact hfree.trans (.drainLines c _ _)
  · exact hfree

/-! ## Writing -/

theorem put (m : Loop) (c : ChildId) (octets : Bytes) : Bypasses T [] m (m.put c octets) := by
  unfold Loop.put
  split
  · next h => exact .feedStream h
  · exact .refl m

theorem react (m : Loop) (c : ChildId) (request : Request) : Bypasses T [] m (m.react c request) := by
  unfold Loop.react
  split
  · split
    · unfold Loop.reply
      dsimp only
      split
      · split
        · exact .modifyChild m c _
        · exact (modifyChild m c _).trans (.put _ c _)
      · exact .put m c _
      · exact .exitChild m c _
      · exact .refl m
    · exact .refl m
  · exact .refl m

theorem writeLine (m : Loop) (t : TransportId) (line : Except EncodeError Bytes) : Bypasses T [] m (m.writeLine t line).1 := by
  unfold Loop.writeLine
  dsimp only
  split
  · split
    · exact .note m _ _
    · split
      · exact .refl m
      · exact .record m rfl
  · exact .note m _ _

theorem write (m : Loop) (t : TransportId) (request : Request) : Bypasses T [] m (m.write t request).1 := by
  unfold Loop.write
  split
  · exact .record m rfl
  · have hline := writeLine (T := T) m t (encodeMessage m.state.settings.encoding (.request request))
    split <;> rename_i hm <;> rw [hm] at hline
    · exact hline
    · exact hline.trans (.react _ _ request)
    · exact hline

theorem send (m : Loop) (request : Request) : Bypasses T [] m (m.send request).1 := by
  unfold Loop.send
  dsimp only
  split
  · exact .note m _ _
  · exact (note m .debug _).trans (.write _ _ request)

theorem sendAll (m : Loop) (requests : List Request) : Bypasses T [] m (m.sendAll requests).1 := by
  induction requests generalizing m with
  | nil => exact .refl m
  | cons r rest ih =>
    have hsend := send (T := T) m r
    unfold Loop.sendAll
    split <;> rename_i hm <;> rw [hm] at hsend
    · exact hsend.trans (ih _)
    · exact hsend

/-! ## Listeners -/

theorem modifyListener (m : Loop) (l : ListenerId) (k : Listener → Listener) : Bypasses T [] m (m.modifyListener l k) :=
  .modify m _ rfl rfl

theorem modifyLock (m : Loop) (k : Lock → Lock) : Bypasses T [] m (m.modifyLock k) := .modify m _ rfl rfl

theorem wakeLock (m : Loop) : Bypasses T [] m m.wakeLock := by
  unfold Loop.wakeLock
  split
  · exact .refl m
  · exact .settle m _ _

theorem releaseLock (m : Loop) : Bypasses T [] m m.releaseLock := (modifyLock m _).trans (.wakeLock _)

theorem wakeNext (m : Loop) (fs : List FutureId) : Bypasses T [] m (m.wakeNext fs).1 := by
  induction fs with
  | nil => exact .refl m
  | cons f rest ih =>
    unfold Loop.wakeNext
    split
    · exact ih
    · exact .settle m f _

theorem wakeGetter (m : Loop) (l : ListenerId) : Bypasses T [] m (m.wakeGetter l) :=
  (wakeNext m _).trans (.modifyListener _ l _)

theorem deliver (m : Loop) (l : ListenerId) (d : Delivery) : Bypasses T [] m (m.deliver l d) :=
  ((record m (e := .delivered l d) rfl).trans (.modifyListener _ l _)).trans (.wakeGetter _ l)

theorem deliverAll (m : Loop) (ls : List ListenerId) (d : Delivery) : Bypasses T [] m (m.deliverAll ls d) := by
  induction ls generalizing m with
  | nil => exact .refl m
  | cons l ls ih => exact (deliver m l d).trans (ih _)

theorem detachAll (m : Loop) (e : Option ServerError) : Bypasses T [] m (m.detachAll e) :=
  (modify m (fun s => { s with registered := [], current := none }) rfl rfl).trans (.deliverAll _ _ _)

theorem listen (m : Loop) : Bypasses T [] m m.listen.1 := .modify m (fun s => { s with listeners := s.listeners ++ [{}] }) rfl rfl

theorem issueSeq (m : Loop) : Bypasses T [] m m.issueSeq.1 := .modify m (fun s => { s with nextSeq := s.nextSeq + 1 }) rfl rfl

/-- A transport that is built does not take the place of another. -/
theorem addTransport (m : Loop) : Bypasses T [] m m.addTransport.1 := by
  have hadd : ∀ {m₁ : Loop} (x : Transport), (∀ c, x = .child c → c = {}) → Bypasses T [] m m₁ →
      Bypasses T [] m (m₁.modify fun s => { s with transports := s.transports ++ [x] }) := by
    refine fun {m₁} x hx h => h.trans ⟨fun {t} _ => ?_, (List.append_nil _).symm, fun hr _ => hr⟩
    unfold State.childTransport Loop.modify
    dsimp only
    rcases Nat.lt_trichotomy t m₁.state.transports.length with hlt | rfl | hgt
    · rw [List.getElem?_append_left hlt]
    · cases x with
      | child c => simp [hx c rfl]
      | rehearsed r => simp
    · rw [List.getElem?_eq_none (by simp; omega), List.getElem?_eq_none (Nat.le_of_lt hgt)]
  unfold Loop.addTransport
  dsimp only
  split
  · exact hadd (.child {}) (fun c hc => by cases hc; rfl) (.refl m)
  · exact hadd (.rehearsed _) (fun c hc => by cases hc) (.modify m (fun s => { s with rehearsals := _ }) rfl rfl)

/-! ## Driving -/

theorem concludeCall (m : Loop) (t : TransportId) (call : Call) (fails : Bool) : Bypasses T [] m (m.concludeCall t call fails).1 := by
  unfold Loop.concludeCall
  split
  · exact .refl m
  · exact .record m rfl

theorem gateResumed (m : Loop) (t : TransportId) (call : Call) (fails : Bool) (w : FutureId) (o : Ending) :
    Bypasses T [] m (gateResumed t call fails w o m).1 := by
  have hgate := modifyGate (T := T) m t call fun gate => { gate with waiters := gate.waiters.erase w }
  unfold Loop.gateResumed
  dsimp only
  split
  · exact hgate.trans (.concludeCall _ t call fails)
  · exact hgate

theorem openGate (m : Loop) (t : TransportId) (call : Call) : Bypasses T [] m (m.openGate t call) :=
  (modifyGate m t call _).trans (.settleAll _ _ _)

theorem terminateResumed (m : Loop) (c : ChildId) (o : Ending) : Bypasses T [] m (terminateResumed c o m).1 := by
  unfold Loop.terminateResumed
  split
  · exact .note m _ _
  · exact .signal m c .kill
  · exact .refl m

theorem killResumed (m : Loop) (c : ChildId) (o : Ending) : Bypasses T [] m (killResumed c o m).1 := by
  unfold Loop.killResumed
  split
  · exact .note m _ _
  · exact .refl m

/-! ## Limits -/

theorem hold (m : Loop) (u : TaskId) : Bypasses T [] m (m.modifyTask u fun task => { task with mustCancel := true }) := by
  refine .of_state rfl fun {v r} hr _ => ?_
  obtain ⟨task, htask, rfl⟩ := Option.map_eq_some_iff.mp hr
  obtain ⟨task', htask', rfl⟩ := exists_of_setHeld htask
  simp [Machine.routine?, htask']

/-- A cancellation settles a future, or is held back. -/
theorem cancelFuture (fuel : Nat) (m : Loop) (f : FutureId) : Bypasses T [] m (m.cancelFuture fuel f).1 := by
  induction fuel generalizing m f with
  | zero => exact .refl m
  | succ fuel ih =>
    unfold Machine.cancelFuture
    split
    · exact .refl m
    · split
      · exact .refl m
      · split
        · exact .settle m f _
        · next u _ =>
          cases hw : m.tasks[u]?.bind (·.waiting) with
          | none => exact .hold m u
          | some g =>
            have hdown := ih m g
            dsimp only
            split
            · exact hdown
            · exact hdown.trans (.hold _ u)

theorem cancelTask (m : Loop) (u : TaskId) : Bypasses T [] m (m.cancelTask u).1 := .cancelFuture _ m _

theorem addCallback (m : Loop) (f : FutureId) (k : Callback) : Bypasses T [] m (m.addCallback f k) := by
  unfold Machine.addCallback
  split <;> exact .of_tasks rfl rfl

theorem addTimer (m : Loop) (time : Binary64) (f : FutureId) : Bypasses T [] m (m.addTimer time f) := by
  unfold Machine.addTimer
  split <;> exact .of_tasks rfl rfl

theorem within (m : Loop) (limit : Seconds) {inner : Routine} (hi : inner.tends = false) : Bypasses T [] m (within limit inner m).1 := by
  have hspawn := spawn (T := T) m hi
  unfold Loop.within
  split
  · exact hspawn
  · split
    · exact .refl m
    · exact ((hspawn.trans (.future _)).trans (.addTimer _ _ _)).trans (.addCallback _ _ _)

theorem timeResumed (m : Loop) (u : TaskId) (w : FutureId) (o : Ending) : Bypasses T [] m (timeResumed u w o m).1 := by
  unfold Loop.timeResumed
  split
  · exact .of_tasks rfl rfl
  · dsimp only
    split <;> exact .of_tasks rfl rfl

theorem cancelAndWait (m : Loop) (u : TaskId) : Bypasses T [] m (cancelAndWait u m).1 :=
  ((future m).trans (.addCallback _ _ _)).trans (.cancelTask _ u)

end Bypasses

/-! ## Whatever a task does -/

/-- What a routine begins with bypasses transports, unless it reads the output of a child, or starts or stops a transport. -/
theorem begin_bypasses (m : Loop) {r : Routine} (hw : ∀ limit inner, r = .within limit inner → inner.tends = false)
    (hr : r.handles = false) : Bypasses T [] m (begin r m).1 := by
  cases r with
  | acquireLock =>
    simp only [begin, acquire]
    split
    · exact .modifyLock m fun lock => { lock with held := true }
    · exact (Bypasses.future m).trans (.modifyLock m.future.1 fun lock => { lock with waiters := lock.waiters ++ [m.future.2] })
  | openListener l =>
    simp only [begin, openListener]
    split
    · exact .refl m
    · exact .modifyListener m l _
  | register l => exact .refl m
  | closeListener l => exact .modifyListener m l _
  | closeSession => exact .refl m
  | next l =>
    simp only [begin, next]
    split
    · exact .refl m
    · split <;> exact .refl m
  | take l =>
    simp only [begin, take]
    split
    · exact Bypasses.modifyListener m l _
    · exact (Bypasses.future m).trans
        (.modifyListener m.future.1 l fun listener => { listener with getters := listener.getters ++ [m.future.2] })
  | collect l => exact .refl m
  | visit count => exact .listen m
  | request file limit =>
    have hboth := (Bypasses.issueSeq (T := T) m).trans (.issueSeq _)
    cases limit <;> exact hboth
  | exchange opening asking => exact .listen m
  | within limit inner => exact .within m limit (hw _ _ rfl)
  | cancelAndWait u => exact .cancelAndWait m u
  | start t => cases hr
  | stop t => cases hr
  | endTasks t tasks => cases hr
  | awaitExit c => exact .awaitExit m c
  | readOutput t c => cases hr
  | drainErrors c => exact .drainLines c _ m
  | checkFile => exact .refl m
  | checkFiles files context limit =>
    refine .spawnGroup m fun r hr => ?_
    obtain ⟨file, -, rfl⟩ := List.mem_map.mp hr
    rfl

/-- To stop a transport leaves its phase behind it, and all the others alone. -/
theorem stopChild_bypasses (m : Loop) (t : TransportId) : Bypasses (· = t) [] m (stopChild t m).1 := by
  unfold stopChild
  dsimp only
  split <;> exact Bypasses.modifyTransport (T := (· = t)) m rfl _

/-- To end the tasks of a transport leaves all the others alone. -/
theorem endTasks_bypasses (m : Loop) (t : TransportId) (us : List TaskId) : Bypasses (· = t) [] m (endTasks t us m).1 := by
  induction us with
  | nil =>
    have hmine : ∀ (m : Loop) (k : ChildTransport → ChildTransport), Bypasses (· = t) [] m (m.modifyTransport t k) :=
      fun m k => Bypasses.modifyTransport (T := (· = t)) m rfl k
    have hfree := hmine m fun x => { x with reader := none, drain := none }
    unfold endTasks
    dsimp only
    split
    · exact hfree
    · next c _ =>
      have hclosed := (hfree.trans (hmine _ fun x => { x with child := none })).trans
        (.modifyChild _ c fun child => { child with inputClosed := true })
      split
      · exact hclosed.trans (.signal _ c .terminate)
      · exact hclosed
  | cons u rest ih =>
    unfold endTasks
    split
    · exact ih
    · exact .cancelTask m u

/-- What a frame goes on with bypasses transports, unless it reads the output of a child. -/
theorem resume_bypasses (m : Loop) {F : Frame} (o : Ending) (hF : F.readsFor = none) : Bypasses T [] m (resume F o m).1 := by
  cases F with
  | locking w =>
    have hleave := Bypasses.modifyLock (T := T) m fun lock => { lock with waiters := lock.waiters.erase w }
    simp only [resume, acquireResumed]
    split
    · exact hleave.trans (.modifyLock _ fun lock => { lock with held := true })
    · dsimp only
      split
      · exact hleave
      · exact hleave.trans (.wakeLock _)
  | opening l =>
    simp only [resume, openResumed]
    split
    · exact .refl m
    · exact .modifyListener m l _
  | registering l =>
    have hlist := Bypasses.modify (T := T) m (fun s => { s with registered := s.registered ++ [l] }) rfl rfl
    simp only [resume, registerLocked]
    split
    · split
      · exact hlist.trans (.releaseLock _)
      · exact hlist.trans (.addTransport _)
    · exact .refl m
  | starting l t =>
    simp only [resume, startResumed]
    split
    · exact (Bypasses.modify m (fun s => { s with current := some t }) rfl rfl).trans (.releaseLock _)
    · exact (Bypasses.modify m (fun s => { s with registered := s.registered.erase l }) rfl rfl).trans (.releaseLock _)
  | leaving l =>
    have hlist := Bypasses.modify (T := T) m (fun s => { s with registered := s.registered.erase l }) rfl rfl
    simp only [resume, leaveLocked]
    split
    · split
      · split
        · exact (hlist.trans (.modify _ (fun s => { s with current := none }) rfl rfl)).trans (.note _ _ _)
        · exact hlist.trans (.releaseLock _)
      · exact .releaseLock m
    · exact .refl m
  | closing =>
    simp only [resume, closeLocked]
    split
    · split
      · exact .detachAll m none
      · exact (Bypasses.detachAll m none).trans (.releaseLock _)
    · exact .refl m
  | releasing => exact .releaseLock m
  | receiving l =>
    simp only [resume, nextResumed]
    split
    · exact .refl m
    · exact .modifyListener m l _
    · exact .refl m
  | getting l getter =>
    simp only [resume, takeResumed]
    split
    · exact .refl m
    · have hleave := (Bypasses.settle (T := T) m getter .cancelled).trans
        (.modifyListener _ l fun listener => { listener with getters := listener.getters.erase getter })
      dsimp only
      split
      · exact hleave.trans (.wakeGetter _ l)
      · exact hleave
  | collecting l taken =>
    simp only [resume, collectResumed]
    split <;> exact .refl m
  | visiting l count =>
    simp only [resume, visitOpened, visitOn]
    split
    · split <;> exact .refl m
    · exact .refl m
  | visited l count taken =>
    simp only [resume, visitResumed, visitOn]
    split
    · split <;> exact .refl m
    · exact .refl m
  | finishing ending =>
    simp only [resume, cleanedUp]
    split <;> exact .refl m
  | requesting file seq limit =>
    simp only [resume, requestResumed]
    split <;> exact .refl m
  | introducing l opening asking =>
    simp only [resume, exchangeOpened]
    split
    · have hsend := Bypasses.sendAll (T := T) m [opening, asking]
      split <;> rename_i hm <;> rw [hm] at hsend <;> exact hsend
    · exact .refl m
  | expecting l asking =>
    simp only [resume, exchangeResumed]
    split
    · split
      · exact .note m _ _
      · exact .refl m
    · exact .refl m
    · exact .refl m
    · exact .refl m
  | timing u w => exact .timeResumed m u w o
  | overdue u =>
    simp only [resume, overdueResumed]
    split <;> exact .refl m
  | lapsed u w =>
    simp only [resume, lapsedResumed]
    split <;> exact .of_tasks rfl rfl
  | abandoned w =>
    simp only [resume, abandonedResumed]
    split <;> exact .of_tasks rfl rfl
  | cancelWaiting u w => exact .of_tasks rfl rfl
  | gated t call fails w => exact .gateResumed m t call fails w o
  | ending t tasks =>
    simp only [resume, endResumed]
    split <;> exact .refl m
  | terminating c => exact .terminateResumed m c o
  | killing c => exact .killResumed m c o
  | exiting => exact .refl m
  | reading t c decoder => cases hF
  | outputEnded t c pending => cases hF
  | draining c => exact .drainResumed m c o
  | answered file context =>
    simp only [resume, answerResumed]
    split
    · split
      · exact .refl m
      · exact ((Bypasses.note m _ _).trans (.future _)).trans (.of_tasks rfl rfl)
    · exact .refl m
  | readSource file context diagnostics =>
    simp only [resume, sourceResumed]
    split <;> exact .refl m
  | gathered members => exact .refl m

/-! ## Whatever reaches the session -/

/-- Whatever reaches a session bypasses transports, unless somebody speaks in the place of one. -/
theorem apply_bypasses (m : Loop) {s : Stimulus} {held : List ListenerId} (ha : s.Admissible held m) (hs : s.isPrompt = false) :
    Bypasses T [] m (m.apply s).1 := by
  have hchild : ∀ (c : ChildId) {k : Loop → Loop × Reaction}, Bypasses T [] m (k m).1 → Bypasses T [] m (m.withChild c k).1 := by
    intro c k hk
    unfold Loop.withChild
    split
    · exact hk
    · exact .refl m
  have htransport : ∀ (t : TransportId) {k : Loop → Loop × Reaction}, Bypasses T [] m (k m).1 → Bypasses T [] m (m.withTransport t k).1 := by
    intro t k hk
    unfold Loop.withTransport
    split
    · exact hk
    · exact .refl m
  have hwritten : ∀ (c : ChildId) (pipe : Pipe) (octets : Bytes), Bypasses T [] m (m.written c pipe octets).1 := by
    intro c pipe octets
    unfold Loop.written
    split
    · next h => exact .feedStream h
    · exact .refl m
  cases s with
  | ask r =>
    refine .spawn m ?_
    cases hr : r.tends with
    | false => rfl
    | true =>
      have hasked := ha.1
      cases r <;> first | (cases hr; done) | cases hasked
  | cancel u => exact .cancelTask m u
  | advance time => exact .of_tasks rfl rfl
  | listen => exact .listen m
  | issueSeq => exact .issueSeq m
  | send r =>
    simp only [apply, reacted_fst]
    exact .send m r
  | write t r =>
    refine htransport t ?_
    rw [reacted_fst]
    exact .write m t r
  | writeValue t v =>
    refine htransport t ?_
    have hline := Bypasses.writeLine (T := T) m t (encodeValue m.state.settings.encoding v)
    split <;> rename_i hm <;> rw [hm] at hline <;> exact hline
  | receive t v => cases hs
  | report t e => cases hs
  | openGate t call => exact htransport t (.openGate m t call)
  | output c octets => exact hchild c (hwritten c .output octets)
  | errors c octets => exact hchild c (hwritten c .errors octets)
  | exit c code => exact hchild c (.exitChild m c code)
  | closeInput c => exact hchild c (.modifyChild m c _)
  | breakOutput c message => exact hchild c (.breakStream m c .output _)

end Loop

end DiagnosticsClient
