import DiagnosticsClient.Proofs.Transport.Runs
import DiagnosticsClient.Proofs.Session.Lasting
/-
What passes on values, and what leaves transports alone.

Most of what the tasks of a transport do leaves it as it is, passes nothing on, writes
nothing, and makes nobody read (`Passes []`); to read passes values on besides. There
is a lemma for each thing that is done at once, with no condition on the loop but, for
what a transport passes on, that it is watched.
-/
namespace DiagnosticsClient

open Async Async.Machine

/-- What the tasks of a transport are made for. -/
inductive Routine.IsChore : Routine → Prop
  | start : IsChore (.start 0)
  | stop : IsChore (.stop 0)
  | readOutput (c : ChildId) : IsChore (.readOutput 0 c)
  | drainErrors (c : ChildId) : IsChore (.drainErrors c)
  | awaitExit (c : ChildId) : IsChore (.awaitExit c)

/-- A routine that passes on what a child writes. -/
def Routine.isReading : Routine → Bool
  | .readOutput .. => true
  | _ => false

namespace State

/-- A transport that drives a child. -/
def driven (s : State) (t : TransportId) : Option ChildTransport :=
  match s.transports[t]? with
  | some (.child x) => some x
  | _ => none

theorem childTransport_eq_of_driven {s : State} {t : TransportId} {x : ChildTransport} (h : s.driven t = some x) :
    s.childTransport t = x := by
  unfold driven at h
  unfold childTransport
  generalize s.transports[t]? = found at h ⊢
  cases found with
  | none => cases h
  | some transport =>
    cases transport with
    | child y => exact Option.some.inj h
    | rehearsed y => cases h

theorem driven_modifyChildTransport (s : State) (t t' : TransportId) (k : ChildTransport → ChildTransport) :
    (s.modifyChildTransport t k).driven t' = if t' = t then (s.driven t).map k else s.driven t' := by
  unfold driven modifyChildTransport
  by_cases h : t = t'
  · subst h
    cases ht : s.transports[t]? with
    | none => simp [ht]
    | some x => cases x <;> simp [ht]
  · simp [h, Ne.symm h]

theorem driven_modifyRehearsedTransport (s : State) (t t' : TransportId) (k : RehearsedTransport → RehearsedTransport) :
    (s.modifyRehearsedTransport t k).driven t' = s.driven t' := by
  unfold driven modifyRehearsedTransport
  by_cases h : t = t'
  · subst h
    cases ht : s.transports[t]? with
    | none => simp [ht]
    | some x => cases x <;> simp [ht]
  · simp [h]

theorem tidings_record (s : State) (e : Entry) : (s.record e).tidings = s.tidings ++
    (match e with
      | .received _ v => some (.message v)
      | .note n => if n.level = .error then some (.trouble n.text) else none
      | .reported _ error => some (.close error)
      | _ => none : Option Tiding).toList := by
  simp only [tidings, record, Array.toList_push, List.filterMap_append]
  cases e with
  | note n => by_cases h : n.level = .error <;> simp [h]
  | _ => rfl

theorem writes_record (s : State) (e : Entry) : (s.record e).writes = s.writes ++
    (match e with
      | .wrote c octets => some (c, octets)
      | _ => none : Option (ChildId × Bytes)).toList := by
  simp only [writes, record, Array.toList_push, List.filterMap_append]
  cases e <;> rfl

end State

/-- An entry about something that is neither made known nor written. -/
def Entry.isAside : Entry → Bool
  | .note n => n.level ≠ .error
  | .received .. => false
  | .reported .. => false
  | .wrote .. => false
  | _ => true

namespace Loop

variable {m m' m'' : Loop} {vs vs' : List Json} {c : ChildId} {t : TransportId}

/-- Values are passed on; otherwise transports are left alone. -/
structure Passes (vs : List Json) (m m' : Loop) : Prop where
  driven : ∀ t, m'.state.driven t = m.state.driven t
  tidings : m'.state.tidings = m.state.tidings ++ vs.map .message
  writes : m'.state.writes = m.state.writes
  receiver : m'.state.receiver = m.state.receiver
  made : ∀ {u r}, m'.routine? u = some r → m.routine? u = some r ∨ r.IsChore ∧ r.isReading = false

namespace Passes

theorem trans (h : Passes vs m m') (h' : Passes vs' m' m'') : Passes (vs ++ vs') m m'' where
  driven t := (h'.driven t).trans (h.driven t)
  tidings := by rw [h'.tidings, h.tidings, List.map_append, List.append_assoc]
  writes := h'.writes.trans h.writes
  receiver := h'.receiver.trans h.receiver
  made hr := (h'.made hr).elim h.made .inr

theorem of_same (hs : m'.state = m.state)
    (hm : ∀ {u r}, m'.routine? u = some r → m.routine? u = some r ∨ r.IsChore ∧ r.isReading = false) : Passes [] m m' :=
  ⟨fun t => by rw [hs], by rw [hs]; simp, by rw [hs], by rw [hs], hm⟩

theorem of_tasks (hs : m'.state = m.state) (ht : m'.tasks = m.tasks) : Passes [] m m' :=
  .of_same hs fun {u r} hr => by
    simp only [Machine.routine?, ht] at hr
    exact .inl hr

theorem refl (m : Loop) : Passes [] m m := .of_tasks rfl rfl

theorem future (m : Loop) : Passes [] m m.future.1 := .of_tasks rfl rfl

theorem settle (m : Loop) (f : FutureId) (o : Ending) : Passes [] m (m.settle f o) := .of_tasks settle_state settle_tasks

theorem settleAll (m : Loop) (fs : List FutureId) (o : Ending) : Passes [] m (fs.foldl (fun m f => m.settle f o) m) := by
  induction fs generalizing m with
  | nil => exact .refl m
  | cons f fs ih => exact (settle m f o).trans (ih _)

theorem spawn (m : Loop) {r : Routine} (hr : r.IsChore) (hread : r.isReading = false) : Passes [] m (m.spawn r).1 := by
  refine .of_same rfl fun {u r'} h => ?_
  rw [routine?_spawn] at h
  split at h
  · cases h
    exact .inr ⟨hr, hread⟩
  · exact .inl h

/-- What is shared is changed beside the transports and the transcript. -/
theorem modify (m : Loop) (k : State → State) (ht : (k m.state).transports = m.state.transports)
    (hlog : (k m.state).transcript = m.state.transcript) (hr : (k m.state).receiver = m.state.receiver) :
    Passes [] m (m.modify k) where
  driven t := by simp only [Loop.modify, State.driven, ht]
  tidings := by simp only [Loop.modify, State.tidings, hlog, List.map_nil, List.append_nil]
  writes := by simp only [Loop.modify, State.writes, hlog]
  receiver := hr
  made := .inl

theorem record (m : Loop) {e : Entry} (he : e.isAside = true) : Passes [] m (m.record e) where
  driven _ := rfl
  tidings := by
    refine (State.tidings_record m.state e).trans ?_
    cases e with
    | note n => simp [show n.level ≠ .error from of_decide_eq_true he]
    | received => cases he
    | reported => cases he
    | wrote => cases he
    | _ => rfl
  writes := by
    refine (State.writes_record m.state e).trans ?_
    cases e <;> first | exact List.append_nil _ | cases he
  receiver := rfl
  made := .inl

theorem note (m : Loop) {level : Level} (text : Text) (h : level ≠ .error) : Passes [] m (m.note level text) :=
  .record m (decide_eq_true h)

theorem modifyChild (m : Loop) (c : ChildId) (k : Child → Child) : Passes [] m (m.modify (·.modifyChild c k)) :=
  .modify m _ rfl rfl rfl

theorem modifyStream (m : Loop) (c : ChildId) (pipe : Pipe) (k : Stream → Stream) : Passes [] m (m.modifyStream c pipe k) :=
  .modifyChild m c _

theorem modifyGate (m : Loop) (t : TransportId) (call : Call) (k : Gate → Gate) : Passes [] m (m.modifyGate t call k) where
  driven t' := State.driven_modifyRehearsedTransport m.state t t' _
  tidings := (List.append_nil _).symm
  writes := rfl
  receiver := rfl
  made := .inl

/-! ## Streams and children -/

theorem wakeReader (m : Loop) (c : ChildId) (pipe : Pipe) (o : Ending) : Passes [] m (m.wakeReader c pipe o) := by
  unfold Loop.wakeReader
  split
  · exact .refl m
  · exact (modifyStream m c pipe _).trans (.settle _ _ o)

theorem feedStream {octets : Bytes} {pipe : Pipe} (h : m.feedStream c pipe octets = .ok m') : Passes [] m m' := by
  unfold Loop.feedStream at h
  split at h
  · cases h
  · split at h <;> cases h
    · exact .refl m
    · exact (modifyStream m c pipe _).trans (.wakeReader _ _ _ _)

theorem endStream (m : Loop) (c : ChildId) (pipe : Pipe) : Passes [] m (m.endStream c pipe) :=
  (modifyStream m c pipe _).trans (.wakeReader _ _ _ _)

theorem breakStream (m : Loop) (c : ChildId) (pipe : Pipe) (e : SystemError) : Passes [] m (m.breakStream c pipe e) :=
  (modifyStream m c pipe _).trans (.wakeReader _ _ _ _)

theorem exitChild (m : Loop) (c : ChildId) (code : Int) : Passes [] m (m.exitChild c code) := by
  unfold Loop.exitChild
  dsimp only
  split
  · exact (((modifyChild m c _).trans (.endStream _ _ _)).trans (.endStream _ _ _)).trans (.settleAll _ _ _)
  · exact .refl m

theorem signal (m : Loop) (c : ChildId) (s : Signal) : Passes [] m (m.signal c s) := by
  have hrec := record m (e := .signalled c s) rfl
  unfold Loop.signal
  dsimp only
  split
  · exact hrec
  · exact hrec.trans (.exitChild _ _ _)

theorem awaitStream (m : Loop) (c : ChildId) (pipe : Pipe) (F : Frame) : Passes [] m (m.awaitStream c pipe F).1 :=
  (future m).trans (.modifyStream m.future.1 c pipe fun s => { s with waiter := some m.future.2 })

theorem awaitExit (m : Loop) (c : ChildId) : Passes [] m (awaitExit c m).1 := by
  unfold Loop.awaitExit
  split
  · exact .refl m
  · exact (future m).trans (.modifyChild m.future.1 c fun child => { child with exitWaiters := child.exitWaiters ++ [m.future.2] })

theorem drainLines (c : ChildId) (fuel : Nat) (m : Loop) : Passes [] m (drainLines c fuel m).1 := by
  induction fuel generalizing m with
  | zero => exact .awaitStream m c .errors _
  | succ fuel ih =>
    unfold Loop.drainLines
    split
    · exact .awaitStream m c .errors _
    · exact .refl m
    · next line rest _ =>
      have hread := modifyStream m c .errors fun s => { s with buffer := rest }
      dsimp only
      split
      · exact hread
      · split
        · exact hread
        · exact (hread.trans (.note _ _ Level.noConfusion)).trans (ih _)

theorem drainResumed (m : Loop) (c : ChildId) (o : Ending) : Passes [] m (drainResumed c o m).1 := by
  have hfree := modifyStream m c .errors fun s => { s with waiter := none }
  unfold Loop.drainResumed
  dsimp only
  split
  · exact hfree.trans (.drainLines c _ _)
  · exact hfree

/-! ## Limits -/

theorem hold (m : Loop) (u : TaskId) : Passes [] m (m.modifyTask u fun task => { task with mustCancel := true }) := by
  refine .of_same rfl fun {v r} hr => .inl ?_
  obtain ⟨task, htask, rfl⟩ := Option.map_eq_some_iff.mp hr
  obtain ⟨task', htask', rfl⟩ := exists_of_setHeld htask
  simp [Machine.routine?, htask']

/-- A cancellation settles a future, or is held back. -/
theorem cancelFuture (fuel : Nat) (m : Loop) (f : FutureId) : Passes [] m (m.cancelFuture fuel f).1 := by
  induction fuel generalizing m f with
  | zero => exact .refl m
  | succ fuel ih =>
    unfold Machine.cancelFuture
    split
    · exact .refl m
    · split
      · exact .refl m
      · split
        · exact .settle m f _
        · next u _ =>
          cases hw : m.tasks[u]?.bind (·.waiting) with
          | none => exact .hold m u
          | some g =>
            have hdown := ih m g
            dsimp only
            split
            · exact hdown
            · exact hdown.trans (.hold _ u)

theorem cancelTask (m : Loop) (u : TaskId) : Passes [] m (m.cancelTask u).1 := .cancelFuture _ m _

theorem addCallback (m : Loop) (f : FutureId) (c : Callback) : Passes [] m (m.addCallback f c) := by
  unfold Machine.addCallback
  split <;> exact .of_tasks rfl rfl

theorem addTimer (m : Loop) (time : Binary64) (f : FutureId) : Passes [] m (m.addTimer time f) := by
  unfold Machine.addTimer
  split <;> exact .of_tasks rfl rfl

theorem within (m : Loop) (limit : Seconds) (c : ChildId) : Passes [] m (within limit (.awaitExit c) m).1 := by
  have hspawn := spawn m (.awaitExit c) rfl
  unfold Loop.within
  split
  · exact hspawn
  · split
    · exact .refl m
    · exact ((hspawn.trans (.future _)).trans
        (.addTimer _ _ _)).trans (.addCallback _ _ _)

theorem timeResumed (m : Loop) (u : TaskId) (w : FutureId) (o : Ending) : Passes [] m (timeResumed u w o m).1 := by
  unfold Loop.timeResumed
  split
  · exact .of_tasks rfl rfl
  · dsimp only
    split <;> exact .of_tasks rfl rfl

theorem cancelAndWait (m : Loop) (u : TaskId) : Passes [] m (cancelAndWait u m).1 :=
  ((future m).trans (.addCallback _ _ _)).trans (.cancelTask _ u)

/-! ## Transports -/

theorem gateResumed (m : Loop) (t : TransportId) (call : Call) (fails : Bool) (w : FutureId) (o : Ending) :
    Passes [] m (gateResumed t call fails w o m).1 := by
  have hgate := modifyGate m t call fun gate => { gate with waiters := gate.waiters.erase w }
  unfold Loop.gateResumed Loop.concludeCall
  dsimp only
  split
  · split
    · exact hgate
    · exact hgate.trans (.record _ rfl)
  · exact hgate

theorem terminateResumed (m : Loop) (c : ChildId) (o : Ending) : Passes [] m (terminateResumed c o m).1 := by
  unfold Loop.terminateResumed
  split
  · exact .note _ _ Level.noConfusion
  · exact .signal m c .kill
  · exact .refl m

theorem killResumed (m : Loop) (c : ChildId) (o : Ending) : Passes [] m (killResumed c o m).1 := by
  unfold Loop.killResumed
  split
  · exact .note _ _ Level.noConfusion
  · exact .refl m

theorem recordNotes (m : Loop) {notes : List Note} (h : ∀ n ∈ notes, n.level ≠ .error) :
    Passes [] m (m.modify fun s => notes.foldl (fun s n => s.record (.note n)) s) := by
  induction notes generalizing m with
  | nil => exact .refl m
  | cons n notes ih =>
    obtain ⟨hn, hnotes⟩ := List.forall_mem_cons.mp h
    exact (record m (e := .note n) (decide_eq_true hn)).trans (ih _ hnotes)

/-- Values are passed on up to the first that is refused. -/
theorem receiveAll (hr : m.state.receiver = .watcher) (t : TransportId) (vs : List Json) :
    ∃ vs', Passes vs' m (m.receiveAll t vs).1 := by
  induction vs generalizing m with
  | nil => exact ⟨[], .refl m⟩
  | cons v vs ih =>
    unfold Loop.receiveAll Loop.receive
    rw [hr]
    dsimp only
    cases refusalIn v with
    | some text => exact ⟨[], .refl m⟩
    | none =>
      obtain ⟨vs', h⟩ := ih (m := m.record (.received t v)) hr
      have hone : Passes [v] m (m.record (.received t v)) :=
        ⟨fun _ => rfl, State.tidings_record m.state _, (State.writes_record m.state _).trans (List.append_nil _), rfl, .inl⟩
      exact ⟨v :: vs', hone.trans h⟩

end Passes

end Loop

end DiagnosticsClient
