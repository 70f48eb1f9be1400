import DiagnosticsClient.Proofs.Async.Groups
import DiagnosticsClient.Proofs.Session.Departures
import DiagnosticsClient.Proofs.Session.Drives
/-
What few things that are done change: what time is to settle, and what was written.

Only who limits a time sets a timer, and only whoever introduces himself writes to a
transport. All else that a task does leaves the timers alone, puts nothing into the ready
queue that stands for one, and writes nothing (`Loop.doings`): there is a lemma for each thing
that is done at once, with no condition on the loop.
-/
namespace DiagnosticsClient

open Async Async.Machine

namespace Async

/-- The future that an entry settles because its time is up. -/
def Handle.alarm? {ν ε : Type} : Handle ν ε → Option FutureId
  | .expire w => some w
  | _ => none

namespace Machine

variable {σ ρ φ ν ε : Type} {m : Machine σ ρ φ ν ε} {f w : FutureId} {t : TaskId} {o : Outcome ν ε}

/-- The futures that time is to settle, or is about to. -/
def alarms (m : Machine σ ρ φ ν ε) : List FutureId := m.timers.toList.map (·.waiter) ++ m.ready.filterMap Handle.alarm?

theorem alarms_of_eq {m' : Machine σ ρ φ ν ε} (ht : m'.timers = m.timers) (hr : m'.ready = m.ready) : m'.alarms = m.alarms := by
  rw [alarms, ht, hr, alarms]

theorem mem_alarms : w ∈ m.alarms ↔ (∃ i ∈ m.timers, i.waiter = w) ∨ .expire w ∈ m.ready := by
  simp only [alarms, List.mem_append, List.mem_map, Array.mem_toList_iff, List.mem_filterMap]
  refine or_congr_right ⟨fun ⟨h, hh, hw⟩ => ?_, fun hh => ⟨_, hh, rfl⟩⟩
  cases h <;> cases hw
  exact hh

/-- What time is to settle stands for itself. -/
theorem Sound.alarm {T : FutureId → Prop} (hs : m.Sound T) (h : w ∈ m.alarms) : m.IsPlain w := by
  rcases mem_alarms.mp h with ⟨i, hi, rfl⟩ | hready
  · exact (hs.targets.timers hi).1
  · exact (hs.targets.ready hready rfl).1

theorem alarms_append {hs : List (Handle ν ε)} (h : ∀ k ∈ hs, k.alarm? = none) :
    ({ m with ready := m.ready ++ hs } : Machine σ ρ φ ν ε).alarms = m.alarms := by
  simp only [alarms, List.filterMap_append, List.filterMap_eq_nil_iff.mpr h, List.append_nil]

@[simp] theorem alarms_settle (f : FutureId) (o : Outcome ν ε) : (m.settle f o).alarms = m.alarms := by
  unfold settle
  split
  · rfl
  · split
    · rfl
    · refine alarms_append fun k hk => ?_
      obtain ⟨c, -, rfl⟩ := List.mem_map.mp hk
      rfl

@[simp] theorem alarms_settleAll (fs : List FutureId) (o : Outcome ν ε) :
    (fs.foldl (fun m f => m.settle f o) m).alarms = m.alarms := by
  induction fs generalizing m with
  | nil => rfl
  | cons f fs ih => exact ih.trans (alarms_settle f o)

@[simp] theorem alarms_enqueue {h : Handle ν ε} (hh : h.alarm? = none) : (m.enqueue h).alarms = m.alarms :=
  alarms_append fun _ hk => List.mem_singleton.mp hk ▸ hh

@[simp] theorem alarms_addCallback (f : FutureId) (c : Callback) : (m.addCallback f c).alarms = m.alarms := by
  unfold addCallback
  split
  · exact alarms_enqueue rfl
  · rfl

@[simp] theorem alarms_spawn (r : ρ) : (m.spawn r).1.alarms = m.alarms :=
  alarms_append (m := { m with futures := _, tasks := _ }) fun _ hk => List.mem_singleton.mp hk ▸ rfl

theorem alarms_spawnAll (routines : List ρ) : (m.spawnAll routines).alarms = m.alarms := by
  induction routines generalizing m with
  | nil => rfl
  | cons r rs ih => exact ih.trans (alarms_spawn r)

theorem alarms_noteAll (group : Nat) (members : List TaskId) : (m.noteAll group members).alarms = m.alarms := by
  induction members generalizing m with
  | nil => rfl
  | cons t ts ih => exact ih.trans (alarms_addCallback _ _)

theorem alarms_addGroup [Inhabited ν] (count : Nat) : (m.addGroup count).alarms = m.alarms := by
  unfold addGroup
  dsimp only
  split
  · exact alarms_settle _ _
  · rfl

theorem alarms_spawnGroup [Inhabited ν] (routines : List ρ) : (m.spawnGroup routines).1.alarms = m.alarms := by
  rw [spawnGroup_eq]
  exact (alarms_addGroup _).trans ((alarms_noteAll _ _).trans (alarms_spawnAll routines))

@[simp] theorem alarms_cancelFuture (fuel : Nat) (f : FutureId) : (m.cancelFuture fuel f).1.alarms = m.alarms := by
  induction fuel generalizing m f with
  | zero => rfl
  | succ fuel ih =>
    unfold cancelFuture
    split
    · rfl
    · split
      · rfl
      · split
        · exact alarms_settle f .cancelled
        · next t _ =>
          cases m.tasks[t]?.bind (·.waiting) with
          | none => rfl
          | some g =>
            dsimp only
            split <;> exact ih g

@[simp] theorem alarms_cancelTask (t : TaskId) : (m.cancelTask t).1.alarms = m.alarms := alarms_cancelFuture _ _

@[simp] theorem alarms_cancelTimer (w : FutureId) : (m.cancelTimer w).alarms = m.alarms := by
  have hwaiter : ∀ i : Timer, (if i.waiter = w then { i with cancelled := true } else i).waiter = i.waiter := by
    intro i
    split <;> rfl
  simp [alarms, cancelTimer, Function.comp_def, hwaiter]

/-- A timer is set for one future. -/
theorem mem_alarms_addTimer {time : Binary64} {f : FutureId} (h : w ∈ (m.addTimer time f).alarms) : w ∈ m.alarms ∨ w = f := by
  unfold addTimer at h
  split at h
  · rcases mem_alarms.mp h with ht | hready
    · exact .inl (mem_alarms.mpr (.inl ht))
    · rcases List.mem_append.mp hready with hready | hready
      · exact .inl (mem_alarms.mpr (.inr hready))
      · cases List.mem_singleton.mp hready
        exact .inr rfl
  · rcases mem_alarms.mp h with ⟨i, hi, rfl⟩ | hready
    · rcases Heap.mem_push hi with rfl | hi
      · exact .inr rfl
      · exact .inl (mem_alarms.mpr (.inl ⟨i, mem_dropCancelled hi, rfl⟩))
    · exact .inl (mem_alarms.mpr (.inr hready))

/-- Nobody sets a timer while time passes. -/
theorem mem_alarms_setTime {now : Binary64} (h : w ∈ (m.setTime now).alarms) : w ∈ m.alarms := by
  let timers := dropCancelled m.timers.size m.timers
  obtain ⟨htimers, hdue⟩ : (∀ i ∈ (takeDue (ν := ν) (ε := ε) now timers.size timers []).1, i ∈ timers) ∧
      ∀ h ∈ (takeDue (ν := ν) (ε := ε) now timers.size timers []).2, h ∈ [] ∨
        ∃ i ∈ timers, isDue now i.time = true ∧ h = .expire i.waiter := mem_takeDue
  rcases mem_alarms.mp h with ⟨i, hi, rfl⟩ | hready
  · exact mem_alarms.mpr (.inl ⟨i, mem_dropCancelled (htimers i hi), rfl⟩)
  · rcases List.mem_append.mp hready with hready | hready
    · exact mem_alarms.mpr (.inr hready)
    · rcases hdue _ hready with hnil | ⟨i, hi, -, heq⟩
      · cases hnil
      · cases heq
        exact mem_alarms.mpr (.inl ⟨i, mem_dropCancelled hi, rfl⟩)

/-! ## Steps -/

@[simp] theorem alarms_endTask (t : TaskId) (o : Outcome ν ε) : (m.endTask t o).alarms = m.alarms := by
  unfold endTask
  split
  · rfl
  · exact alarms_settle _ _

@[simp] theorem alarms_perform (t : TaskId) (stack : List φ) (a : Action ρ φ ν ε) : (m.perform t stack a).alarms = m.alarms := by
  cases a with
  | await f frame =>
    unfold perform
    dsimp only
    split
    · rfl
    · let m₁ := ({ m.modifyTask t (fun task => { task with waiting := some f, stack := some (frame :: stack) })
        with running := none } : Machine σ ρ φ ν ε).addCallback f (.wake t)
      have hwait : m₁.alarms = m.alarms := alarms_addCallback f _
      unfold suspend
      dsimp only
      split
      · split
        · exact (alarms_cancelFuture _ f).trans hwait
        · exact (alarms_cancelFuture _ f).trans hwait
      · exact hwait
  | _ => rfl

theorem mem_alarms_handle [Inhabited ν] {h : Handle ν ε} {rest : List (Handle ν ε)} (hready : m.ready = h :: rest)
    (hw : w ∈ (({ m with ready := rest } : Machine σ ρ φ ν ε).handle h).alarms) : w ∈ m.alarms := by
  have hhandle : (({ m with ready := rest } : Machine σ ρ φ ν ε).handle h).alarms =
      ({ m with ready := rest } : Machine σ ρ φ ν ε).alarms := by
    cases h with
    | start t =>
      unfold handle startTask
      dsimp only
      split
      · rfl
      · split
        · rfl
        · split <;> rfl
    | notify c f =>
      cases c with
      | wake t =>
        unfold handle resumeTask
        dsimp only
        split <;> rfl
      | release w' => exact alarms_settle _ _
      | tally group =>
        unfold handle tally
        dsimp only
        split
        · rfl
        · split
          · split
            · exact alarms_settle _ _
            · rfl
          · exact alarms_settle _ _
          · rfl
    | expire w' => exact alarms_settle _ _
    | deliver f o => exact alarms_settle _ _
  rw [hhandle] at hw
  rcases mem_alarms.mp hw with ht | hmem
  · exact mem_alarms.mpr (.inl ht)
  · exact mem_alarms.mpr (.inr (hready ▸ List.mem_cons_of_mem _ hmem))

end Machine

end Async

/-- Entries about what transports were given to write. -/
def Entry.isWriting : Entry → Bool
  | .sent .. => true
  | .wrote .. => true
  | _ => false

namespace State

/-- What transports were given to write, in order. -/
def writings (s : State) : List Entry := s.transcript.toList.filter Entry.isWriting

@[simp] theorem writings_record (s : State) {e : Entry} (h : e.isWriting = false) : (s.record e).writings = s.writings := by
  simp [writings, record, List.filter_append, h]

theorem writings_recordNotes (s : State) (notes : List Note) :
    (notes.foldl (fun s n => s.record (.note n)) s).writings = s.writings := by
  induction notes generalizing s with
  | nil => rfl
  | cons n notes ih => exact (ih _).trans (writings_record s rfl)

end State

/-- What time is to settle, and what transports were given to write. -/
def Async.Machine.doings (m : Loop) : List FutureId × List Entry := (m.alarms, m.state.writings)

namespace Loop

variable {m m' : Loop} {t : TransportId} {c : ChildId} {f : FutureId}

theorem doings_of_writings (ha : m'.alarms = m.alarms) (hs : m'.state.writings = m.state.writings) : m'.doings = m.doings :=
  Prod.ext ha hs

theorem doings_of_state (ha : m'.alarms = m.alarms) (hs : m'.state = m.state) : m'.doings = m.doings :=
  doings_of_writings ha (congrArg State.writings hs)

theorem alarms_of_doings (h : m'.doings = m.doings) : m'.alarms = m.alarms := congrArg Prod.fst h

theorem writings_of_doings (h : m'.doings = m.doings) : m'.state.writings = m.state.writings := congrArg Prod.snd h

@[simp] theorem doings_record {e : Entry} (h : e.isWriting = false) : (m.record e).doings = m.doings :=
  doings_of_writings rfl (State.writings_record m.state h)

@[simp] theorem doings_note (level : Level) (text : Text) : (m.note level text).doings = m.doings := doings_record rfl

@[simp] theorem doings_settle (f : FutureId) (o : Ending) : (m.settle f o).doings = m.doings :=
  doings_of_state (alarms_settle f o) settle_state

@[simp] theorem doings_settleAll (fs : List FutureId) (o : Ending) : (fs.foldl (fun m f => m.settle f o) m).doings = m.doings := by
  induction fs generalizing m with
  | nil => rfl
  | cons f fs ih => exact ih.trans (doings_settle f o)

@[simp] theorem doings_addCallback (f : FutureId) (k : Callback) : (m.addCallback f k).doings = m.doings := by
  refine doings_of_state (alarms_addCallback f k) ?_
  unfold addCallback
  split <;> rfl

@[simp] theorem doings_spawn (r : Routine) : (m.spawn r).1.doings = m.doings := doings_of_state (alarms_spawn r) rfl

@[simp] theorem doings_cancelTask (t : TaskId) : (m.cancelTask t).1.doings = m.doings :=
  doings_of_state (alarms_cancelTask t) (cancelFuture_state _ _ _)

@[simp] theorem doings_cancelTimer (w : FutureId) : (m.cancelTimer w).doings = m.doings := doings_of_state (alarms_cancelTimer w) rfl

/-! ## The lock and listeners -/

@[simp] theorem doings_wakeLock : m.wakeLock.doings = m.doings := by
  unfold wakeLock
  split
  · rfl
  · exact doings_settle _ _

@[simp] theorem doings_releaseLock : m.releaseLock.doings = m.doings := doings_wakeLock

@[simp] theorem doings_wakeNext (fs : List FutureId) : (m.wakeNext fs).1.doings = m.doings := by
  induction fs with
  | nil => rfl
  | cons f rest ih =>
    unfold wakeNext
    split
    · exact ih
    · exact doings_settle _ _

@[simp] theorem doings_wakeGetter (l : ListenerId) : (m.wakeGetter l).doings = m.doings := doings_wakeNext _

@[simp] theorem doings_deliver (l : ListenerId) (d : Delivery) : (m.deliver l d).doings = m.doings :=
  (doings_wakeGetter l).trans (doings_of_writings rfl (State.writings_record (e := .delivered l d) m.state rfl))

@[simp] theorem doings_deliverAll (ls : List ListenerId) (d : Delivery) : (m.deliverAll ls d).doings = m.doings := by
  induction ls generalizing m with
  | nil => rfl
  | cons l ls ih => exact ih.trans (doings_deliver l d)

@[simp] theorem doings_detachAll (e : Option ServerError) : (m.detachAll e).doings = m.doings := doings_deliverAll _ _

@[simp] theorem doings_receive (t : TransportId) (v : Json) : (m.receive t v).1.doings = m.doings := by
  have hreceived : (m.record (.received t v)).doings = m.doings := doings_record rfl
  unfold receive
  split
  · dsimp only
    unfold dispatch
    split
    · exact (doings_deliverAll _ _).trans hreceived
    · exact (doings_note _ _).trans hreceived
  · split
    · rfl
    · exact hreceived

@[simp] theorem doings_receiveAll (t : TransportId) (vs : List Json) : (m.receiveAll t vs).1.doings = m.doings := by
  induction vs generalizing m with
  | nil => rfl
  | cons v vs ih =>
    have hone := doings_receive (m := m) t v
    unfold receiveAll
    split <;> rename_i hm <;> rw [hm] at hone
    · exact ih.trans hone
    · exact hone

@[simp] theorem doings_report (t : TransportId) (e : Option ServerError) : (m.report t e).doings = m.doings := by
  have hreported : (m.record (.reported t e)).doings = m.doings := doings_record rfl
  unfold report
  dsimp only
  split
  · exact hreported
  · split
    · refine (doings_spawn _).trans ((doings_detachAll e).trans ?_)
      split
      · exact (doings_note _ _).trans hreported
      · exact hreported
    · exact hreported

/-! ## Children -/

@[simp] theorem doings_wakeReader (c : ChildId) (pipe : Pipe) (o : Ending) : (m.wakeReader c pipe o).doings = m.doings := by
  unfold wakeReader
  split
  · rfl
  · exact doings_settle _ _

theorem doings_feedStream {pipe : Pipe} {octets : Bytes} (h : m.feedStream c pipe octets = .ok m') : m'.doings = m.doings := by
  unfold feedStream at h
  split at h
  · cases h
  · split at h <;> cases h
    · rfl
    · exact doings_wakeReader c pipe _

@[simp] theorem doings_endStream (c : ChildId) (pipe : Pipe) : (m.endStream c pipe).doings = m.doings := doings_wakeReader c pipe _

@[simp] theorem doings_breakStream (c : ChildId) (pipe : Pipe) (e : SystemError) : (m.breakStream c pipe e).doings = m.doings :=
  doings_wakeReader c pipe _

@[simp] theorem doings_exitChild (c : ChildId) (code : Int) : (m.exitChild c code).doings = m.doings := by
  unfold exitChild
  dsimp only
  split
  · exact (doings_settleAll _ _).trans ((doings_endStream c .errors).trans (doings_endStream c .output))
  · rfl

@[simp] theorem doings_signal (c : ChildId) (s : Signal) : (m.signal c s).doings = m.doings := by
  have hsignalled : (m.record (.signalled c s)).doings = m.doings := doings_record rfl
  unfold signal
  dsimp only
  split
  · exact hsignalled
  · exact (doings_exitChild c _).trans hsignalled

@[simp] theorem doings_launch : m.launch.1.doings = m.doings := by
  have hnext : ∀ launches e, ((m.modify fun s => { s with launches }).record (.launched e)).doings = m.doings :=
    fun launches e => doings_record (m := m.modify fun s => { s with launches }) rfl
  unfold launch
  dsimp only
  split
  · exact hnext _ _
  · exact hnext _ _

@[simp] theorem doings_put (c : ChildId) (octets : Bytes) : (m.put c octets).doings = m.doings := by
  unfold put
  split
  · next h => exact doings_feedStream h
  · rfl

@[simp] theorem doings_react (c : ChildId) (request : Request) : (m.react c request).doings = m.doings := by
  unfold react
  split
  · split
    · unfold reply
      dsimp only
      split
      · split
        · rfl
        · exact doings_put c _
      · exact doings_put c _
      · exact doings_exitChild c _
      · rfl
    · rfl
  · rfl

/-! ## Driving -/

@[simp] theorem doings_addTransport : m.addTransport.1.doings = m.doings := by
  unfold addTransport
  dsimp only
  split <;> rfl

@[simp] theorem doings_concludeCall (t : TransportId) (call : Call) (fails : Bool) :
    (m.concludeCall t call fails).1.doings = m.doings := by
  unfold concludeCall
  split
  · rfl
  · exact doings_record rfl

@[simp] theorem doings_rehearse (t : TransportId) (call : Call) (conduct : Conduct) :
    (m.rehearse t call conduct).1.doings = m.doings := by
  have hgate : ∀ fails, (m.passGate t call fails).1.doings = m.doings := by
    intro fails
    unfold passGate
    split
    · exact doings_concludeCall t call fails
    · rfl
  cases conduct with
  | succeeds => exact doings_concludeCall t call false
  | fails => exact doings_concludeCall t call true
  | timesOut => rfl
  | waits => exact hgate false
  | waitsAndFails => exact hgate true

theorem doings_openGate (t : TransportId) (call : Call) : (m.openGate t call).doings = m.doings := doings_settleAll _ _

theorem doings_start (t : TransportId) : (start t m).1.doings = m.doings := by
  unfold start
  split
  · next r _ =>
    have hrest : ∀ greeted : Loop, greeted.doings = m.doings →
        ((if r.rehearsal.endsAtStart then greeted.report t none else greeted).rehearse t .start r.rehearsal.start).1.doings =
          m.doings := by
      intro greeted hgreet
      refine (doings_rehearse t .start _).trans ?_
      split
      · exact (doings_report t none).trans hgreet
      · exact hgreet
    have hcalled : (m.record (.called t .start)).doings = m.doings := doings_record rfl
    unfold startRehearsed
    cases r.rehearsal.greeting with
    | none => exact hrest _ hcalled
    | some v => exact hrest _ ((doings_receive t v).trans hcalled)
  · have hlaunch := doings_launch (m := m)
    unfold startChild
    dsimp only
    split
    · split
      · rfl
      · split <;> rename_i hm <;> rw [hm] at hlaunch
        · exact hlaunch
        · next c =>
          exact (doings_note _ _).trans ((doings_spawn (.drainErrors c)).trans ((doings_spawn (.readOutput t c)).trans hlaunch))
    · rfl

theorem doings_stop (t : TransportId) : (stop t m).1.doings = m.doings := by
  unfold stop
  split
  · have hcalled : (m.record (.called t .stop)).doings = m.doings := doings_record rfl
    exact (doings_rehearse t .stop _).trans hcalled
  · unfold stopChild
    dsimp only
    split <;> rfl

theorem doings_endTasks (t : TransportId) (us : List TaskId) : (endTasks t us m).1.doings = m.doings := by
  induction us with
  | nil =>
    unfold endTasks
    dsimp only
    split
    · rfl
    · split
      · exact doings_signal _ _
      · rfl
  | cons u rest ih =>
    unfold endTasks
    split
    · exact ih
    · exact doings_cancelTask u

theorem doings_conclude (t : TransportId) (e : Option ServerError) : (m.conclude t e).doings = m.doings := by
  unfold conclude
  split
  · exact doings_report t e
  · rfl

theorem doings_breakOff (t : TransportId) (failure : Failure) : (m.breakOff t failure).1.doings = m.doings :=
  (doings_conclude t _).trans (doings_note _ _)

theorem doings_readChunks (t : TransportId) (c : ChildId) (fuel : Nat) (decoder : Decoder) (m : Loop) :
    (readChunks t c fuel decoder m).1.doings = m.doings := by
  induction fuel generalizing m decoder with
  | zero => rfl
  | succ fuel ih =>
    unfold readChunks
    split
    · rfl
    · exact doings_breakOff t _
    · rfl
    · next chunk rest _ _ =>
      let m₁ := m.modifyStream c .output fun s => { s with buffer := rest }
      have hread : (m₁.modify fun s => (decoder.feed chunk).notes.foldl (fun s n => s.record (.note n)) s).doings = m.doings :=
        doings_of_writings rfl (State.writings_recordNotes m₁.state _)
      dsimp only
      split
      · exact (doings_breakOff t _).trans hread
      · next messages _ =>
        have hall := (doings_receiveAll t messages).trans hread
        split <;> rename_i hm <;> rw [hm] at hall
        · exact (doings_breakOff t _).trans hall
        · exact (ih _ _).trans hall

theorem doings_drainLines (c : ChildId) (fuel : Nat) (m : Loop) : (drainLines c fuel m).1.doings = m.doings := by
  induction fuel generalizing m with
  | zero => rfl
  | succ fuel ih =>
    unfold drainLines
    split
    · rfl
    · rfl
    · dsimp only
      split
      · rfl
      · split
        · rfl
        · exact (ih _).trans (doings_note _ _)

/-! ## Whatever a task does -/

/-- What a routine begins with sets no timer and writes nothing, unless it limits a time. -/
theorem begin_doings (m : Loop) {r : Routine} (hw : ∀ limit inner, r ≠ .within limit inner) :
    (begin r m).1.doings = m.doings := by
  cases r with
  | acquireLock =>
    simp only [begin, acquire]
    split <;> rfl
  | openListener l =>
    simp only [begin, openListener]
    split <;> rfl
  | next l =>
    simp only [begin, next]
    split
    · rfl
    · split <;> rfl
  | take l =>
    simp only [begin, take]
    split <;> rfl
  | request file limit => cases limit <;> rfl
  | within limit inner => exact absurd rfl (hw limit inner)
  | cancelAndWait u => exact (doings_cancelTask u).trans (doings_addCallback _ _)
  | start t => exact doings_start t
  | stop t => exact doings_stop t
  | endTasks t us => exact doings_endTasks t us
  | awaitExit c =>
    simp only [begin, awaitExit]
    split <;> rfl
  | readOutput t c => exact doings_readChunks t c _ _ m
  | drainErrors c => exact doings_drainLines c _ m
  | checkFiles files context limit => exact doings_of_state (alarms_spawnGroup _) (spawnGroup_state m _)
  | _ => rfl

/-- And so does what a frame goes on with, unless it sends requests. -/
theorem resume_doings (m : Loop) {F : Frame} (hs : ∀ l opening asking, F ≠ .introducing l opening asking) (o : Ending) :
    (resume F o m).1.doings = m.doings := by
  cases F with
  | locking w =>
    simp only [resume, acquireResumed]
    split
    · rfl
    · dsimp only
      split
      · rfl
      · exact doings_wakeLock
  | opening l =>
    simp only [resume, openResumed]
    split <;> rfl
  | registering l =>
    simp only [resume, registerLocked]
    split
    · split
      · exact doings_releaseLock
      · exact doings_addTransport
    · rfl
  | starting l t =>
    simp only [resume, startResumed]
    split <;> exact doings_releaseLock
  | leaving l =>
    simp only [resume, leaveLocked]
    split
    · split
      · split
        · exact doings_of_writings rfl (State.writings_record _ rfl)
        · exact doings_releaseLock
      · exact doings_releaseLock
    · rfl
  | closing =>
    simp only [resume, closeLocked]
    split
    · split
      · exact doings_detachAll none
      · exact doings_releaseLock.trans (doings_detachAll none)
    · rfl
  | releasing => exact doings_releaseLock
  | receiving l =>
    simp only [resume, nextResumed]
    split <;> rfl
  | getting l getter =>
    simp only [resume, takeResumed]
    split
    · rfl
    · dsimp only
      split
      · exact (doings_wakeGetter l).trans (doings_settle getter _)
      · exact doings_settle getter _
  | collecting l taken =>
    simp only [resume, collectResumed]
    split <;> rfl
  | visiting l count =>
    simp only [resume, visitOpened, visitOn]
    split
    · split <;> rfl
    · rfl
  | visited l count taken =>
    simp only [resume, visitResumed, visitOn]
    split
    · split <;> rfl
    · rfl
  | finishing ending =>
    simp only [resume, cleanedUp]
    split <;> rfl
  | requesting file seq limit =>
    simp only [resume, requestResumed]
    split <;> rfl
  | introducing l opening asking => exact absurd rfl (hs l opening asking)
  | expecting l asking =>
    simp only [resume, exchangeResumed]
    split
    · split
      · exact doings_note _ _
      · rfl
    · rfl
    · rfl
    · rfl
  | timing u w =>
    simp only [resume, timeResumed]
    split
    · exact doings_cancelTimer w
    · split <;> rfl
  | overdue u =>
    simp only [resume, overdueResumed]
    split <;> rfl
  | lapsed u w =>
    simp only [resume, lapsedResumed]
    split <;> exact doings_cancelTimer w
  | abandoned w =>
    simp only [resume, abandonedResumed]
    split <;> exact doings_cancelTimer w
  | gated t call fails w =>
    simp only [resume, gateResumed]
    split
    · exact doings_concludeCall t call fails
    · rfl
  | ending t us =>
    simp only [resume, endResumed]
    split <;> rfl
  | terminating c =>
    simp only [resume, terminateResumed]
    split
    · exact doings_note _ _
    · exact doings_signal c .kill
    · rfl
  | killing c =>
    simp only [resume, killResumed]
    split
    · exact doings_note _ _
    · rfl
  | reading t c decoder =>
    simp only [resume, readResumed]
    split
    · exact doings_readChunks t c _ _ _
    · exact doings_breakOff t _
    · rfl
  | outputEnded t c pending =>
    have hpend : (if pending = 0 then m
        else m.note .debug (lit "tsserver exited with " ++ Text.ofNat pending ++ lit " undecoded bytes")).doings = m.doings := by
      split
      · rfl
      · exact doings_note _ _
    simp only [resume, outputResumed]
    split
    · dsimp only
      split
      · exact ((doings_conclude t none).trans (doings_note _ _)).trans hpend
      · exact (doings_conclude t _).trans hpend
    · rfl
  | draining c =>
    simp only [resume, drainResumed]
    split
    · exact doings_drainLines c _ _
    · rfl
  | answered file context =>
    simp only [resume, answerResumed]
    split
    · split
      · rfl
      · exact doings_of_writings (alarms_enqueue rfl) (State.writings_record m.state rfl)
    · rfl
  | readSource file context diagnostics =>
    simp only [resume, sourceResumed]
    split <;> rfl
  | _ => rfl

end Loop

end DiagnosticsClient
