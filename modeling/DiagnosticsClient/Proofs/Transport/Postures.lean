import DiagnosticsClient.Proofs.Transport.Duties
/-
What a transport has made known, and in which phase it is.

A transport that has reported its end is stopped, one that is idle has nobody who
reads, and one that runs knows its one reader (`Posture`). To pass values on keeps
that while the transport runs (`Posture.passes`); so does to report the end, which
stops it (`Posture.closes`), and whatever else stops it (`Posture.stops`).
-/
namespace DiagnosticsClient

open Async Async.Machine

/-- The last that a transport makes known: its end, after what is wrong with its reading if something is. -/
inductive IsEnd : List Tiding → Prop
  | plain (error : Option ServerError) : IsEnd [.close error]
  | troubled (text : Text) (error : ServerError) : IsEnd [.trouble text, .close (some error)]

/-- What a decoder notes is no error. -/
theorem Decoder.level_ne_error (d : Decoder) (chunk : Bytes) : ∀ n ∈ (d.feed chunk).notes, n.level ≠ .error := by
  unfold Decoder.feed
  dsimp only
  split
  · simp
  · split
    · simp only [List.mem_singleton, forall_eq, Decoder.faultNote]
      split <;> exact Level.noConfusion
    · simp

namespace Loop

variable {m m' m'' : Loop} {x x' : ChildTransport} {vs vs' : List Json} {last : List Tiding} {c : ChildId}

/-- A transport that reported its end is stopped, an idle one has no reader, and a running one knows its reader. -/
structure Posture (x : ChildTransport) (m : Loop) : Prop where
  driven : m.state.driven 0 = some x
  chores : ∀ {u : TaskId} {r : Routine}, m.routine? u = some r → r.IsChore
  trace : ∃ (vs : List Json) (last : List Tiding), (last = [] ∨ x.phase = .stopped ∧ IsEnd last) ∧
    m.state.tidings = vs.map .message ++ last
  idle : x.phase = .idle → ∀ {u : TaskId} {c : ChildId}, m.routine? u ≠ some (.readOutput 0 c)
  reads : x.phase = .running → ∀ {u : TaskId} {c : ChildId}, m.routine? u = some (.readOutput 0 c) → x.reader = some u

/-- Values are passed on, and then the end of the transport, which stops it. -/
structure Closes (vs : List Json) (last : List Tiding) (m m' : Loop) : Prop where
  driven : m'.state.driven 0 = (m.state.driven 0).map fun x => { x with phase := .stopped }
  isEnd : IsEnd last
  tidings : m'.state.tidings = m.state.tidings ++ vs.map .message ++ last
  writes : m'.state.writes = m.state.writes
  made : ∀ {u r}, m'.routine? u = some r → m.routine? u = some r ∨ r.IsChore ∧ r.isReading = false

/-- Nothing is passed on or written, and the transport stays in its phase. -/
structure Stays (m m' : Loop) : Prop where
  phase : (m'.state.driven 0).map (·.phase) = (m.state.driven 0).map (·.phase)
  tidings : m'.state.tidings = m.state.tidings
  writes : m'.state.writes = m.state.writes
  made : ∀ {u r}, m'.routine? u = some r → m.routine? u = some r ∨ r.IsChore ∧ r.isReading = false

theorem Closes.after (h : Passes vs m m') (h' : Closes vs' last m' m'') : Closes (vs ++ vs') last m m'' where
  driven := by rw [h'.driven, h.driven]
  isEnd := h'.isEnd
  tidings := by rw [h'.tidings, h.tidings]; simp
  writes := h'.writes.trans h.writes
  made hr := (h'.made hr).elim h.made .inr

theorem Stays.trans (h : Stays m m') (h' : Stays m' m'') : Stays m m'' where
  phase := h'.phase.trans h.phase
  tidings := h'.tidings.trans h.tidings
  writes := h'.writes.trans h.writes
  made hr := (h'.made hr).elim h.made .inr

theorem Passes.stays (h : Passes [] m m') : Stays m m' :=
  ⟨by rw [h.driven], by rw [h.tidings]; simp, h.writes, h.made⟩

theorem Stays.modifyTransport (m : Loop) {k : ChildTransport → ChildTransport} (hk : ∀ x, (k x).phase = x.phase) :
    Stays m (m.modifyTransport 0 k) where
  phase := by
    rw [show (m.modifyTransport 0 k).state.driven 0 = _ from State.driven_modifyChildTransport m.state 0 0 k, if_pos rfl,
      Option.map_map]
    exact congrArg (Option.map · _) (funext hk)
  tidings := rfl
  writes := rfl
  made := .inl

namespace Posture

/-- No reader comes but those that were there. -/
theorem not_reads {u : TaskId} (hm : ∀ {u r}, m'.routine? u = some r → m.routine? u = some r ∨ r.IsChore ∧ r.isReading = false)
    (hr : m'.routine? u = some (.readOutput 0 c)) : m.routine? u = some (.readOutput 0 c) := by
  rcases hm hr with hr | ⟨-, hread⟩
  · exact hr
  · cases hread

theorem passes (h : Posture x m) (hp : Passes vs m m') (hv : vs = [] ∨ x.phase ≠ .stopped) : Posture x m' where
  driven := (hp.driven 0).trans h.driven
  chores hr := (hp.made hr).elim h.chores And.left
  trace := by
    obtain ⟨us, last, rfl | ⟨hx, hend⟩, ht⟩ := h.trace
    · exact ⟨us ++ vs, [], .inl rfl, by rw [hp.tidings, ht]; simp⟩
    · rcases hv with rfl | hv
      · exact ⟨us, last, .inr ⟨hx, hend⟩, by rw [hp.tidings, ht]; simp⟩
      · exact absurd hx hv
  idle hx _ _ hr := h.idle hx (not_reads hp.made hr)
  reads hx _ _ hr := h.reads hx (not_reads hp.made hr)

theorem closes (h : Posture x m) (hc : Closes vs last m m') (hx : x.phase = .running) :
    Posture { x with phase := .stopped } m' where
  driven := by rw [hc.driven, h.driven]; rfl
  chores hr := (hc.made hr).elim h.chores And.left
  trace := by
    obtain ⟨us, last', rfl | ⟨hx', -⟩, ht⟩ := h.trace
    · exact ⟨us ++ vs, last, .inr ⟨rfl, hc.isEnd⟩, by rw [hc.tidings, ht]; simp⟩
    · rw [hx] at hx'
      cases hx'
  idle hx' := by cases hx'
  reads hx' := by cases hx'

/-- A transport that is stopped without a word. -/
theorem stops (h : Posture x m) (hd : m'.state.driven 0 = some x') (hx : x'.phase = .stopped)
    (ht : m'.state.tidings = m.state.tidings)
    (hm : ∀ {u r}, m'.routine? u = some r → m.routine? u = some r ∨ r.IsChore ∧ r.isReading = false) : Posture x' m' where
  driven := hd
  chores hr := (hm hr).elim h.chores And.left
  trace := by
    obtain ⟨us, last, hor, hus⟩ := h.trace
    exact ⟨us, last, hor.imp_right fun h => ⟨hx, h.2⟩, ht.trans hus⟩
  idle hx' := by rw [hx] at hx'; cases hx'
  reads hx' := by rw [hx] at hx'; cases hx'

/-- One that was stopped before and is not told anything. -/
theorem stays (h : Posture x m) (hs : Stays m m') (hx : x.phase = .stopped) : ∃ x', Posture x' m' ∧ x'.phase = .stopped := by
  have hphase := hs.phase
  rw [h.driven] at hphase
  obtain ⟨x', hd, hx'⟩ := Option.map_eq_some_iff.mp hphase
  have hx'' : x'.phase = .stopped := hx'.trans hx
  exact ⟨x', h.stops hd hx'' hs.tidings hs.made, hx''⟩

theorem childTransport (h : Posture x m) : m.state.childTransport 0 = x := State.childTransport_eq_of_driven h.driven

end Posture

/-! ## Stopping -/

theorem driven_setPhase (hd : m.state.driven 0 = some x) (phase : Phase) :
    (m.setPhase 0 phase).state.driven 0 = some { x with phase } := by
  rw [show (m.setPhase 0 phase).state.driven 0 = _ from State.driven_modifyChildTransport m.state 0 0 _, if_pos rfl, hd]
  rfl

/-- To end the tasks of a transport and then its child passes nothing on. -/
theorem endTasks_stays (m : Loop) (us : List TaskId) : Stays m (endTasks 0 us m).1 := by
  induction us with
  | nil =>
    let m₁ := m.modifyTransport 0 fun x => { x with reader := none, drain := none }
    let m₂ := m₁.modifyTransport 0 fun x => { x with child := none }
    have hclear : Stays m m₁ := .modifyTransport m fun _ => rfl
    unfold endTasks
    dsimp only
    split
    · exact hclear
    · next c _ =>
      have hforget : Stays m m₂ := hclear.trans (.modifyTransport m₁ fun _ => rfl)
      have hclosed := hforget.trans (Passes.modifyChild m₂ c fun child => { child with inputClosed := true }).stays
      split
      · exact hclosed.trans (Passes.signal _ c .terminate).stays
      · exact hclosed
  | cons u rest ih =>
    unfold endTasks
    split
    · exact ih
    · exact (Passes.cancelTask m u).stays

/-! ## Reading -/

/-- The transport runs, and is watched. -/
structure Runs (m : Loop) : Prop where
  receiver : m.state.receiver = .watcher
  phase : ∃ x, m.state.driven 0 = some x ∧ x.phase = .running

theorem Passes.runs (h : Passes vs m m') (hr : m.Runs) : m'.Runs :=
  ⟨h.receiver.trans hr.receiver, (h.driven 0).symm ▸ hr.phase⟩

/-- The end of a running transport is passed on, and stops it. -/
theorem Runs.conclude (h : m.Runs) (e : Option ServerError) : Closes [] [.close e] m (m.conclude 0 e) := by
  obtain ⟨x, hd, hx⟩ := h.phase
  have hphase : (m.state.childTransport 0).phase = .running := by rw [State.childTransport_eq_of_driven hd, hx]
  unfold Loop.conclude
  rw [hphase]
  dsimp only
  rw [report_watcher (show (m.setPhase 0 .stopped).state.receiver = .watcher from h.receiver)]
  refine ⟨?_, .plain e, (State.tidings_record (m.setPhase 0 .stopped).state _).trans ?_, ?_, .inl⟩
  · exact (driven_setPhase hd .stopped).trans (by rw [hd]; rfl)
  · rw [List.map_nil, List.append_nil]
    rfl
  · exact (State.writes_record (m.setPhase 0 .stopped).state _).trans (List.append_nil _)

/-- What reading comes to: values are passed on, and then the end if there is no more to read. -/
inductive Reads (m : Loop) (s : Loop × Move) : Prop
  | passes {vs : List Json} (h : Passes vs m s.1)
  | closes {vs : List Json} {last : List Tiding} (h : Closes vs last m s.1) (hs : s.2 = .done (.value .nothing))

theorem Reads.after {s : Loop × Move} (h : Passes vs m m') (h' : Reads m' s) : Reads m s := by
  cases h' with
  | passes h' => exact .passes (h.trans h')
  | closes h' hs => exact .closes (.after h h') hs

/-- What is wrong is noted, and then the end is passed on. -/
theorem Runs.breakOff (h : m.Runs) (failure : Failure) : Reads m (m.breakOff 0 failure) := by
  let text := lit "Read loop error: " ++ failure.message
  let error : ServerError := { message := lit "Error reading from tsserver: " ++ failure.message }
  have hruns : (m.note .error text).Runs := ⟨h.receiver, h.phase⟩
  have hclose := hruns.conclude (some error)
  have hnoted : (m.note .error text).state.tidings = m.state.tidings ++ [.trouble text] := State.tidings_record m.state _
  have hall : Closes [] [.trouble text, .close (some error)] m ((m.note .error text).conclude 0 (some error)) := by
    refine ⟨hclose.driven, .troubled text error, hclose.tidings.trans ?_, ?_, hclose.made⟩
    · rw [hnoted]
      simp
    · exact hclose.writes.trans ((State.writes_record m.state _).trans (List.append_nil _))
  exact .closes hall rfl

theorem Runs.readChunks (h : m.Runs) (fuel : Nat) (decoder : Decoder) : Reads m (readChunks 0 c fuel decoder m) := by
  induction fuel generalizing m decoder with
  | zero => exact .passes (.awaitStream m c .output _)
  | succ fuel ih =>
    unfold Loop.readChunks
    split
    · exact .passes (.awaitStream m c .output _)
    · exact h.breakOff _
    · exact .passes (.refl m)
    · next chunk rest _ _ =>
      have hread := Passes.modifyStream m c .output fun s => { s with buffer := rest }
      have hnotes := hread.trans (.recordNotes _ (decoder.level_ne_error chunk))
      dsimp only
      split
      · exact .after hnotes ((hnotes.runs h).breakOff _)
      · next messages _ =>
        obtain ⟨vs, hall⟩ := Passes.receiveAll (hnotes.runs h).receiver 0 messages
        have hboth := hnotes.trans hall
        split <;> rename_i hm <;> rw [hm] at hboth
        · exact .after hboth ((hboth.runs h).breakOff _)
        · exact .after hboth (ih (hboth.runs h) _)

theorem Runs.readResumed (h : m.Runs) (decoder : Decoder) (o : Ending) : Reads m (readResumed 0 c decoder o m) := by
  have hfree := Passes.modifyStream m c .output fun s => { s with waiter := none }
  unfold Loop.readResumed
  dsimp only
  split
  · exact .after hfree ((hfree.runs h).readChunks _ _)
  · exact .after hfree ((hfree.runs h).breakOff _)
  · exact .passes hfree

theorem Runs.outputResumed (h : m.Runs) (pending : Nat) (o : Ending) : Reads m (outputResumed 0 c pending o m) := by
  unfold Loop.outputResumed
  split
  · next code =>
    obtain ⟨m₁, hm₁, hpend⟩ : ∃ m₁, (if pending = 0 then m
        else m.note .debug (lit "tsserver exited with " ++ Text.ofNat pending ++ lit " undecoded bytes")) = m₁ ∧
        Passes [] m m₁ := by
      refine ⟨_, rfl, ?_⟩
      split
      · exact .refl m
      · exact .note m _ Level.noConfusion
    dsimp only
    rw [hm₁]
    split
    · have hnote := hpend.trans (.note m₁ (lit "tsserver exited (pid=" ++ Text.ofNat (Child.pid c) ++ lit ")")
        (Level.noConfusion : Level.info ≠ .error))
      exact .after hnote (.closes ((hnote.runs h).conclude none) rfl)
    · exact .after hpend (.closes ((hpend.runs h).conclude _) rfl)
  · exact .passes (.refl m)

end Loop

end DiagnosticsClient
