import DiagnosticsClient.Proofs.Transport.Trace
/-
What the tasks of a transport do to its child and to its futures, while nobody stops it.

They settle nothing and cancel nobody: they make futures and wait for them (`quiet`).
All that changes of the child then is what its reader and its drain have taken from
it and what they wait for (`Steady`, `Handles`), so a child stays tame: it answers by
no script, its output has ended exactly if it has, and nobody waits for its end (`Tame`).
-/
namespace DiagnosticsClient

open Async Async.Machine

/-- To make futures, and nothing else. -/
def quiet : Licence Routine where
  target _ := False
  wake _ := False
  cancel _ := False
  spawn _ := False

/-- What is the same of the child and the state it is in, whatever is read from the child. -/
structure Steady (s s' : State) : Prop where
  settings : s'.settings = s.settings
  script : s'.script = s.script
  children : s'.children.length = s.children.length
  code : (s'.child 0).returnCode = (s.child 0).returnCode
  exits : (s'.child 0).exitWaiters = (s.child 0).exitWaiters
  plain : (s'.child 0).script = (s.child 0).script
  ended : (s'.child 0).output.ended = (s.child 0).output.ended
  broken : (s'.child 0).output.broken = (s.child 0).output.broken

/-- A child that answers by no script, whose output has ended exactly if it has, and for whose end nobody waits. -/
structure Tame (s : State) : Prop where
  script : s.script = none
  plain : (s.child 0).script = none
  exits : (s.child 0).exitWaiters = []
  ended : (s.child 0).output.ended = (s.child 0).returnCode.isSome

namespace Steady

variable {s s' s'' : State}

theorem refl (s : State) : Steady s s := ⟨rfl, rfl, rfl, rfl, rfl, rfl, rfl, rfl⟩

theorem trans (h : Steady s s') (h' : Steady s' s'') : Steady s s'' :=
  ⟨h'.settings.trans h.settings, h'.script.trans h.script, h'.children.trans h.children, h'.code.trans h.code,
    h'.exits.trans h.exits, h'.plain.trans h.plain, h'.ended.trans h.ended, h'.broken.trans h.broken⟩

/-- What leaves the children alone. -/
theorem of_children (hset : s'.settings = s.settings) (hscript : s'.script = s.script) (hc : s'.children = s.children) :
    Steady s s' := by
  have hchild : s'.child 0 = s.child 0 := by rw [State.child, State.child, hc]
  exact ⟨hset, hscript, by rw [hc], by rw [hchild], by rw [hchild], by rw [hchild], by rw [hchild], by rw [hchild]⟩

theorem modifyChild (s : State) (c : ChildId) {k : Child → Child} (hcode : ∀ x, (k x).returnCode = x.returnCode)
    (hexits : ∀ x, (k x).exitWaiters = x.exitWaiters) (hplain : ∀ x, (k x).script = x.script)
    (hended : ∀ x, (k x).output.ended = x.output.ended) (hbroken : ∀ x, (k x).output.broken = x.output.broken) :
    Steady s (s.modifyChild c k) := by
  have hchild := State.child_modifyChild s c 0 k
  refine ⟨rfl, rfl, by simp [State.modifyChild], ?_, ?_, ?_, ?_, ?_⟩ <;> rw [hchild] <;> split
  all_goals first | rfl | (rename_i heq; rw [heq.1])
  all_goals first | exact hcode _ | exact hexits _ | exact hplain _ | exact hended _ | exact hbroken _

theorem tame (h : Steady s s') (ht : Tame s) : Tame s' :=
  ⟨h.script.trans ht.script, h.plain.trans ht.plain, h.exits.trans ht.exits, by rw [h.ended, h.code, ht.ended]⟩

end Steady

namespace Loop

variable {m m' m'' : Loop} {f : FutureId} {F : Frame} {pipe : Pipe} {may : Licence Routine}

/-! ## Streams -/

theorem streamOf_modifyStream (m : Loop) (c : ChildId) (pipe pipe' : Pipe) (k : Stream → Stream) :
    (m.modifyStream c pipe k).streamOf 0 pipe' =
      if 0 = c ∧ c < m.state.children.length ∧ pipe' = pipe then k (m.streamOf 0 pipe) else m.streamOf 0 pipe' := by
  have hchild : (m.modifyStream c pipe k).state.child 0 = _ := State.child_modifyChild m.state c 0 _
  unfold streamOf
  rw [hchild]
  by_cases h : 0 = c ∧ c < m.state.children.length
  · rw [if_pos h]
    obtain ⟨rfl, hlt⟩ := h
    cases pipe <;> cases pipe' <;> simp [hlt]
  · rw [if_neg h, if_neg fun h' => h ⟨h'.1, h'.2.1⟩]

/-- One pipe from the child is handled and the other left alone. -/
structure Handles (may : Licence Routine) (pipe : Pipe) (m m' : Loop) : Prop where
  effect : Effect may m m'
  steady : Steady m.state m'.state
  other : ∀ {pipe' : Pipe}, pipe' ≠ pipe → m'.streamOf 0 pipe' = m.streamOf 0 pipe'

/-- Whoever waits waits for a new future. -/
def AwaitsNew (m : Loop) (a : Move) : Prop := ∀ {f F}, a = .await f F → m.futures.size ≤ f

namespace Handles

theorem refl (pipe : Pipe) (m : Loop) : Handles may pipe m m := ⟨.refl, .refl _, fun _ => rfl⟩

theorem trans (h : Handles may pipe m m') (h' : Handles may pipe m' m'') : Handles may pipe m m'' where
  effect := h.effect.trans h'.effect
  steady := h.steady.trans h'.steady
  other hne := (h'.other hne).trans (h.other hne)

/-- What leaves the children alone. -/
theorem of_children (he : Effect may m m') (hset : m'.state.settings = m.state.settings)
    (hscript : m'.state.script = m.state.script) (hc : m'.state.children = m.state.children) : Handles may pipe m m' := by
  have hchild : m'.state.child 0 = m.state.child 0 := by rw [State.child, State.child, hc]
  exact ⟨he, .of_children hset hscript hc, fun {pipe'} _ => by cases pipe' <;> simp only [streamOf, hchild]⟩

theorem record (m : Loop) (e : Entry) : Handles may pipe m (m.record e) := .of_children (.single (.share _ _)) rfl rfl rfl

/-- A stream is written to, read from, or waited for. -/
theorem of_stream (he : Effect may m m') {c : ChildId} {k : Stream → Stream} (hs : m'.state = (m.modifyStream c pipe k).state)
    (hended : ∀ s, (k s).ended = s.ended) (hbroken : ∀ s, (k s).broken = s.broken) : Handles may pipe m m' := by
  refine ⟨he, ?_, fun {pipe'} hne => ?_⟩
  · rw [hs]
    refine .modifyChild m.state c (fun _ => ?_) (fun _ => ?_) (fun _ => ?_) (fun x => ?_) fun x => ?_
    all_goals cases pipe
    all_goals first | rfl | exact hended _ | exact hbroken _
  · have hstream : m'.streamOf 0 pipe' = (m.modifyStream c pipe k).streamOf 0 pipe' := by
      unfold streamOf
      rw [hs]
    rw [hstream, streamOf_modifyStream, if_neg fun h => hne h.2.2]

theorem modifyStream (m : Loop) (c : ChildId) {k : Stream → Stream} (hended : ∀ s, (k s).ended = s.ended)
    (hbroken : ∀ s, (k s).broken = s.broken) : Handles may pipe m (m.modifyStream c pipe k) :=
  .of_stream (.single (.share _ _)) rfl hended hbroken

/-- Whoever waits for a stream waits for a new future. -/
theorem awaitStream (m : Loop) (c : ChildId) (pipe : Pipe) (F : Frame) :
    Handles may pipe m (m.awaitStream c pipe F).1 ∧ m.AwaitsNew (m.awaitStream c pipe F).2 :=
  ⟨.of_stream (k := fun s => { s with waiter := some m.futures.size }) (.tail (.single (.newFuture m)) (.share _ _)) rfl
    (fun _ => rfl) fun _ => rfl, fun h => by cases h; exact Nat.le_refl _⟩

end Handles

/-! ## The drain -/

theorem drainLines_handles (c : ChildId) (fuel : Nat) (m : Loop) :
    Handles quiet .errors m (drainLines c fuel m).1 ∧ m.AwaitsNew (drainLines c fuel m).2 := by
  have hdone : ∀ {m m' : Loop} (o : Ending), Handles quiet .errors m m' → Handles quiet .errors m m' ∧ m.AwaitsNew (.done o) :=
    fun o h => ⟨h, fun h => by cases h⟩
  induction fuel generalizing m with
  | zero => exact Handles.awaitStream m c .errors _
  | succ fuel ih =>
    unfold Loop.drainLines
    split
    · exact Handles.awaitStream m c .errors _
    · exact hdone _ (.refl _ m)
    · next line rest _ =>
      have hread : Handles quiet .errors m (m.modifyStream c .errors fun s => { s with buffer := rest }) :=
        .modifyStream m c (fun _ => rfl) fun _ => rfl
      dsimp only
      split
      · exact hdone _ hread
      · split
        · exact hdone _ hread
        · obtain ⟨hrest, hnew⟩ := ih (Loop.note _ _ _)
          exact ⟨(hread.trans (.record _ _)).trans hrest, fun h => Nat.le_trans hread.effect.extends.room (hnew h)⟩

theorem drainResumed_handles (m : Loop) (c : ChildId) (o : Ending) :
    Handles quiet .errors m (drainResumed c o m).1 ∧ m.AwaitsNew (drainResumed c o m).2 := by
  have hfree : Handles quiet .errors m (m.streamResumed c .errors) := .modifyStream m c (fun _ => rfl) fun _ => rfl
  unfold Loop.drainResumed
  dsimp only
  split
  · obtain ⟨hrest, hnew⟩ := drainLines_handles c _ (m.streamResumed c .errors)
    exact ⟨hfree.trans hrest, fun h => Nat.le_trans hfree.effect.extends.room (hnew h)⟩
  · exact ⟨hfree, fun h => by cases h⟩

end Loop

end DiagnosticsClient
