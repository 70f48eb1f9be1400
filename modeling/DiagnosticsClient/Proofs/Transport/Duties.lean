import DiagnosticsClient.Proofs.Transport.Passes
/-
What the tasks of a transport have to do, and when one will not read any more.

A task of a transport is made to start or stop it, to read from its child, or to wait
for the child's end; so what it runs is a duty (`Stacked.duty`), and nobody else calls
what reads (`Stacked.of_readOutput`). A task is `Doomed` once it is cancelled and has
not noticed yet, goes on as cancelled, or is at its end. It stays so whatever others
do, and it is so once it has been cancelled (`doomed_of_cancelTask`).
-/
namespace DiagnosticsClient

open Async Async.Machine

namespace Async.Machine

variable {σ ρ φ ν ε : Type} {m m' : Machine σ ρ φ ν ε} {u : TaskId} {may : Licence ρ}

/-- A cancellation that is held back stays so, whatever a routine does at once. -/
theorem Effect.isHeld (h : Effect may m m') (hheld : m.IsHeld u) : m'.IsHeld u := by
  induction h with
  | refl => exact hheld
  | tail _ hop ih =>
    obtain ⟨task, htask, hcancel⟩ := ih
    cases hop with
    | settle => exact ⟨task, by rw [settle_tasks, htask], hcancel⟩
    | interrupt => exact ⟨task, by rw [settle_tasks, htask], hcancel⟩
    | hold =>
      refine ⟨_, getElem?_setHeld htask, ?_⟩
      dsimp only
      split
      · rfl
      · exact hcancel
    | spawn =>
      refine ⟨task, ?_, hcancel⟩
      rw [getElem?_spawn, if_neg (Nat.ne_of_lt (Array.getElem?_eq_some_iff.mp htask).1), htask]
    | addCallback =>
      unfold Machine.addCallback
      split <;> exact ⟨task, htask, hcancel⟩
    | member =>
      unfold Machine.addCallback
      split <;> exact ⟨task, htask, hcancel⟩
    | _ => exact ⟨task, htask, hcancel⟩

/-- What a task was asked to do was asked of it before, or it is one that may be made. -/
theorem Extends.routine?_cases (h : m.Extends may m') {r : ρ} (hr : m'.routine? u = some r) :
    m.routine? u = some r ∨ may.spawn r := by
  obtain ⟨task, htask, rfl⟩ := Option.map_eq_some_iff.mp hr
  rcases h.task_cases htask with ⟨task', held, htask', rfl, -⟩ | ⟨-, hspawn, -⟩
  · exact .inl (by simp [Machine.routine?, htask'])
  · exact .inr hspawn

/-- Whoever may make no tasks makes none. -/
theorem Extends.routine?_eq (h : m.Extends may m') (hs : ∀ r, ¬ may.spawn r) (u : TaskId) : m'.routine? u = m.routine? u :=
  Option.ext fun r => ⟨fun hr => (h.routine?_cases hr).resolve_right (hs r), h.routine?⟩

/-- Whoever may not cancel a task leaves it as free as it was. -/
theorem Extends.not_isHeld (h : m.Extends may m') (hc : ¬ may.cancel u) (hfree : ¬ m.IsHeld u) : ¬ m'.IsHeld u := by
  rintro ⟨task, htask, hheld⟩
  rcases h.task_cases htask with ⟨task', held, htask', rfl, hor⟩ | ⟨-, -, -, -, hcancel⟩
  · rcases hor with rfl | ⟨hcancel, -⟩
    · exact hfree ⟨task', htask', hheld⟩
    · exact hc hcancel
  · exact hc (hcancel hheld)

end Async.Machine

/-! ## Duties -/

/-- What a task of a transport runs. -/
inductive Routine.IsDuty : Routine → Prop
  | chore {r : Routine} (h : r.IsChore) : IsDuty r
  | within (limit : Seconds) (c : ChildId) : IsDuty (.within limit (.awaitExit c))
  | cancelAndWait (u : TaskId) : IsDuty (.cancelAndWait u)

section duties

variable {roots : TaskId → Option Routine} {root called r : Routine} {F : Frame} {stack : List Frame} {t : TransportId}
  {c : ChildId}

/-- A duty calls duties. -/
theorem Frame.Calls.isDuty (hc : F.Calls called) (hs : F.Serves roots r) (hr : r.IsDuty) : called.IsDuty := by
  cases hs with
  | finishing h => cases h <;> cases hr <;> rename_i h <;> cases h
  | introducing h => cases h <;> cases hr <;> rename_i h <;> cases h
  | expecting h => cases h <;> cases hr <;> rename_i h <;> cases h
  | overdue => cases hc; exact .cancelAndWait _
  | lapsed => cases hc; exact .cancelAndWait _
  | abandoned => cases hc; exact .cancelAndWait _
  | terminating => cases hc; exact .within _ _
  | killing => cases hc; exact .chore (.awaitExit _)
  | outputEnded => cases hc; exact .chore (.awaitExit _)
  | _ => first | (cases hc; done) | (cases hr; rename_i h; cases h)

theorem Stacked.duty (h : Stacked roots root called stack) (hroot : root.IsChore) : called.IsDuty := by
  induction h with
  | nil => exact .chore hroot
  | cons hc hs _ _ ih => exact hc.isDuty hs ih

/-- Nobody calls what reads the output of a child. -/
theorem Stacked.of_readOutput (h : Stacked roots root (.readOutput t c) stack) : root = .readOutput t c ∧ stack = [] := by
  cases h with
  | nil => exact ⟨rfl, rfl⟩
  | cons hc => cases hc

/-- No task of a transport calls a stop. -/
theorem Stacked.root_of_stop (h : Stacked roots root (.stop t) stack) (hroot : root.IsChore) :
    root = .stop t ∧ stack = [] := by
  cases h with
  | nil => exact ⟨rfl, rfl⟩
  | cons hc hs _ h =>
    cases hc
    have hduty := h.duty hroot
    cases hs with
    | releasingListener => cases hduty with | chore h => cases h
    | releasingSession => cases hduty with | chore h => cases h

/-- Whoever reads the output of a child calls nothing but the wait for its end. -/
theorem Stacked.of_reading (h : Stacked roots (.readOutput t c) called stack) :
    called = .readOutput t c ∧ stack = [] ∨ called = .awaitExit c ∧ ∃ n, stack = [.outputEnded t c n] := by
  cases h with
  | nil => exact .inl ⟨rfl, rfl⟩
  | cons hc hs _ h =>
    rcases h.called_of_reads rfl with rfl | ⟨c', rfl⟩
    · cases hs with
      | outputEnded t c n =>
        cases hc
        exact .inr ⟨rfl, n, by rw [h.of_readOutput.2]⟩
      | reading => cases hc
      | finishing hx => cases hx
      | introducing hx => cases hx
      | expecting hx => cases hx
    · exact absurd hc hs.not_calls_of_awaitExit

end duties

/-- The thread of a task that reads the output of a child. -/
inductive Reading (t : TransportId) (c : ChildId) : Thread Routine Frame Value Failure → Prop
  | fresh : Reading t c ⟨.fresh (.readOutput t c), []⟩
  | begins : Reading t c ⟨.begins (.readOutput t c), []⟩
  | waits (f : FutureId) (decoder : Decoder) : Reading t c ⟨.waits f, [.reading t c decoder]⟩
  | resumes (o : Ending) (decoder : Decoder) : Reading t c ⟨.resumes o, [.reading t c decoder]⟩
  | asks (pending : Nat) : Reading t c ⟨.begins (.awaitExit c), [.outputEnded t c pending]⟩
  | exits (f : FutureId) (pending : Nat) : Reading t c ⟨.waits f, [.exiting c, .outputEnded t c pending]⟩
  | exited (o : Ending) (pending : Nat) : Reading t c ⟨.resumes o, [.exiting c, .outputEnded t c pending]⟩
  | concludes (o : Ending) (pending : Nat) : Reading t c ⟨.resumes o, [.outputEnded t c pending]⟩
  | ends (o : Ending) : Reading t c ⟨.resumes o, []⟩

theorem Frame.Serves.of_awaitExit {roots : TaskId → Option Routine} {F : Frame} {c : ChildId}
    (h : F.Serves roots (.awaitExit c)) : F = .exiting c := by
  cases h with
  | exiting => rfl
  | finishing hx => cases hx
  | introducing hx => cases hx
  | expecting hx => cases hx

theorem Frame.Serves.of_readOutput {roots : TaskId → Option Routine} {F : Frame} {t : TransportId} {c : ChildId}
    (h : F.Serves roots (.readOutput t c)) : (∃ decoder, F = .reading t c decoder) ∨ ∃ n, F = .outputEnded t c n := by
  cases h with
  | reading => exact .inl ⟨_, rfl⟩
  | outputEnded => exact .inr ⟨_, rfl⟩
  | finishing hx => cases hx
  | introducing hx => cases hx
  | expecting hx => cases hx

/-- **Where a task has got to that reads the output of a child.** -/
theorem ThreadFits.reading {role : FutureId → Role} {m : Loop} {t : TransportId} {c : ChildId}
    {th : Thread Routine Frame Value Failure} (h : ThreadFits role m (.readOutput t c) th) : Reading t c th := by
  cases h with
  | fresh => exact .fresh
  | begins hv hr h =>
    rcases h.of_reading with ⟨rfl, rfl⟩ | ⟨rfl, n, rfl⟩
    · cases hr
      exact .begins
    · cases hr
      exact .asks n
  | ends h => exact .ends _
  | resumes hs hg hw h =>
    rcases h.of_reading with ⟨rfl, rfl⟩ | ⟨rfl, n, rfl⟩
    · rcases hs.of_readOutput with ⟨decoder, rfl⟩ | ⟨n, rfl⟩
      · exact .resumes _ decoder
      · exact .concludes _ n
    · rw [hs.of_awaitExit]
      exact .exited _ n
  | waits hs ha h =>
    rcases h.of_reading with ⟨rfl, rfl⟩ | ⟨rfl, n, rfl⟩
    · rcases hs.of_readOutput with ⟨decoder, rfl⟩ | ⟨n, rfl⟩
      · exact .waits _ decoder
      · cases ha
    · rw [hs.of_awaitExit]
      exact .exits _ n

/-! ## Tasks that will not read any more -/

namespace Loop

variable {role role' : FutureId → Role} {m m' : Loop} {t u : TaskId} {th th' : Thread Routine Frame Value Failure}
  {may : Licence Routine} {T : FutureId → Prop}

/-- A thread of a task that is cancelled, or at its end. -/
def DoomedAt (m : Loop) (u : TaskId) (th : Thread Routine Frame Value Failure) : Prop :=
  match th.top with
  | .fresh _ => m.IsHeld u
  | .waits f => m.IsHeld u ∨ m.outcome? f = some .cancelled
  | .begins _ => False
  | .resumes o => o = .cancelled ∨ th.stack = []

/-- A task is cancelled, or at its end, or has ended. -/
def Doomed (m : Loop) (u : TaskId) : Prop := ∀ th, m.thread? u = some th → m.DoomedAt u th

theorem DoomedAt.mono (h : m.DoomedAt u th) (hheld : m.IsHeld u → m'.IsHeld u)
    (hout : ∀ {f o}, m.outcome? f = some o → m'.outcome? f = some o) : m'.DoomedAt u th := by
  obtain ⟨top, stack⟩ := th
  cases top with
  | fresh r => exact hheld h
  | waits f => exact h.imp hheld hout
  | begins r => exact h
  | resumes o => exact h

/-- A doomed task stays so while the loop is extended. -/
theorem Doomed.extends (h : m.Doomed u) (he : m.Extends may m') (hs : m'.Sound T)
    (hheld : m.IsHeld u → m'.IsHeld u) (hlt : u < m.tasks.size) : m'.Doomed u := by
  intro th hth
  rw [he.thread? hs.owned hlt] at hth
  exact (h th hth).mono hheld he.outcome

/-- A doomed task stays so while another one moves. -/
theorem Doomed.switch {x : Option (Thread Routine Frame Value Failure)} (h : m.Doomed u) (hs : m.Switch t x m') (hu : u ≠ t)
    (hout : ∀ {f s}, m.thread? u = some ⟨.waits f, s⟩ → m.IsPlain f) : m'.Doomed u := by
  intro th hth
  rw [hs.other hu] at hth
  have hd := h th hth
  obtain ⟨top, stack⟩ := th
  cases top with
  | fresh r => exact hs.isHeld hu hd
  | waits f =>
    refine hd.imp (hs.isHeld hu) fun ho => ?_
    rw [hs.outcome (hout hth), ho]
  | begins r => exact hd
  | resumes o => exact hd

/-- A doomed task that is set going goes on as cancelled. -/
theorem DoomedAt.awakes (h : m.DoomedAt u th) (ha : m.Awakes u th th') : m'.DoomedAt u th' := by
  cases ha with
  | begins hheld => exact absurd h hheld
  | dropped => exact .inr rfl
  | resumes hheld ho =>
    rcases h with hheld' | hcancelled
    · exact absurd hheld' hheld
    · rw [ho] at hcancelled
      exact .inl (Option.some.inj hcancelled)
  | interrupted => exact .inl rfl

/-- A cancellation that is held back dooms a task that does not run. -/
theorem doomed_of_isHeld (h : m.IsHeld u) (hidle : ∀ x, m.running = some x → x.task ≠ u) : m.Doomed u := by
  intro th hth
  cases htop : th.top.isIdle with
  | false =>
    obtain ⟨x, hrun, hx, -⟩ := running_of_thread? hth htop
    exact absurd hx (hidle x hrun)
  | true =>
    unfold DoomedAt
    cases hth' : th.top with
    | fresh r => exact h
    | waits f => exact .inl h
    | begins r => rw [hth'] at htop; cases htop
    | resumes o => rw [hth'] at htop; cases htop

/-- **A task that is cancelled will not read any more**, if it waits for a plain future when it waits. -/
theorem doomed_of_cancelTask (hs : m.Sound T) (hlt : u < m.tasks.size) (hidle : ∀ x, m.running = some x → x.task ≠ u)
    (hplain : ∀ {f s}, m.thread? u = some ⟨.waits f, s⟩ → m.IsPlain f) : Doomed (m.cancelTask u).1 u := by
  rcases hs.cancelTask_cases hlt hidle hplain with ⟨heq, hnone⟩ | ⟨g, stack, hth, hun, heq⟩ | ⟨heq, -⟩ <;> rw [heq]
  · intro th hth
    cases hnone.symm.trans hth
  · -- what the task waits for is settled, and the task still waits for it
    intro th hth'
    rw [thread?_settle hs.owned (hplain hth), hth] at hth'
    cases hth'
    obtain ⟨future, hget, -⟩ := Option.map_eq_some_iff.mp (hplain hth)
    have hout : future.outcome = none := (outcome?_of_getElem? hget).symm.trans (isSettled_eq_false.mp hun)
    exact .inr ((outcome?_settle hget hout g).trans (if_pos rfl))
  · exact doomed_of_isHeld ⟨_, getElem?_setHeld (Array.getElem?_eq_getElem hlt), if_pos rfl⟩ hidle

end Loop

end DiagnosticsClient
