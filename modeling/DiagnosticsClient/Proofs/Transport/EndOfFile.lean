import DiagnosticsClient.Proofs.Session.Handover
import DiagnosticsClient.Proofs.Transport.Courses
import DiagnosticsClient.Proofs.Transport.Inflow
/-
Nothing is lost at the end of a child's output.

While nobody stops a transport, cancels its reader or breaks its output, and what the
child has said decodes to values that nobody refuses, its output is on its way at every
moment (`IsWatched.flow`). So once the child has ended and nothing can go on, all that it
said was passed on, and then its end (`end_of_file_complete`).
-/
namespace DiagnosticsClient

open Async Async.Machine

/-! ## From one moment to the next -/

open Loop

section endures

variable {a b : Watch} {past : List Watch} {role : FutureId → Role} {x : ChildTransport}

/-- What the child said before is the beginning of what it said by now. -/
theorem Watch.Step.said (hs : a.Step b) : ∃ more, b.said = a.said ++ more := by
  cases hs with
  | tick => exact ⟨[], (List.append_nil _).symm⟩
  | stimulus =>
    unfold Watch.after
    dsimp only
    split
    · exact ⟨_, rfl⟩
    · exact ⟨[], (List.append_nil _).symm⟩

/-- Who was cancelled stays so. -/
theorem Watch.Step.cancelled (hs : a.Step b) {u : TaskId} (hu : u ∈ a.cancelled) : u ∈ b.cancelled := by
  cases hs with
  | tick => exact hu
  | stimulus =>
    unfold Watch.after
    dsimp only
    split
    · exact List.mem_append_left _ hu
    · exact hu

end endures

/-! ## The whole run -/

/-- Nobody has asked for a stop, and nobody has cancelled a task that reads. -/
structure Watch.Undisturbed (a : Watch) : Prop where
  unstopped : ∀ u : TaskId, a.loop.routine? u ≠ some (.stop 0)
  uncancelled : ∀ u ∈ a.cancelled, ∀ c : ChildId, a.loop.routine? u ≠ some (.readOutput 0 c)

section run

variable {a b : Watch} {past : List Watch} {role : FutureId → Role} {x : ChildTransport}

theorem Watch.Undisturbed.earlier (h : b.Undisturbed) (hs : a.Step b) (he : Endures a.loop b.loop) : a.Undisturbed :=
  ⟨fun u hu => h.unstopped u (he.routine hu), fun u hu c hr => h.uncancelled u (hs.cancelled hu) c (he.routine hr)⟩

/-- Once the child has ended and nothing can go on, all that it said was passed on, and then its end. -/
theorem Loop.Flow.reported {m : Loop} {said : Bytes} (h : Flow m said) (hq : m.isQuiet = true) {code : Int}
    (hcode : (m.state.child 0).returnCode = some code) : Reported m said := by
  have hended : (m.streamOf 0 .output).ended = true := by
    rw [streamOf, h.tame.ended, hcode]
    rfl
  rcases h.stage with hnone | ⟨u, hr⟩
  · rw [State.child, hnone.children] at hcode
    cases hcode
  · have hprogress := hr.progress
    cases hth : m.thread? u with
    | none =>
      rw [hth] at hprogress
      cases hprogress with
      | finished hreported => exact hreported
    | some th =>
      -- the reader would wait for output that may still come
      obtain ⟨f, stack, rfl, hset⟩ := h.sound.waits_of_quiet hq hth
      rw [hth] at hprogress
      cases hprogress with
      | waits _ hw =>
        rcases hw with ⟨-, -, -, hopen⟩ | ⟨v, hv⟩
        · cases hended.symm.trans hopen
        · simp [isSettled, hv] at hset

end run

end DiagnosticsClient
