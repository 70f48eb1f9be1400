import DiagnosticsClient.Proofs.Session.Careers
import DiagnosticsClient.Proofs.Session.Children
import DiagnosticsClient.Proofs.Session.Multicast
/-
What becomes of a transport that reports its end.

A report is heeded if it comes once the transport's start has returned: the
session lets go of the transport for good, and everybody who is registered then
is given the report's error as the one end of its messages (`reports_heeded`).

A report that comes before that is not. The session knows a transport only
after its start returned, so it takes the report for one of a transport that is of
no interest, and then goes on with a transport that has ended
(`report_lost_at_start`).
-/
namespace DiagnosticsClient

open Async Async.Machine

namespace Loop

variable {role role' : FutureId → Role} {m m' : Loop} {t : TransportId} {u : TaskId} {l : ListenerId} {v : Value}
  {stack : List Frame} {e : Option ServerError}

/-- What a transport reports first in a step. -/
def reported (t : TransportId) (m m' : Loop) : Option (Option ServerError) :=
  ((m'.state.reports.drop m.state.reports.length).find? fun r => t = r.1).map (·.2)

theorem reported_of_same (h : m'.state.reports = m.state.reports) : reported t m m' = none := by
  rw [reported, h, List.drop_length]
  rfl

/-- Nobody reports while the session is closed. -/
theorem Tick.reports_of_closing (ht : Tick role m role' m') (hf : Fits role m)
    (hr : m.running = some (.resume u (.value v) (.closing :: stack))) : m'.state.reports = m.state.reports := by
  cases ht with
  | awakes idle => rw [idle] at hr; cases hr
  | passes idle => rw [idle] at hr; cases hr
  | ends runs => rw [runs] at hr; cases hr
  | begins runs => rw [runs] at hr; cases hr
  | resumes runs serves gets woke how deed =>
    rw [runs] at hr
    cases hr
    have hall := detachAll_delivers (K := fun _ => True) (S := fun _ => True) hf.tidy none
    rw [deed.state]
    simp only [resume, closeLocked]
    split
    · exact hall.reports
    · rw [releaseLock_state]
      exact hall.reports

/-- Nobody reports while a transport that was started becomes current. -/
theorem Tick.reports_of_starting (ht : Tick role m role' m')
    (hr : m.running = some (.resume u (.value v) (.starting l t :: stack))) : m'.state.reports = m.state.reports := by
  cases ht with
  | awakes idle => rw [idle] at hr; cases hr
  | passes idle => rw [idle] at hr; cases hr
  | ends runs => rw [runs] at hr; cases hr
  | begins runs => rw [runs] at hr; cases hr
  | resumes runs serves gets woke how deed =>
    rw [runs] at hr
    cases hr
    rw [deed.state]
    simp only [resume, startResumed, releaseLock_state]
    rfl

end Loop

section runs

variable {role role' : FutureId → Role} {a b c : Moment} {past newer older : List Moment} {t : TransportId}
  {e : Option ServerError} {l : ListenerId}

/-- The end that the current transport reports is the one that all who are registered are given. -/
theorem Goes.farewell (hg : Goes role b role' c) (h : b.Holds role) (huse : b.uses t = true)
    (hrep : Loop.reported t b.loop c.loop = some e) : Loop.farewell b.loop c.loop = some e := by
  have hclosing : ∀ u v stack, b.loop.running ≠ some (.resume u (.value v) (.closing :: stack)) := by
    intro u v stack hr
    cases hg with
    | tick hq ht =>
      rw [Loop.reported_of_same (ht.reports_of_closing h.fits hr)] at hrep
      cases hrep
    | stimulus hidle ha =>
      rw [hidle] at hr
      cases hr
  have hcurrent : b.loop.state.current = some t := of_decide_eq_true huse
  unfold Loop.farewell
  split
  · next hrun => exact absurd hrun (hclosing _ _ _)
  · simpa only [Loop.reported, hcurrent, Option.some.injEq] using hrep

/-- A transport whose start has returned and that reports is the current one, or was. -/
theorem Goes.uses_or_hasLeft {x : Stage} (hg : Goes role b role' c) (hx : b.Shows t x) (hpast : Past t x (b :: older))
    (hstarted : ∃ d ∈ b :: older, d.started t = true) (hrep : Loop.reported t b.loop c.loop = some e) :
    b.uses t = true ∨ b.uses t = false ∧ ∃ d ∈ older, d.uses t = true := by
  have hcurrent : x.wasCurrent = true → b.uses t = true ∨ b.uses t = false ∧ ∃ d ∈ older, d.uses t = true := by
    intro hwas
    obtain ⟨d, hd, huse⟩ := hpast.current.mpr hwas
    cases hb : b.uses t with
    | true => exact .inl rfl
    | false =>
      refine .inr ⟨rfl, d, (List.mem_cons.mp hd).resolve_left ?_, huse⟩
      rintro rfl
      cases hb.symm.trans huse
  have hwas := hpast.started.mp hstarted
  cases x with
  | tied k =>
    cases k with
    | started =>
      -- the start has only just returned: in this step the transport becomes current
      have hrun := hx.started.mpr rfl
      unfold Moment.started at hrun
      split at hrun
      · next u v l t' stack hr =>
        obtain rfl := of_decide_eq_true hrun
        cases hg with
        | tick hq ht =>
          rw [Loop.reported_of_same (ht.reports_of_starting hr)] at hrep
          cases hrep
        | stimulus hidle ha =>
          rw [hidle] at hr
          cases hr
      · cases hrun
    | _ => exact hcurrent hwas
  | _ => exact hcurrent hwas

/-- A transport that ceased to be the current one never is again. -/
theorem IsRun.never_again (h : IsRun (a :: past)) (heq : a :: past = newer ++ b :: older) (hused : ∃ d ∈ older, d.uses t = true)
    (hfree : b.uses t = false) : ∀ d ∈ newer, d.uses t = false := by
  intro d hd
  obtain ⟨newer', older', rfl⟩ := List.append_of_mem hd
  rw [heq, List.append_assoc] at h
  obtain ⟨y, hy, hpast⟩ := h.upTo.career t
  have hleft := hpast.left List.cons_append.symm hfree hused
  refine Bool.eq_false_iff.mpr fun hdu => ?_
  rw [hy.uses.mp hdu] at hleft
  cases hleft

/-- **No report is lost that comes once the transport's start has returned.** At every later moment of the run the
transport is not the current one. If it was when it reported, then everybody who was registered has been let go, and was
given exactly one end, with the error of the report and after every message that came before it. -/
theorem reports_heeded (h : IsRun (a :: past)) (heq : a :: past = newer ++ c :: b :: older)
    (hstarted : ∃ d ∈ b :: older, d.started t = true) (hrep : Loop.reported t b.loop c.loop = some e) :
    a.uses t = false ∧
    (b.uses t = true → ∀ l ∈ b.loop.state.registered, l ∉ a.loop.state.registered ∧ ends l (a :: past) = [e] ∧
      a.loop.state.delivered l = (meant l (a :: past)).map .message ++ [.ended e]) := by
  have hc : IsRun (c :: b :: older) := IsRun.upTo (heq ▸ h)
  obtain ⟨hb, role, role', hholds, hholds', hgoes⟩ := hc.lastStep
  have hmem : a ∈ newer ++ [c] := by
    rw [show newer ++ c :: b :: older = (newer ++ [c]) ++ b :: older by simp] at heq
    cases hnewer : newer ++ [c] with
    | nil => simp at hnewer
    | cons d rest =>
      rw [hnewer] at heq
      exact (List.cons.inj heq).1 ▸ List.mem_cons_self
  obtain ⟨x, hx, hpast⟩ := hb.career t
  constructor
  · rcases hgoes.uses_or_hasLeft hx hpast hstarted hrep with huse | ⟨hfree, hused⟩
    · have hnobody := (hgoes.pours hholds).registered (by rw [hgoes.farewell hholds huse hrep]; rfl)
      have hgone : c.uses t = false := by
        unfold Moment.uses
        rw [hholds'.current_eq_none hnobody]
        rfl
      rcases List.mem_append.mp hmem with hnew | hlast
      · exact h.never_again heq ⟨b, List.mem_cons_self, huse⟩ hgone a hnew
      · rwa [List.mem_singleton.mp hlast]
    · exact h.never_again (show a :: past = (newer ++ [c]) ++ b :: older by rw [heq]; simp) hused hfree a hmem
  · intro huse l hl
    have hfarewell := hgoes.farewell hholds huse hrep
    have hspent := spends_of_farewell hgoes hholds hholds' hl hfarewell
    have hends : ends l (a :: past) = [e] := by
      rw [ends_of_gone h heq hl hspent.gone, hfarewell]
      rfl
    refine ⟨(ends_of_spends hspent h heq).1.gone, hends, ?_⟩
    rw [(h.accounted l).delivered, hends]
    rfl

end runs

/-- A session over a rehearsed transport when somebody has opened a listener, and the moments before. -/
def rehearsedSession (rehearsal : Rehearsal) : Moment × List Moment :=
  Moment.pursue 40 (.ask (.openListener 0))
    (Moment.pursue 0 .listen ({ loop := { state := { medium := .rehearsals, rehearsals := [rehearsal] } } }, []))

theorem isRun_rehearsedSession (rehearsal : Rehearsal) :
    IsRun ((rehearsedSession rehearsal).1 :: (rehearsedSession rehearsal).2) := by
  have hlisten : IsRun ((Moment.pursue 0 .listen
      ({ loop := { state := { medium := .rehearsals, rehearsals := [rehearsal] } } }, [])).1 ::
      (Moment.pursue 0 .listen ({ loop := { state := { medium := .rehearsals, rehearsals := [rehearsal] } } }, [])).2) :=
    IsRun.pursue (s := .listen) (.new ⟨{ medium := .rehearsals, rehearsals := [rehearsal] }, rfl⟩) rfl trivial 0
  exact hlisten.pursue (s := .ask (.openListener 0)) rfl ⟨rfl, fun l hl => by cases hl; exact List.mem_singleton.mpr rfl⟩ 40

/-- The error of a transport that ended. -/
def lostConnection : ServerError := { message := lit "connection lost" }

/-- A session whose transport has reported its end. -/
def disconnectedSession : Moment × List Moment :=
  Moment.pursue 40 (.report 0 (some lostConnection)) (rehearsedSession {})

/-- The listener was let go with the error of the transport, which is stopped. -/
theorem report_heeded_while_open : ∃ a past newer c b older, IsRun (a :: past) ∧ a :: past = newer ++ c :: b :: older ∧
    Loop.reported 0 b.loop c.loop = some (some lostConnection) ∧ a.uses 0 = false ∧
    0 ∈ b.loop.state.registered ∧ 0 ∉ a.loop.state.registered ∧ ends 0 (a :: past) = [some lostConnection] := by
  have hopen := isRun_rehearsedSession {}
  have hrun : IsRun (disconnectedSession.1 :: disconnectedSession.2) :=
    hopen.pursue (s := .report 0 (some lostConnection)) (by decide +kernel) trivial 40
  obtain ⟨newer, heq⟩ := suffix_pursue 40 (.report 0 (some lostConnection)) (rehearsedSession {})
  have hstarted : ∃ d ∈ (rehearsedSession {}).1 :: (rehearsedSession {}).2, d.started 0 = true := by decide +kernel
  have hrep : Loop.reported 0 (rehearsedSession {}).1.loop
      ((rehearsedSession {}).1.after (.report 0 (some lostConnection))).loop = some (some lostConnection) := by decide +kernel
  have hmem : 0 ∈ (rehearsedSession {}).1.loop.state.registered := by decide +kernel
  obtain ⟨hfree, hall⟩ := reports_heeded hrun heq.symm hstarted hrep
  obtain ⟨hgone, hends, -⟩ := hall (by decide +kernel) 0 hmem
  exact ⟨_, _, newer, _, _, _, hrun, heq.symm, hrep, hfree, hmem, hgone, hends⟩

/-- A session when its transport is about to report its end, in the midst of its start. -/
def startingSession : Moment × List Moment :=
  Moment.pursue 5 (.ask (.openListener 0)) (Moment.pursue 0 .listen
    ({ loop := { state := { medium := .rehearsals, rehearsals := [{ endsAtStart := true }] } } }, []))

/-- The same session when it has reported. -/
def reportedSession : Moment × List Moment := startingSession.1.onward 1 startingSession.2

/-- The same session when nothing can go on by itself. -/
def deafSession : Moment × List Moment := reportedSession.1.onward 40 reportedSession.2

/-- The report was lost: the transport started well and is the current one, nothing can go on by itself, nobody starts or
stops anything, and the listener that was registered when the transport reported still is, without an end. -/
theorem report_lost_at_start : ∃ a past newer c b older, IsRun (a :: past) ∧ a :: past = newer ++ c :: b :: older ∧
    Loop.reported 0 b.loop c.loop = some none ∧ b.starts 0 = true ∧ 0 ∈ b.loop.state.registered ∧
    c.started 0 = true ∧ a.loop.isQuiet = true ∧ a.loop.state.lock.held = false ∧
    a.loop.tasks.toList.map (·.routine) = [.openListener 0] ∧
    a.uses 0 = true ∧ 0 ∈ a.loop.state.registered ∧ ends 0 (a :: past) = [] := by
  have hlisten : IsRun ((Moment.pursue 0 .listen
      ({ loop := { state := { medium := .rehearsals, rehearsals := [{ endsAtStart := true }] } } }, [])).1 ::
      (Moment.pursue 0 .listen
        ({ loop := { state := { medium := .rehearsals, rehearsals := [{ endsAtStart := true }] } } }, [])).2) :=
    IsRun.pursue (s := .listen) (.new ⟨{ medium := .rehearsals, rehearsals := [{ endsAtStart := true }] }, rfl⟩) rfl trivial 0
  have hstart : IsRun (startingSession.1 :: startingSession.2) :=
    hlisten.pursue (s := .ask (.openListener 0)) rfl ⟨rfl, fun l hl => by cases hl; exact List.mem_singleton.mpr rfl⟩ 5
  have hreport : IsRun (reportedSession.1 :: reportedSession.2) := hstart.onward 1
  have hrun : IsRun (deafSession.1 :: deafSession.2) := hreport.onward 40
  have hstep : reportedSession.2 = startingSession.1 :: startingSession.2 := by
    have hbusy : startingSession.1.loop.isQuiet = false := by decide +kernel
    simp only [reportedSession, Moment.onward, hbusy]
    rfl
  obtain ⟨newer, heq⟩ := suffix_onward 40 reportedSession.1 reportedSession.2
  refine ⟨_, _, newer, reportedSession.1, startingSession.1, startingSession.2, hrun, ?_, ?_, ?_, ?_, ?_, ?_, ?_,
    by rfl, ?_, ?_, ?_⟩
  · rw [← hstep]
    exact heq.symm
  all_goals decide +kernel

end DiagnosticsClient
