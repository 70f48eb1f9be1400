import DiagnosticsClient.Proofs.Session.Members
/-
What the running task does fits.

Whatever it begins or goes on with does what fits the routine it serves
(`begin_does`, `resume_does`), with perhaps one more role.
-/
namespace DiagnosticsClient

open Async Async.Machine

namespace Loop

variable {role : FutureId → Role} {usage : Usage} {m : Loop} {t : TaskId} {root called r : Routine} {F : Frame} {stack : List Frame}
  {o : Ending}

/-- Nobody calls what only runs in the place of another routine. -/
theorem Fits.ne_endTasks (hf : Fits role m usage) {u : TaskId} (hroot : m.routine? u = some root)
    (hstack : Stacked m.routine? root called stack) (t : TransportId) (tasks : List TaskId) : called ≠ .endTasks t tasks := by
  rintro rfl
  cases hstack with
  | nil => cases usage <;> cases hf.roots hroot
  | cons hc => cases hc

theorem Executes.ne_endTasks (hf : Fits role m usage) (hx : m.Executes called) (t : TransportId) (tasks : List TaskId) :
    called ≠ .endTasks t tasks := by
  obtain ⟨_, _, root, stack, -, -, hroot, hstack⟩ := hx
  exact hf.ne_endTasks hroot hstack t tasks

/-- What drives a transport begins by passing something on, or not even that; to wait for the end of a child, to limit time
and to cancel need a new role besides. -/
theorem begin_minor (hf : Fits role m usage) (hx : m.Executes called) (hv : r.Valid m.routine?) (hr : r.StandsFor called)
    (hd : called.isDriving = true) (hw : ∀ c, called ≠ .awaitExit c) (hl : ∀ limit inner, called ≠ .within limit inner)
    (hc : ∀ u, called ≠ .cancelAndWait u) :
    Minor role m.Cancellable (·.isOwn = true) called m (begin r m) := by
  have h := hf.tidy
  cases hr with
  | exchange => cases hd
  | endTasks t tasks =>
    have hn : m.SparesReaders := hx.sparesReaders rfl fun c hc => by cases hc
    exact (endTasks_beside hf hn t hv).minor
  | refl =>
    cases called with
    | within limit inner => exact absurd rfl (hl limit inner)
    | cancelAndWait u => exact absurd rfl (hc u)
    | start t => exact start_minor h id t
    | stop t => exact (stop_beside h t).minor
    | endTasks t tasks => exact absurd rfl (hx.ne_endTasks hf t tasks)
    | awaitExit c => exact absurd rfl (hw c)
    | readOutput t c => exact readOutput_minor h (fun _ => rfl) t c
    | drainErrors c => exact (drainLines_beside h c _).minor
    | _ => cases hd

/-- **What a routine begins with fits.** -/
theorem begin_does (hf : Fits role m usage) (hx : m.Executes called) (hv : r.Valid m.routine?) (hr : r.StandsFor called) :
    ∃ role', Does role role' m called (begin r m) := by
  have h := hf.tidy
  cases hd : called.isDriving with
  | true =>
    by_cases hw : ∃ c, called = .awaitExit c
    · obtain ⟨c, rfl⟩ := hw
      cases hr
      exact awaitExit_does h c
    · by_cases hl : ∃ limit inner, called = .within limit inner
      · obtain ⟨limit, inner, rfl⟩ := hl
        cases hr
        exact within_does h limit hv
      · by_cases hc : ∃ u, called = .cancelAndWait u
        · obtain ⟨u, rfl⟩ := hc
          cases hr
          exact cancelAndWait_does hf hx hv
        · have hminor := begin_minor hf hx hv hr hd (fun c h => hw ⟨c, h⟩) (fun limit inner h => hl ⟨limit, inner, h⟩)
            fun u h => hc ⟨u, h⟩
          exact ⟨role, hminor.does⟩
  | false =>
    cases hr with
    | exchange hx' => exact ⟨_, exchange_does h hx'⟩
    | endTasks => cases hd
    | refl =>
      cases called with
      | acquireLock =>
        obtain ⟨role', hd, -⟩ := acquire_does h
        exact ⟨role', hd⟩
      | openListener l => exact ⟨_, openListener_does h l⟩
      | register l => exact ⟨_, register_does h l⟩
      | closeListener l => exact ⟨_, closeListener_does h l⟩
      | closeSession => exact ⟨_, closeSession_does h⟩
      | next l => exact ⟨_, next_does h l⟩
      | take l =>
        obtain ⟨role', hd, -⟩ := take_does h l
        exact ⟨role', hd⟩
      | collect l => exact ⟨_, collect_does h l⟩
      | visit count => exact ⟨_, visit_does h count⟩
      | request file limit => exact ⟨_, request_does h file limit⟩
      | exchange opening asking => exact ⟨_, exchange_does h (.exchange opening asking)⟩
      | checkFile file context limit => exact ⟨_, checkFile_does h file context limit⟩
      | checkFiles files context limit => exact checkFiles_does h files context limit
      | _ => cases hd

/-- What drives a transport or limits time goes on by passing something on, or not even that. -/
theorem resume_minor (hf : Fits role m usage) (hs : F.Serves m.routine? called) (hw : F.Woke role m o)
    (hd : called.isDriving = true) :
    Minor role m.Cancellable (·.isOwn = true) called m (resume F o m) := by
  have h := hf.tidy
  cases hs with
  | timing w limit hu hi => exact (timeResumed_beside hf hu hi w o).minor
  | overdue limit hu => exact (overdueResumed_beside hf hu o).minor
  | lapsed w limit hu => exact (lapsedResumed_beside hf hu w o).minor
  | abandoned w limit inner => exact (abandonedResumed_beside h limit inner w o).minor
  | cancelWaiting u w => exact (cancelResumed_beside h u w o).minor
  | gatedStart t fails w => exact (gateResumed_beside h t .start fails w o).minor
  | gatedStop t fails w => exact (gateResumed_beside h t .stop fails w o).minor
  | ending hv => exact (endResumed_beside h _ hv o).minor
  | terminating c t => exact (terminateResumed_beside h t c o).minor
  | killing c t => exact (killResumed_beside h t c o).minor
  | exiting c => exact (exitResumed_beside h hw).minor
  | reading t c decoder => exact readResumed_minor h (fun _ => rfl) t c decoder o
  | outputEnded t c pending => exact outputResumed_minor h (fun _ => rfl) t c pending o
  | draining c => exact (drainResumed_beside h c o).minor
  | finishing hx => cases hx <;> cases hd
  | introducing hx => cases hx <;> cases hd
  | expecting hx => cases hx <;> cases hd
  | _ => cases hd

/-- **What a frame goes on with fits.** -/
theorem resume_does (hf : Fits role m usage) (hs : F.Serves m.routine? called) (hg : F.Gets m.state o) (hw : F.Woke role m o) :
    Does role role m called (resume F o m) := by
  have h := hf.tidy
  have hgives : ∀ {r : Routine}, F.isWait = false → (∀ {r'}, F.Calls r' → r' = r) → ∀ v, o = .value v → r.Gives m.state v := by
    intro r hwait hcalls v hv
    rcases hg with hg | ⟨r', hc, hg⟩
    · rw [hwait] at hg
      cases hg
    · exact hcalls hc ▸ hg v hv
  cases hd : called.isDriving with
  | true => exact (resume_minor hf hs hw hd).does
  | false =>
    cases hs with
    | locking w => exact acquireResumed_does h w o
    | opening l => exact openResumed_does h l o
    | registering l => exact registerLocked_does h l o
    | starting l t => exact startResumed_does h l t o
    | leaving l => exact leaveLocked_does h l o
    | closing => exact closeLocked_does h o
    | releasingListener l => exact stopResumed_does h (fun s v => show (Routine.closeListener l).Gives s v from trivial) o
    | releasingSession => exact stopResumed_does h (fun s v => show Routine.closeSession.Gives s v from trivial) o
    | receiving l => exact nextResumed_does h l (hgives (r := .take l) rfl fun hc => by cases hc; rfl)
    | getting l g =>
      obtain ⟨-, o', ho', -⟩ := hw
      exact takeResumed_does h l (isSettled_iff.mpr ⟨o', ho'⟩) o
    | collecting l taken => exact collectResumed_does h l taken o
    | visiting l count total => exact visitOpened_does h total l count o
    | visited l count total taken => exact visitResumed_does h total l count taken o
    | finishingVisit e total => exact cleanedUp_does h (fun v _ => show (Routine.visit total).Gives m.state v from trivial) o
    | finishing hx he => exact cleanedUp_does h (fun v hv => gives_of_answers hx _ (he v hv)) o
    | requesting file seq limit =>
      refine requestResumed_does h file seq limit fun v hv => ?_
      rcases hg with hg | ⟨r', hc, hg⟩
      · cases hg
      · cases hc
        exact hg v hv
    | introducing hx => exact exchangeOpened_does h hx _ o
    | expecting hx => exact exchangeResumed_does h hx _ (hgives (r := .next _) rfl fun hc => by cases hc; rfl)
    | answered file context limit => exact answerResumed_does h file context limit o
    | readSource file context limit diagnostics => exact sourceResumed_does h file context limit diagnostics o
    | gathered members files context limit => exact gatherResumed_does h files context limit members o
    | finishingCheck e files context limit =>
      exact cleanedUp_does h (fun v _ => show (Routine.checkFiles files context limit).Gives m.state v from trivial) o
    | _ => cases hd

end Loop

end DiagnosticsClient
