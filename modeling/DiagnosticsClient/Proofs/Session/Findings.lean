import DiagnosticsClient.Proofs.Session.Genuine
/-
What the tasks of a check find.

For each file there is a task. It asks for the diagnostics of the file, and the
number that its request is given is its own (`IsCheck.isAsked_inj`). It ends with a
record only when a response to that request was received, and has in its record the
diagnostics of that response (`IsCheck.found`).
-/
namespace DiagnosticsClient

open Async Async.Machine

/-- The diagnostics of a file were asked for with this number, by the task that checks the file. -/
def IsAsked (file path : Text) (n : Nat) (loops : List Loop) : Prop :=
  ∃ m ∈ loops, ∃ t limit context, m.running = some (.begin t (.request (.str path) limit) [.answered file context]) ∧
    n = m.state.nextSeq + 1

/-- The request for the diagnostics of a file was answered, and these are the diagnostics of the answer. -/
def IsFound (file path : Text) (diagnostics : List Diagnostic) (m : Loop) (past : List Loop) : Prop :=
  ∃ n response, IsAsked file path n past ∧ .response response ∈ m.state.received ∧
    response.answers (.semanticDiagnostics n (.str path)) = true ∧ (Message.response response).diagnostics = .ok diagnostics

/-- How far the task that checks a file has got. -/
inductive Search (file path : Text) (context : Context) (limit : Option Seconds) (m : Loop) (past : List Loop) :
    Thread Routine Frame Value Failure → Prop
  | fresh : Search file path context limit m past ⟨.fresh (.checkFile file context limit), []⟩
  | begins : Search file path context limit m past ⟨.begins (.checkFile file context limit), []⟩
  | asks : Search file path context limit m past ⟨.begins (.request (.str path) limit), [.answered file context]⟩
  | quotes {n : Nat} {th : Thread Routine Frame Value Failure} (hn : IsAsked file path n past)
      (h : Thread.Quotes (.str path) n [.answered file context] th) : Search file path context limit m past th
  | reads {diagnostics : List Diagnostic} {th : Thread Routine Frame Value Failure} (h : IsFound file path diagnostics m past)
      (hstack : th.stack = [.readSource file context diagnostics]) (htop : ∀ r, th.top ≠ .begins r) :
      Search file path context limit m past th
  | ends {o : Ending} (h : ∀ v, o = .value v → ∃ r, v = .record r ∧ r.file = file ∧ IsFound file path r.diagnostics m past) :
      Search file path context limit m past ⟨.resumes o, []⟩

variable {s : Surroundings} {files : List Text} {file file' path path' : Text} {context context' : Context} {limit limit' : Option Seconds}
  {role role' : FutureId → Role} {m m' : Loop} {past : List Loop} {u : TaskId} {o : Ending} {n : Nat}
  {th : Thread Routine Frame Value Failure} {diagnostics : List Diagnostic}

/-! ## Numbers -/

theorem IsAsked.cons (h : IsAsked file path n past) : IsAsked file path n (m :: past) := by
  obtain ⟨b, hb, hasked⟩ := h
  exact ⟨b, List.mem_cons_of_mem _ hb, hasked⟩

theorem IsFound.step (h : IsFound file path diagnostics m past) (hm : m.Holds role) (hmoves : Moves role m role' m') :
    IsFound file path diagnostics m' (m :: past) := by
  obtain ⟨n, response, hasked, hreceived, hrest⟩ := h
  exact ⟨n, response, hasked.cons, hmoves.received hm hreceived, hrest⟩

theorem IsAsked.of_cons (h : IsAsked file path n (m :: past)) :
    (∃ t limit context, m.running = some (.begin t (.request (.str path) limit) [.answered file context]) ∧
      n = m.state.nextSeq + 1) ∨ IsAsked file path n past := by
  obtain ⟨b, hb, hasked⟩ := h
  rcases List.mem_cons.mp hb with rfl | hb
  · exact .inl hasked
  · exact .inr ⟨b, hb, hasked⟩

/-- A number that was given is not given any more. -/
theorem IsCheck.isAsked_lt (h : IsCheck s files context limit (m :: past)) (hn : IsAsked file path n past) :
    n < m.state.nextSeq := by
  refine (h.induction (P := fun m past => ∀ n, IsAsked file path n past → n < m.state.nextSeq) (fun n hn => ?_)
    fun _ hm _ hmoves hp n hn => ?_).2 n hn
  · obtain ⟨b, hb, -⟩ := hn
    cases hb
  · rcases hn.of_cons with ⟨t, limit, context, hr, rfl⟩ | hn
    · cases hmoves with
      | goes hgoes => exact Nat.lt_of_lt_of_eq (Nat.lt_succ_self _) (hgoes.nextSeq_of_request hr).symm
      | lapse hnot => cases hnot.symm.trans hr
    · exact Nat.lt_of_lt_of_le (hp _ hn) (hmoves.nextSeq hm)

/-- **No two files are asked for with the same number.** -/
theorem IsCheck.isAsked_inj (h : IsCheck s files context limit (m :: past)) (hn : IsAsked file path n past)
    (hn' : IsAsked file' path' n past) : file = file' := by
  induction past generalizing m with
  | nil =>
    obtain ⟨b, hb, -⟩ := hn
    cases hb
  | cons c past ih =>
    cases h with
    | step h =>
      rcases hn.of_cons with ⟨t, limit', context', hr, heq⟩ | hold <;>
        rcases hn'.of_cons with ⟨t', limit'', context'', hr', heq'⟩ | hold'
      · cases hr.symm.trans hr'
        rfl
      · exact absurd (h.isAsked_lt hold') (by omega)
      · exact absurd (h.isAsked_lt hold) (by omega)
      · exact ih h hold hold'

/-! ## The search -/

theorem IsCheck.workingDirectory (h : IsCheck s files context limit (m :: past)) :
    m.state.workingDirectory = s.tree.workingDirectory := by
  have hsetup := (h.induction (P := fun m _ => m.state.setup = s.session.setup) rfl
    fun _ hm _ hmoves hp => (hmoves.setup hm).trans hp).2
  exact congrArg Setup.workingDirectory hsetup

/-- What the task goes on with once it is answered. -/
theorem Search.of_answered (hasked : IsAsked file path n past) (hg : ∀ v, o = .value v → v.IsGenuine m'.state)
    (ha : ∀ v, o = .value v → v.Answers (.semanticDiagnostics n (.str path))) :
    Search file path context limit m' past
      ((Loop.answerResumed file context o m).1.nextThread [] (Loop.answerResumed file context o m).2) := by
  unfold Loop.answerResumed
  split
  · next msg =>
    obtain ⟨response, rfl, hanswers⟩ : ∃ response, msg = .response response ∧
        response.answers (.semanticDiagnostics n (.str path)) = true := by
      have hanswers := ha _ rfl
      cases msg with
      | response r => exact ⟨r, rfl, hanswers⟩
      | _ => cases hanswers
    split
    · exact .ends fun v hv => by cases hv
    · next diagnostics hdiagnostics =>
      refine .reads ⟨n, response, hasked, hg _ rfl, hanswers, hdiagnostics⟩ (Machine.stack_nextThread_await ..) fun r htop => ?_
      unfold Machine.nextThread at htop
      dsimp only at htop
      split at htop <;> cases htop
  · next hne =>
    refine .ends fun v hv => ?_
    have hanswers := ha v hv
    cases v with
    | message msg => exact absurd hv (hne msg)
    | _ => cases hanswers

/-- **A turn of the task that checks a file** keeps what it has found, and what it ends with is what it found. -/
theorem Search.step (h : Search file path context' limit' m past th) (hcheck : IsCheck s files context limit (m :: past))
    (hpath : path = Path.absolute s.tree.workingDirectory file) (hm : m.Holds role) (hmoves : Moves role m role' m')
    (hth : m.thread? u = some th) (hroot : m.routine? u = some (.checkFile file context' limit'))
    (hturn : Loop.Turn role m u th role' m') :
    (∃ th', m'.thread? u = some th' ∧ Search file path context' limit' m' (m :: past) th') ∨
      ∃ o, m'.taskOutcome? u = some o ∧
        ∀ v, o = .value v → ∃ r, v = .record r ∧ r.file = file ∧ IsFound file path r.diagnostics m' (m :: past) := by
  cases h with
  | fresh =>
    cases hturn with
    | rests _ _ hth' => exact .inl ⟨_, hth', .fresh⟩
    | awakes how switch =>
      cases how with
      | begins => exact .inl ⟨_, switch.self, .begins⟩
      | dropped => exact .inl ⟨_, switch.self, .ends fun v hv => by cases hv⟩
  | begins =>
    obtain ⟨-, -, called, root, -, -, hdeed, rfl⟩ := hturn.of_begins
    refine .inl ⟨_, hdeed.switch.self, ?_⟩
    rw [hpath, ← hcheck.workingDirectory]
    exact .asks
  | asks =>
    obtain ⟨hr, -, called, root, -, -, hdeed, rfl⟩ := hturn.of_begins
    exact .inl ⟨_, hdeed.switch.self, .quotes ⟨m, List.mem_cons_self, u, limit', context', hr, rfl⟩ Loop.quotes_request⟩
  | quotes hn hquotes =>
    rcases hturn.quotes hquotes with ⟨th', hth', hquotes'⟩ | ⟨o, rfl, hanswers⟩
    · exact .inl ⟨th', hth', .quotes hn.cons hquotes'⟩
    · have hgenuine := (hcheck.genuine.threads hth hroot).given
      obtain ⟨rfl, -, called, root, -, -, hdeed, rfl⟩ := hturn.of_resumes
      exact .inl ⟨_, hdeed.switch.self, .of_answered hn.cons
        (fun v hv => (hgenuine v (by rw [hv]) rfl).mono (hmoves.received hm)) hanswers⟩
  | reads hfound hstack htop =>
    have hfound' := hfound.step hm hmoves
    cases hturn with
    | rests _ _ hth' => exact .inl ⟨_, hth', .reads hfound' hstack htop⟩
    | awakes how switch =>
      cases how with
      | begins => cases hstack
      | dropped => cases hstack
      | resumes => exact .inl ⟨_, switch.self, .reads hfound' hstack fun r h => by cases h⟩
      | interrupted => exact .inl ⟨_, switch.self, .reads hfound' hstack fun r h => by cases h⟩
    | ends => cases hstack
    | begins => exact absurd rfl (htop _)
    | resumes runs serves gets how deed =>
      cases hstack
      refine .inl ⟨_, deed.switch.self, ?_⟩
      simp only [Loop.resume, Loop.sourceResumed]
      split
      · exact .ends fun v hv => ⟨_, (Outcome.value.inj hv).symm, rfl, hfound'⟩
      · next hne => exact .ends fun v hv => absurd hv (hne v)
  | ends h =>
    refine .inr ⟨_, hturn.of_ends, fun v hv => ?_⟩
    obtain ⟨r, hrecord, hfile, hfound⟩ := h v hv
    exact ⟨r, hrecord, hfile, hfound.step hm hmoves⟩

/-- **What the task that checks a file ends with was found.** -/
theorem IsCheck.found (h : IsCheck s files context limit (m :: past)) (hroot : m.routine? u = some (.checkFile file context' limit'))
    {v : Value} (ho : m.taskOutcome? u = some (.value v)) :
    ∃ r, v = .record r ∧ r.file = file ∧
      IsFound file (Path.absolute s.tree.workingDirectory file) r.diagnostics m past := by
  have hfollow := h.follow (P := Search file (Path.absolute s.tree.workingDirectory file) context' limit')
    (Q := fun m past o => ∀ v, o = .value v → ∃ r, v = .record r ∧ r.file = file ∧
      IsFound file (Path.absolute s.tree.workingDirectory file) r.diagnostics m past) .fresh
    (fun hcheck hm _ hmoves hth hroot hturn hp => hp.step hcheck rfl hm hmoves hth hroot hturn)
    (fun {_ _ m m' past o} _ hm _ hmoves _ hq v hv => ?_) hroot
  · rcases hfollow with ⟨th, hth, -⟩ | ⟨o, ho', hq⟩
    · obtain ⟨role, hm⟩ := h.holds
      cases (hm.fits.tidy.sound.taskOutcome?_of_thread? hth).symm.trans ho
    · cases ho'.symm.trans ho
      exact hq v rfl
  · obtain ⟨r, hrecord, hfile, hfound⟩ := hq v hv
    exact ⟨r, hrecord, hfile, hfound.step hm hmoves⟩

end DiagnosticsClient
