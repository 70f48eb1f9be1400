import DiagnosticsClient.CommandLine.Run
import DiagnosticsClient.Proofs.Session.Gathering
/-
What the status of the command says.

When its arguments ask for a check of files, its status is 0 or 1. It is 0 only if
the check ended with records of which none has an error (`status_concluded`), and
then each file was checked, and answered for (`IsCheck.cleared`). So whatever the
server does, the status 0 vouches for each file (`status_vouches`).

A response that reports a failure and carries no body passes for one without
diagnostics: it is not told from a clean one by its `success`
(`status_passes_refusal`).
-/
namespace DiagnosticsClient

open Async Async.Machine

/-- The loop that a check comes to when its children do what their script says. -/
def Surroundings.last (s : Surroundings) (fuel : Nat) (files : List Text) (context : Context) (limit : Option Seconds) : Loop :=
  (s.loop files context limit).runTask Loop.program fuel 0 fuel

/-- The arguments ask for a check of these files. -/
def Invocation.Accepts (i : Invocation) (o : Options) (files : List Text) : Prop :=
  ∃ sorted, Sorted.ofArguments i.arguments = .ok sorted ∧ sorted.has .help = false ∧
    Options.ofSorted i.tree sorted = .ok o ∧ uniqueFiles (o.files.map .str) = .ok files

/-- A response has diagnostics, and none of them is an error. -/
def Response.IsClean (response : Response) : Prop :=
  ∃ diagnostics, (Message.response response).diagnostics = .ok diagnostics ∧ diagnostics.any Diagnostic.isError = false

/-- Each file has a task of the check that ended with a record. It asked for the diagnostics of the file with a number
that no other file has, and a response to that request was received that passes. -/
def Cleared (s : Surroundings) (files : List Text) (context : Context) (limit : Option Seconds) (passes : Response → Prop)
    (m : Loop) (past : List Loop) : Prop :=
  ∃ number : Text → Nat, (∀ file ∈ files, ∀ file' ∈ files, number file = number file' → file = file') ∧ ∀ file ∈ files,
    (∃ t r, m.routine? t = some (.checkFile file context limit) ∧ m.taskOutcome? t = some (.value (.record r))) ∧
    IsAsked file (Path.absolute s.tree.workingDirectory file) (number file) past ∧
    ∃ response, .response response ∈ m.state.received ∧
      response.answers (.semanticDiagnostics (number file) (.str (Path.absolute s.tree.workingDirectory file))) = true ∧
      passes response

/-- What the status 0 stands for: the check ended with records, none of which has an error, and the files are cleared;
by responses that report success, if those that report a failure are told by what they carry. -/
structure Vouched (s : Surroundings) (files : List Text) (context : Context) (limit : Option Seconds) (m : Loop)
    (past : List Loop) : Prop where
  ended : ∃ records, m.taskOutcome? 0 = some (.value (.records records)) ∧ records.any Record.hasErrors = false
  cleared : Cleared s files context limit Response.IsClean m past
  success : (∀ response, .response response ∈ m.state.received → response.success = false → ¬ response.IsClean) →
    Cleared s files context limit (fun response => response.success = true ∧ response.IsClean) m past

variable {i : Invocation} {o : Options} {s : Surroundings} {files : List Text} {context : Context} {limit : Option Seconds}
  {m : Loop} {past : List Loop} {session : State} {err : Text} {records : List Record} {ending : Ending} {settings : Settings}
  {passes passes' : Response → Prop}

/-! ## The status -/

namespace Invocation

/-- Errors in what is reported make the status 1, whatever becomes of the report. -/
theorem status_reported (i : Invocation) (o : Options) (session : State) (err : Text) (records : List Record) :
    (i.reported o session err records).status ≤ 1 ∧
      ((i.reported o session err records).status = 0 → records.any Record.hasErrors = false) := by
  have hstatus : (if records.any Record.hasErrors then 1 else 0) ≤ 1 ∧
      ((if records.any Record.hasErrors then 1 else 0) = 0 → records.any Record.hasErrors = false) := by
    cases records.any Record.hasErrors <;> simp
  have hfailed : (1 : Nat) ≤ 1 ∧ ((1 : Nat) = 0 → records.any Record.hasErrors = false) := ⟨Nat.le_refl _, fun h => by cases h⟩
  unfold reported
  split
  · exact hfailed
  · dsimp only
    split
    · exact hstatus
    · split
      · exact hfailed
      · exact hstatus

/-- Only records without errors make the status 0. -/
theorem status_concluded (i : Invocation) (o : Options) (session : State) (ending : Ending) :
    (i.concluded o session ending).status ≤ 1 ∧ ((i.concluded o session ending).status = 0 →
      ∃ records, ending = .value (.records records) ∧ records.any Record.hasErrors = false) := by
  unfold concluded
  dsimp only
  split
  · next records =>
    obtain ⟨hle, hzero⟩ := i.status_reported o session (session.notes.flatMap (noteLine o.verbose)) records
    exact ⟨hle, fun h => ⟨records, rfl, hzero h⟩⟩
  · exact ⟨Nat.le_refl _, fun h => by cases h⟩
  · exact ⟨Nat.le_refl _, fun h => by cases h⟩

end Invocation

/-! ## What it stands for -/

theorem Cleared.mono (h : Cleared s files context limit passes m past)
    (hpasses : ∀ response, .response response ∈ m.state.received → passes response → passes' response) :
    Cleared s files context limit passes' m past := by
  obtain ⟨number, hdistinct, hfiles⟩ := h
  refine ⟨number, hdistinct, fun file hfile => ?_⟩
  obtain ⟨hchecked, hasked, response, hreceived, hanswers, hresponse⟩ := hfiles file hfile
  exact ⟨hchecked, hasked, response, hreceived, hanswers, hpasses response hreceived hresponse⟩

/-- **Records without errors clear the files.** -/
theorem IsCheck.cleared (h : IsCheck s files context limit (m :: past))
    (ho : m.taskOutcome? 0 = some (.value (.records records))) (hclean : records.any Record.hasErrors = false) :
    Cleared s files context limit Response.IsClean m past := by
  obtain ⟨_, ⟨⟩, hfiles⟩ := h.concluded ho _ rfl
  have hfound : ∀ file, ∃ n, file ∈ files →
      (∃ t r, m.routine? t = some (.checkFile file context limit) ∧ m.taskOutcome? t = some (.value (.record r))) ∧
      IsAsked file (Path.absolute s.tree.workingDirectory file) n past ∧ ∃ response, .response response ∈ m.state.received ∧
        response.answers (.semanticDiagnostics n (.str (Path.absolute s.tree.workingDirectory file))) = true ∧
        response.IsClean := by
    intro file
    by_cases hfile : file ∈ files
    · obtain ⟨t, r, hroutine, hended, ⟨n, response, hasked, hreceived, hanswers, hdiagnostics⟩, hkept⟩ := hfiles file hfile
      refine ⟨n, fun _ => ⟨⟨t, r, hroutine, hended⟩, hasked, response, hreceived, hanswers, _, hdiagnostics, ?_⟩⟩
      rcases hkept with hr | hnil
      · simpa [Record.hasErrors] using List.any_eq_false.mp hclean r hr
      · rw [hnil, List.any_nil]
    · exact ⟨0, fun hmem => absurd hmem hfile⟩
  choose number hnumber using hfound
  refine ⟨number, fun file hfile file' hfile' heq => ?_, hnumber⟩
  exact h.isAsked_inj (hnumber file hfile).2.1 (heq ▸ (hnumber file' hfile').2.1)

theorem IsCheck.vouched (h : IsCheck s files context limit (m :: past))
    (ho : m.taskOutcome? 0 = some (.value (.records records))) (hclean : records.any Record.hasErrors = false) :
    Vouched s files context limit m past := by
  refine ⟨⟨records, ho, hclean⟩, h.cleared ho hclean, fun htold => (h.cleared ho hclean).mono fun response hreceived hpass => ?_⟩
  refine ⟨?_, hpass⟩
  cases hsuccess : response.success with
  | true => rfl
  | false => exact absurd hpass (htold response hreceived hsuccess)

theorem Surroundings.check_ending (s : Surroundings) (fuel : Nat) (files : List Text) (context : Context) (limit : Option Seconds) :
    (s.check fuel files context limit).2 = ((s.last fuel files context limit).taskOutcome? 0).getD .cancelled := rfl

theorem Surroundings.isCheck_last (s : Surroundings) (fuel : Nat) (files : List Text) (context : Context)
    (limit : Option Seconds) : ∃ past, IsCheck s files context limit (s.last fuel files context limit :: past) :=
  IsCheck.new.runTask fuel 0 fuel

namespace Invocation

/-- A check gives its verdict. -/
theorem status_checked (i : Invocation) (fuel : Nat) (o : Options) (files : List Text) (settings : Settings) :
    (i.checked fuel o files settings).status ≤ 1 ∧ ((i.checked fuel o files settings).status = 0 →
      ∃ past, IsCheck (i.surroundings settings) files o.context (o.limit.map .real)
          ((i.surroundings settings).last fuel files o.context (o.limit.map .real) :: past) ∧
        Vouched (i.surroundings settings) files o.context (o.limit.map .real)
          ((i.surroundings settings).last fuel files o.context (o.limit.map .real)) past) := by
  have hending := (i.surroundings settings).check_ending fuel files o.context (o.limit.map .real)
  obtain ⟨past, hcheck⟩ := (i.surroundings settings).isCheck_last fuel files o.context (o.limit.map .real)
  unfold checked
  generalize (i.surroundings settings).check fuel files o.context (o.limit.map .real) = done at hending
  obtain ⟨session, ending⟩ := done
  obtain ⟨hle, hzero⟩ := i.status_concluded o session ending
  refine ⟨hle, fun h => ⟨past, hcheck, ?_⟩⟩
  obtain ⟨records, rfl, hclean⟩ := hzero h
  refine hcheck.vouched ?_ hclean
  generalize Machine.taskOutcome? _ 0 = outcome at hending
  cases outcome with
  | none => cases hending
  | some o => exact congrArg some hending.symm

/-- Accepted arguments lead to a check, or the settings of the server cannot be found. -/
theorem perform_of_accepts (h : i.Accepts o files) (fuel : Nat) :
    (i.perform fuel).status = 1 ∨ ∃ settings,
      Settings.ofEnvironment i.tree i.environment o.script o.verbose none = .ok settings ∧
        i.perform fuel = i.checked fuel o files settings := by
  obtain ⟨sorted, hsorted, hhelp, hoptions, hfiles⟩ := h
  unfold perform
  rw [hsorted]
  dsimp only
  rw [hhelp, hoptions]
  simp only [Bool.false_eq_true, if_false]
  rw [hfiles]
  dsimp only
  cases Settings.ofEnvironment i.tree i.environment o.script o.verbose none with
  | ok settings => exact .inr ⟨settings, rfl, rfl⟩
  | error f => cases f <;> exact .inl rfl

/-- **The status vouches for each file.** When the arguments ask for a check of files the status of the command is 0 or
1, and 0 only if the files are vouched for: in the run that the script of the children makes, and in every run of a
check, whatever its children do and whenever they do it. -/
theorem status_vouches (i : Invocation) (o : Options) (files : List Text) (h : i.Accepts o files) :
    (∀ fuel, (i.run fuel).status ≤ 1 ∧ ((i.run fuel).status = 0 → ∃ settings past,
      Settings.ofEnvironment i.tree i.environment o.script o.verbose none = .ok settings ∧
      IsCheck (i.surroundings settings) files o.context (o.limit.map .real)
        ((i.surroundings settings).last fuel files o.context (o.limit.map .real) :: past) ∧
      Vouched (i.surroundings settings) files o.context (o.limit.map .real)
        ((i.surroundings settings).last fuel files o.context (o.limit.map .real)) past)) ∧
    ∀ settings m past ending session,
      IsCheck (i.surroundings settings) files o.context (o.limit.map .real) (m :: past) →
      m.taskOutcome? 0 = some ending →
        (i.concluded o session ending).status ≤ 1 ∧ ((i.concluded o session ending).status = 0 →
          Vouched (i.surroundings settings) files o.context (o.limit.map .real) m past) := by
  refine ⟨fun fuel => ?_, fun settings m past ending session hcheck ho => ?_⟩
  · show (i.perform fuel).status ≤ 1 ∧ ((i.perform fuel).status = 0 → _)
    rcases i.perform_of_accepts h fuel with hone | ⟨settings, hsettings, hperform⟩
    · exact ⟨hone.le, fun hzero => by cases hone.symm.trans hzero⟩
    · rw [hperform]
      obtain ⟨hle, hzero⟩ := i.status_checked fuel o files settings
      refine ⟨hle, fun hstatus => ?_⟩
      obtain ⟨past, hcheck, hvouched⟩ := hzero hstatus
      exact ⟨settings, past, hsettings, hcheck, hvouched⟩
  · obtain ⟨hle, hzero⟩ := i.status_concluded o session ending
    refine ⟨hle, fun hstatus => ?_⟩
    obtain ⟨records, rfl, hclean⟩ := hzero hstatus
    exact hcheck.vouched ho hclean

/-- One file, and a server with one reply to the request for its diagnostics. -/
def ofReply (reply : Reply) : Invocation where
  arguments := [lit "a.ts"]
  environment := [(Settings.scriptVariable, lit "tsserver.js")]
  script := some { replies := [(lit "/a.ts", reply)] }

theorem accepts_ofReply (reply : Reply) : (ofReply reply).Accepts { files := [lit "a.ts"] } [lit "a.ts"] :=
  ⟨{ operands := [lit "a.ts"] }, by rfl, by rfl, by rfl, by rfl⟩

/-- A server that finds nothing is vouched for. -/
theorem status_vouches_when_clean : (ofReply (.body (.arr []))).Accepts { files := [lit "a.ts"] } [lit "a.ts"] ∧
    ((ofReply (.body (.arr []))).run 20).status = 0 ∧
    ∃ settings past, Vouched ((ofReply (.body (.arr []))).surroundings settings) [lit "a.ts"] {} none
      (((ofReply (.body (.arr []))).surroundings settings).last 20 [lit "a.ts"] {} none) past := by
  have haccepts := accepts_ofReply (.body (.arr []))
  have hzero : ((ofReply (.body (.arr []))).run 20).status = 0 := by decide +kernel
  obtain ⟨settings, past, -, -, hvouched⟩ := ((status_vouches _ _ _ haccepts).1 20).2 hzero
  exact ⟨haccepts, hzero, settings, past, hvouched⟩

/-- A response that reports a failure, and has no body. -/
def refusal : Bytes :=
  asciiBytes ("Content-Length: 129\n\n" ++
    "\x7b\"seq\":0,\"type\":\"response\",\"command\":\"semanticDiagnosticsSync\",\"request_seq\":1,\"success\":false," ++
    "\"message\":\"No content available.\"\x7d")

/-- A refused file passes: the status is 0, though no response that reports success was received. -/
theorem status_passes_refusal : (ofReply (.raw refusal)).Accepts { files := [lit "a.ts"] } [lit "a.ts"] ∧
    ((ofReply (.raw refusal)).run 20).status = 0 ∧
    ((ofReply (.raw refusal)).run 20).session.received.all (fun
      | .response r => r.answers (.semanticDiagnostics 1 (.str (lit "/a.ts"))) && !r.success
      | _ => false) = true ∧ ((ofReply (.raw refusal)).run 20).session.received.length = 1 :=
  ⟨accepts_ofReply _, by decide +kernel, by decide +kernel, by decide +kernel⟩

end Invocation

end DiagnosticsClient
