import DiagnosticsClient.CommandLine.Run
import DiagnosticsClient.Proofs.Report.Searches
import Mathlib.Algebra.GroupWithZero.Nat
import Mathlib.Tactic.SplitIfs
/-
The totals of a report, its issues and the status of the command.

The totals are counted one diagnostic at a time. What comes of it is each category once, where it appears first, with the
number of its diagnostics (`counters_eq`). The list of issues and the status look at the same diagnostics on their own;
all three agree on how many there are, and on whether one is an error (`totals_agree`).
-/
namespace DiagnosticsClient

namespace Console

/-- The categories of the diagnostics of some records, in order. -/
def categoriesIn (rs : List Record) : List Text := (rs.flatMap (·.diagnostics)).map (·.category)

variable {keys : List Text} {g : Text → Nat} {c : Text} {rs : List Record}

/-! ## Counting -/

theorem count_of_mem (hnodup : keys.Nodup) (h : c ∈ keys) :
    count c (keys.map fun k => (k, g k)) = keys.map fun k => (k, if k = c then g k + 1 else g k) := by
  induction keys with
  | nil => cases h
  | cons k keys ih =>
    rw [List.nodup_cons] at hnodup
    simp only [List.map_cons, count]
    by_cases hk : k = c
    · subst hk
      have hrest : ∀ j ∈ keys, j ≠ k := fun j hj heq => hnodup.1 (heq ▸ hj)
      simp only [if_true, List.cons.injEq, true_and]
      exact List.map_congr_left fun j hj => by rw [if_neg (hrest j hj)]
    · rw [if_neg hk, if_neg hk, ih hnodup.2 ((List.mem_cons.mp h).resolve_left (Ne.symm hk))]

theorem count_of_not_mem (h : c ∉ keys) : count c (keys.map fun k => (k, g k)) = (keys.map fun k => (k, g k)) ++ [(c, 1)] := by
  induction keys with
  | nil => rfl
  | cons k keys ih =>
    rw [List.mem_cons, not_or] at h
    simp only [List.map_cons, count, if_neg (Ne.symm h.1), ih h.2, List.cons_append]

/-- A count is one more than before. -/
theorem sum_count (c : Text) (counters : List (Text × Nat)) :
    ((count c counters).map (·.2)).sum = (counters.map (·.2)).sum + 1 := by
  induction counters with
  | nil => rfl
  | cons p counters ih =>
    obtain ⟨k, n⟩ := p
    unfold count
    split
    · simp only [List.map_cons, List.sum_cons]
      omega
    · simp only [List.map_cons, List.sum_cons, ih]
      omega

theorem counters_eq_foldl (rs : List Record) :
    counters rs = (categoriesIn rs).foldl (fun counters c => count c counters) [] := by
  rw [categoriesIn, List.foldl_map, counters]

/-- A category is new the first time it is there. -/
theorem eraseDups_concat (cs : List Text) (c : Text) :
    (cs ++ [c]).eraseDups = if c ∈ cs then cs.eraseDups else cs.eraseDups ++ [c] := by
  rw [List.eraseDups_append]
  by_cases h : c ∈ cs <;> simp [List.removeAll, h, List.eraseDups_cons]

theorem nodup_eraseDups (cs : List Text) : cs.eraseDups.Nodup := by
  induction cs using List.reverseRecOn with
  | nil => exact List.nodup_nil
  | append_singleton cs c ih =>
    rw [eraseDups_concat]
    split_ifs with h
    · exact ih
    · exact List.nodup_append.mpr ⟨ih, List.nodup_singleton c, fun k hk j hj heq =>
        h (List.mem_eraseDups.mp (List.mem_singleton.mp hj ▸ heq ▸ hk))⟩

/-- **Each category is counted once**, where it appears first, with the number of its diagnostics. -/
theorem counters_eq (rs : List Record) :
    counters rs = (categoriesIn rs).eraseDups.map fun c => (c, (categoriesIn rs).count c) := by
  rw [counters_eq_foldl]
  induction categoriesIn rs using List.reverseRecOn with
  | nil => rfl
  | append_singleton cs c ih =>
    have hcount : ∀ k, (cs ++ [c]).count k = if k = c then cs.count k + 1 else cs.count k := by
      intro k
      rw [List.count_append, List.count_singleton]
      by_cases hk : k = c <;> simp [hk, Ne.symm]
    rw [List.foldl_append, ih, List.foldl_cons, List.foldl_nil, eraseDups_concat]
    simp only [hcount]
    split_ifs with h
    · exact count_of_mem (nodup_eraseDups cs) (List.mem_eraseDups.mpr h)
    · have hold : ∀ k ∈ cs.eraseDups, k ≠ c := fun k hk heq => h (List.mem_eraseDups.mp (heq ▸ hk))
      rw [count_of_not_mem fun hc => h (List.mem_eraseDups.mp hc), List.map_append, List.map_singleton, if_pos rfl,
        List.count_eq_zero.mpr h]
      exact congrArg (· ++ _) (List.map_congr_left fun k hk => by rw [if_neg (hold k hk)])

theorem sum_counters (rs : List Record) : ((counters rs).map (·.2)).sum = (rs.flatMap (·.diagnostics)).length := by
  have hlength : (categoriesIn rs).length = (rs.flatMap (·.diagnostics)).length := List.length_map _
  rw [counters_eq_foldl, ← hlength]
  induction categoriesIn rs using List.reverseRecOn with
  | nil => rfl
  | append_singleton cs c ih => rw [List.foldl_append, List.foldl_cons, List.foldl_nil, sum_count, ih, List.length_append]; rfl

theorem mem_keys_iff : c ∈ (counters rs).map (·.1) ↔ ∃ r ∈ rs, ∃ d ∈ r.diagnostics, d.category = c := by
  rw [counters_eq, List.map_map]
  simp only [categoriesIn, List.mem_map, List.mem_eraseDups, List.mem_flatMap, Function.comp_apply, exists_eq_right]
  constructor
  · rintro ⟨d, ⟨r, hr, hd⟩, hc⟩
    exact ⟨r, hr, d, hd, hc⟩
  · rintro ⟨r, hr, d, hd, hc⟩
    exact ⟨d, ⟨r, hr, hd⟩, hc⟩

end Console

namespace Issue

variable {hash : Hash} {workingDirectory directory : Text} {taken : List Text} {rs : List Record} {issues : List Issue}

/-! ## Errors among the issues -/

theorem severityOf_eq_major_iff (d : Diagnostic) : severityOf d = lit "major" ↔ d.isError = true := by
  unfold severityOf
  split_ifs with he hw
  · exact iff_of_true rfl he
  · exact iff_of_false (by decide) he
  · exact iff_of_false (by decide) he

theorem categoryOf_eq_risk_iff (d : Diagnostic) : categoryOf d = lit "Bug Risk" ↔ d.isError = true := by
  unfold categoryOf
  split_ifs with he
  · exact iff_of_true rfl he
  · exact iff_of_false (by decide) he

/-- Among the issues of a report are those of errors exactly if a record has errors. -/
theorem exists_error_iff (part : Issue → Text) (partOf : Diagnostic → Text) {value : Text}
    (h : ofRecords hash workingDirectory directory taken rs = .ok issues)
    (hpart : ∀ path fingerprint d, part (ofDiagnostic path fingerprint d) = partOf d)
    (hvalue : ∀ d, partOf d = value ↔ d.isError = true) :
    (∃ i ∈ issues, part i = value) ↔ ∃ r ∈ rs, r.hasErrors = true := by
  rw [← List.mem_map, map_ofRecords part partOf h hpart]
  simp only [List.mem_map, List.mem_flatMap, hvalue, Record.hasErrors, List.any_eq_true]
  constructor
  · rintro ⟨d, ⟨r, hr, hd⟩, he⟩
    exact ⟨r, hr, d, hd, he⟩
  · rintro ⟨r, hr, d, hd, he⟩
    exact ⟨d, ⟨r, hr, hd⟩, he⟩

end Issue

/-! ## The status -/

/-- A check whose records are reported fails exactly if one of them has errors. -/
theorem Invocation.reported_status_iff (i : Invocation) (o : Options) (session : State) (err : Text) {rs : List Record}
    (h : (i.reported o session err rs).unhandled = none) :
    (i.reported o session err rs).status = 1 ↔ ∃ r ∈ rs, r.hasErrors = true := by
  have hstatus : (if rs.any Record.hasErrors then 1 else 0) = 1 ↔ ∃ r ∈ rs, r.hasErrors = true := by
    rw [← List.any_eq_true]
    split_ifs with he
    · exact iff_of_true rfl he
    · exact iff_of_false (by decide) he
  revert h
  unfold Invocation.reported
  rcases print (Console.printed (i.inColour && !o.noColour) rs) with ⟨out, _ | failure⟩
  · rcases Settings.given? o.report with _ | output
    · exact fun _ => hstatus
    · dsimp only
      rcases IssueFile.save i.tree i.environment rs output with ⟨tree, failure | note⟩
      · exact nofun
      · exact fun _ => hstatus
  · exact nofun

/-- **The totals, the issues and the status agree.** The totals have each category of the diagnostics once, where it appears
first, with the number of its diagnostics. If the records can be reported, there are as many issues as the totals count. One of
the totals counts errors exactly if a record has errors, if an issue is a major one, if an issue is a risk of bugs, and if the
status is that of a failed check. -/
theorem Console.totals_agree (rs : List Record) :
    (counters rs).map (·.1) = (categoriesIn rs).eraseDups ∧
    (∀ total ∈ counters rs, total.2 = (categoriesIn rs).count total.1) ∧
    (lit "error" ∈ (counters rs).map (·.1) ↔ ∃ r ∈ rs, r.hasErrors = true) ∧
    (∀ tree environment project,
      (∃ issues, IssueFile.issues tree environment project rs = .ok issues) ↔ ∀ r ∈ rs,
        Issue.IsReportable tree.workingDirectory (IssueFile.projectDirectory tree environment project) r) ∧
    (∀ tree environment project issues, IssueFile.issues tree environment project rs = .ok issues →
      ((counters rs).map (·.2)).sum = issues.length ∧
      ((∃ i ∈ issues, i.severity = lit "major") ↔ ∃ r ∈ rs, r.hasErrors = true) ∧
      ((∃ i ∈ issues, i.category = lit "Bug Risk") ↔ ∃ r ∈ rs, r.hasErrors = true)) ∧
    ∀ i : Invocation, ∀ o session err, (i.reported o session err rs).unhandled = none →
      ((i.reported o session err rs).status = 1 ↔ ∃ r ∈ rs, r.hasErrors = true) := by
  refine ⟨?_, ?_, ?_, fun tree environment project => ?_, fun tree environment project issues h => ⟨?_, ?_, ?_⟩,
    fun i o session err h => i.reported_status_iff o session err h⟩
  · rw [counters_eq, List.map_map]
    exact List.map_id _
  · rw [counters_eq]
    intro total htotal
    obtain ⟨c, -, rfl⟩ := List.mem_map.mp htotal
    rfl
  · simp only [mem_keys_iff, Record.hasErrors, List.any_eq_true, Diagnostic.isError, beq_iff_eq]
  · exact ⟨fun ⟨issues, h⟩ => (Issue.ofRecords_eq_ok h).1, fun h => Issue.exists_ofRecords h []⟩
  · have hcategories := congrArg List.length (Issue.map_ofRecords Issue.category Issue.categoryOf h fun _ _ _ => rfl)
    rw [List.length_map, List.length_map] at hcategories
    exact (sum_counters rs).trans hcategories.symm
  · exact Issue.exists_error_iff Issue.severity Issue.severityOf h (fun _ _ _ => rfl) Issue.severityOf_eq_major_iff
  · exact Issue.exists_error_iff Issue.category Issue.categoryOf h (fun _ _ _ => rfl) Issue.categoryOf_eq_risk_iff

/-- Diagnostics of three categories, one of which has no name, in records that do not all have code or diagnostics. -/
def Console.mixedRecords : List Record :=
  let diagnosticOf (category : Text) : Diagnostic := { Issue.diagnosticOf (lit "x") with category }
  [{ file := lit "f", diagnostics := [diagnosticOf (lit "hint"), diagnosticOf (lit "error"), diagnosticOf (lit "hint")]
     code := [[lit "y"]] },
    { file := lit "g", diagnostics := [] }, { file := lit "h", diagnostics := [diagnosticOf []] }]

/-- Of four diagnostics and as many issues one is an error, and the check fails. -/
theorem Console.totals_agree_of_mixed :
    (counters mixedRecords).map (·.1) = [lit "hint", lit "error", []] ∧
    ∃ issues, IssueFile.issues {} [] none mixedRecords = .ok issues ∧ issues.length = 4 ∧
      (∃ i ∈ issues, i.severity = lit "major") ∧
      let i : Invocation := { arguments := [], tree := {} }
      (i.reported {} {} [] mixedRecords).unhandled = none ∧ (i.reported {} {} [] mixedRecords).status = 1 := by
  obtain ⟨hkeys, -, -, -, hissues, hstatus⟩ := totals_agree mixedRecords
  obtain ⟨issues, h⟩ : ∃ issues, IssueFile.issues {} [] none mixedRecords = .ok issues :=
    Issue.exists_ofRecords_of_encodes (by decide) (by decide) []
  have herrors : ∃ r ∈ mixedRecords, r.hasErrors = true := by decide
  obtain ⟨hsum, hmajor, -⟩ := hissues {} [] none issues h
  have hprinted : (({ arguments := [], tree := {} } : Invocation).reported {} {} [] mixedRecords).unhandled = none := by
    decide +kernel
  refine ⟨hkeys.trans (by decide +kernel), issues, h, hsum.symm.trans (by decide +kernel), hmajor.mpr herrors, hprinted, ?_⟩
  exact (hstatus _ _ _ _ hprinted).mpr herrors

end DiagnosticsClient
