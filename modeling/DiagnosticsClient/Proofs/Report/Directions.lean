import DiagnosticsClient.Proofs.File.Ways
import DiagnosticsClient.Proofs.Report.Searches
import DiagnosticsClient.Report.IssueFile
import DiagnosticsClient.Session.Checking
/-
Where the paths of issues lead.

A check asks the server about the absolute form of a file's name, and an issue names the
way to it from the project's directory. The way leads from there to just what the server
was asked about (`paths_lead_back`), but not from behind one slash to behind two: the
working directory may have two in front when the other of the two names has one
(`paths_led_astray`).
-/
namespace DiagnosticsClient

namespace IssueFile

open Path Async

variable {tree : FileTree} {environment : Environment} {project : Option Text} {records : List Record} {issues : List Issue}

/-- Where one is who goes from a directory along the path of an issue. -/
def destination (workingDirectory directory : Text) (i : Issue) : Text :=
  normalize (join (absolute workingDirectory directory) i.path)

/-- The issues of a report, in order, have the ways to the files of its diagnostics for paths. -/
theorem forall₂_path (h : IssueFile.issues tree environment project records = .ok issues) :
    List.Forall₂ (fun file i => i.path = relative tree.workingDirectory (projectDirectory tree environment project) file)
      (records.flatMap fun r => r.diagnostics.map fun _ => r.file) issues := by
  have hfiles : (records.flatMap fun r => r.diagnostics.map fun _ => r.file).map
        (relative tree.workingDirectory (projectDirectory tree environment project)) =
      (Issue.entriesIn tree.workingDirectory (projectDirectory tree environment project) records).map Prod.fst := by
    simp [Issue.entriesIn, List.map_flatMap, Function.comp_def]
  have hall : List.Forall₂ (fun path i => i.path = path)
      ((Issue.entriesIn tree.workingDirectory (projectDirectory tree environment project) records).map Prod.fst) issues :=
    List.forall₂_map_left_iff.mpr ((Issue.ofRecords_forall₂ h).imp fun p i hi => by rw [hi]; rfl)
  exact List.forall₂_map_left_iff.mp (hfiles ▸ hall)

/-- **The path of an issue leads back to the file that was checked.** It is never absolute. Seen from the project's directory
it is in normal form what the server was asked about, unless the working directory starts with just two slashes and only one
of the two, the file and the project's directory, is seen from it: provided that neither of these is given with just two
slashes in front. -/
theorem paths_lead_back (hw : isAbsolute tree.workingDirectory = true)
    (hproject : ¬ IsDoubled (projectDirectory tree environment project))
    (h : IssueFile.issues tree environment project records = .ok issues) :
    List.Forall₂
      (fun file i => isAbsolute i.path = false ∧
        (¬ IsDoubled file →
          ((IsDoubled tree.workingDirectory → isAbsolute file = isAbsolute (projectDirectory tree environment project)) ↔
            ∀ (m : Loop) context limit, m.state.workingDirectory = tree.workingDirectory →
              (m.checkFile file context limit).2 =
                .call (.request (.str (destination tree.workingDirectory (projectDirectory tree environment project) i)) limit)
                  (.answered file context))))
      (records.flatMap fun r => r.diagnostics.map fun _ => r.file) issues := by
  refine (forall₂_path h).imp fun file i hpath => ?_
  refine ⟨hpath ▸ isAbsolute_relative hw _ file, fun hfile => ?_⟩
  rw [← rootOf_absolute_eq_iff hw hproject hfile, ← normalize_join_relative_eq_iff hw, ← hpath]
  constructor
  · intro hback m context limit hm
    rw [destination, hback, ← hm]
    rfl
  · intro hasked
    have hcall := hasked { state := { workingDirectory := tree.workingDirectory } } {} none rfl
    simp only [Loop.checkFile, Action.call.injEq, Routine.request.injEq, Json.str.injEq] at hcall
    exact hcall.1.1.symm

/-- A report with one diagnostic in one file. -/
def recordsOf (file : Text) : List Record := [{ file, diagnostics := [Issue.diagnosticOf (lit "x")] }]

/-- It has one issue, with the way to the file. -/
theorem exists_issue_recordsOf {file : Text} (hw : ∀ c ∈ tree.workingDirectory, Charset.utf8.encodes c = true)
    (hfile : file ≠ [] ∧ ∀ c ∈ file, Charset.utf8.encodes c = true) :
    ∃ i, IssueFile.issues tree environment project (recordsOf file) = .ok [i] ∧
      i.path = relative tree.workingDirectory (projectDirectory tree environment project) file := by
  have hrecords : ∀ r ∈ recordsOf file, r.file ≠ [] ∧ (∀ c ∈ r.file, Charset.utf8.encodes c = true) ∧
      ∀ d ∈ r.diagnostics, ∀ c ∈ d.text, Charset.utf8.encodes c = true :=
    List.forall_mem_singleton.mpr ⟨hfile.1, hfile.2, fun d hd => by rw [List.mem_singleton.mp hd]; decide⟩
  obtain ⟨issues, hissues⟩ : ∃ issues, IssueFile.issues tree environment project (recordsOf file) = .ok issues :=
    Issue.exists_ofRecords_of_encodes hw hrecords []
  have hpaths : List.Forall₂ _ [file] issues := forall₂_path hissues
  obtain ⟨i, rest, hi, hrest, rfl⟩ := List.forall₂_cons_left_iff.mp hpaths
  cases hrest
  exact ⟨i, hissues, hi⟩

/-- From a project's directory beside the working directory, to a file above it, the way climbs twice. -/
theorem paths_lead_back_of_climbing :
    let tree : FileTree := { workingDirectory := lit "/w/x" }
    let project := lit "../p/./q//"
    let file := lit "sub/../../a.ts"
    isAbsolute tree.workingDirectory = true ∧ ¬ IsDoubled (projectDirectory tree [] (some project)) ∧ ¬ IsDoubled file ∧
    ∃ i, IssueFile.issues tree [] (some project) (recordsOf file) = .ok [i] ∧ i.path = lit "../../a.ts" ∧
      ∀ (m : Loop) context limit, m.state.workingDirectory = tree.workingDirectory →
        (m.checkFile file context limit).2 =
          .call (.request (.str (destination tree.workingDirectory project i)) limit) (.answered file context) := by
  intro tree project file
  have hw : isAbsolute tree.workingDirectory = true := by decide
  have hproject : ¬ IsDoubled (projectDirectory tree [] (some project)) := by decide
  have hfile : ¬ IsDoubled file := by decide
  obtain ⟨i, hissues, hpath⟩ : ∃ i, IssueFile.issues tree [] (some project) (recordsOf file) = .ok [i] ∧ _ :=
    exists_issue_recordsOf (by decide) (by decide)
  obtain ⟨j, rest, hback, -, heq⟩ := List.forall₂_cons_left_iff.mp (paths_lead_back hw hproject hissues)
  cases heq
  exact ⟨hw, hproject, hfile, i, hissues, hpath.trans (by decide +kernel), (hback.2 hfile).mp fun h => absurd h (by decide)⟩

/-- A working directory with two slashes in front, and a project's directory with one: the path of the issue leads to a place
behind one slash, and the server was asked about one behind two. -/
theorem paths_led_astray :
    let tree : FileTree := { workingDirectory := lit "//x" }
    let project := lit "/p"
    let file := lit "a"
    isAbsolute tree.workingDirectory = true ∧ normalize tree.workingDirectory = tree.workingDirectory ∧
    ¬ IsDoubled (projectDirectory tree [] (some project)) ∧ file ≠ [] ∧ ¬ IsDoubled file ∧
    ∃ i, IssueFile.issues tree [] (some project) (recordsOf file) = .ok [i] ∧ i.path = lit "../x/a" ∧
      destination tree.workingDirectory project i = lit "/x/a" ∧
      ∀ (m : Loop) context limit, m.state.workingDirectory = tree.workingDirectory →
        (m.checkFile file context limit).2 = .call (.request (.str (lit "//x/a")) limit) (.answered file context) := by
  intro tree project file
  obtain ⟨i, hissues, hpath⟩ : ∃ i, IssueFile.issues tree [] (some project) (recordsOf file) = .ok [i] ∧ _ :=
    exists_issue_recordsOf (by decide) (by decide)
  have hway : i.path = lit "../x/a" := hpath.trans (by decide +kernel)
  refine ⟨by decide, by decide +kernel, by decide, by decide, by decide, i, hissues, hway, ?_, fun m context limit hm => ?_⟩
  · rw [destination, hway]
    decide +kernel
  · have habsolute : absolute m.state.workingDirectory file = lit "//x/a" := by
      rw [hm]
      decide +kernel
    rw [Loop.checkFile, habsolute]

end IssueFile

end DiagnosticsClient
