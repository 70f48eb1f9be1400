import DiagnosticsClient.Proofs.File.Writing
import DiagnosticsClient.Proofs.Json.Characters
import DiagnosticsClient.Proofs.Message.Rereading
import DiagnosticsClient.Proofs.Report.Searches
import DiagnosticsClient.Proofs.Text.Utf8
import DiagnosticsClient.Report.IssueFile
/-
What is in the file of issues.

The texts of an issue come from its diagnostic, from the path of its file and from a digest, and all of these have octets. So
the list of issues is printed to a text that has octets too, and that is read as the same list (`Issue.read_listing`). The
file has these octets when it is written, and nothing is touched before the list is complete (`IssueFile.saved_exactly`).
-/
namespace DiagnosticsClient

namespace Issue

variable {hash : Hash} {workingDirectory directory : Text} {taken : List Text} {os : List Bytes} {rs : List Record}
  {i : Issue} {issues : List Issue}

/-! ## The value of an issue -/

theorem isExact_toJson (h : i.isSpelt = true) : i.toJson.isExact = true := by
  have hint : ∀ n ∈ [i.start.1, i.start.2, i.stop.1, i.stop.2], n.natAbs < 10 ^ Text.digitLimit := fun n hn =>
    (Text.length_ofNat_le_iff (by decide)).mp (of_decide_eq_true (List.all_eq_true.mp h n hn))
  simp only [List.forall_mem_cons, List.not_mem_nil] at hint
  obtain ⟨hline, hcolumn, hline', hcolumn', -⟩ := hint
  simp only [toJson, positionJson, Json.isExact, Json.fieldsExact, Json.areExact, hline, hcolumn, hline', hcolumn',
    decide_true, Bool.and_true, Bool.true_and, List.map_cons, List.map_nil]
  decide +kernel

theorem nesting_toJson (i : Issue) : i.toJson.nesting = 4 := by
  simp [toJson, positionJson, Json.nesting, Json.nestingFields, Json.nestingItems]

/-- The value of an issue tells it from any other. -/
theorem toJson_injective : Function.Injective toJson := by
  intro i j h
  cases i
  cases j
  simp only [toJson, positionJson, Json.obj.injEq, Json.arr.injEq, Json.str.injEq, Json.int.injEq, List.cons.injEq,
    Prod.mk.injEq, true_and, and_true] at h
  obtain ⟨rfl, rfl, rfl, rfl, rfl, rfl, hstart, hstop⟩ := h
  rw [Prod.ext hstart.1 hstart.2, Prod.ext hstop.1 hstop.2]

/-- Whether the texts of an issue have octets. -/
structure IsPaired (i : Issue) : Prop where
  checkName : Json.isPaired i.checkName = true
  description : Json.isPaired i.description = true
  category : Json.isPaired i.category = true
  severity : Json.isPaired i.severity = true
  fingerprint : Json.isPaired i.fingerprint = true
  path : Json.isPaired i.path = true

theorem IsPaired.isEncodable (h : i.IsPaired) : i.toJson.isEncodable = true := by
  simp only [toJson, positionJson, Json.isEncodable, Json.fieldsEncodable, Json.areEncodable, h.checkName, h.description,
    h.category, h.severity, h.fingerprint, h.path, Bool.and_true]
  decide +kernel

/-! ## The texts of an issue -/

theorem isPaired_of_isClear {t : Text} (h : t.IsClear) : Json.isPaired t = true :=
  List.all_eq_true.mpr fun c hc => by rw [(h c hc).2, Bool.not_false]

theorem isPaired_digest (octets : Bytes) : Json.isPaired (MD5.digest octets) = true := by
  refine isPaired_of_isClear fun c hc => ?_
  obtain ⟨word, -, hword⟩ := List.mem_flatMap.mp hc
  obtain ⟨o, -, ho⟩ := List.mem_flatMap.mp hword
  exact Json.isClear_hex 2 o.toNat c ho

theorem isPaired_nameOf (d : Diagnostic) : Json.isPaired (nameOf d) = true := by
  unfold nameOf
  split
  · decide
  · next n _ =>
    split_ifs
    · decide
    · exact isPaired_of_isClear (Text.isClear_append.mpr ⟨by decide, Text.isClear_ofInt n⟩)

theorem exists_freshDigest (taken : List Text) (fuel : Nat) (octets : Bytes) :
    ∃ o, freshDigest hash taken fuel octets = hash o := by
  induction fuel generalizing octets with
  | zero => exact ⟨octets, rfl⟩
  | succ fuel ih =>
    rw [freshDigest]
    split
    · exact ih _
    · exact ⟨octets, rfl⟩

/-- A fingerprint is a digest. -/
theorem exists_of_mem_fingerprints {f : Text} (h : f ∈ fingerprints hash taken os) : ∃ o, f = hash o := by
  induction os generalizing taken with
  | nil => cases h
  | cons octets os ih =>
    rcases List.mem_cons.mp h with rfl | h
    · exact exists_freshDigest taken _ octets
    · exact ih h

theorem isPaired_ofDiagnostic {path fingerprint : Text} {d : Diagnostic} (h : IsEncodable path d)
    (hprint : Json.isPaired fingerprint = true) : (ofDiagnostic path fingerprint d).IsPaired where
  checkName := isPaired_nameOf d
  description := h.2
  category := by
    dsimp only [ofDiagnostic, categoryOf]
    split <;> decide
  severity := by
    dsimp only [ofDiagnostic, severityOf]
    split_ifs <;> decide
  fingerprint := hprint
  path := h.1

/-- **The texts of the issues of a report have octets**, if all digests do. -/
theorem isPaired_of_ofRecords (h : ofRecords hash workingDirectory directory taken rs = .ok issues)
    (hhash : ∀ octets, Json.isPaired (hash octets) = true) (hi : i ∈ issues) : i.IsPaired := by
  obtain ⟨hrs, hprints⟩ := ofRecords_eq_ok h
  obtain ⟨o, ho⟩ := exists_of_mem_fingerprints (hprints ▸ List.mem_map_of_mem hi)
  obtain ⟨r, hr, d, hd, heq⟩ := exists_of_mem_ofRecords h hi
  rw [heq]
  exact isPaired_ofDiagnostic ((hrs r hr).2 d hd) (ho ▸ hhash o)

/-! ## The numbers of an issue -/

theorem isExact_of_get? {fields : Json.Fields} {name : Text} {v : Json} (hexact : (Json.obj fields).isExact = true)
    (h : fields.get? name = some v) : v.isExact = true := by
  rw [Json.isExact, Bool.and_eq_true, Json.fieldsExact_iff] at hexact
  exact hexact.2 _ (Json.Fields.mem_of_get? h)

theorem natAbs_lt_of_required {fields : Json.Fields} {name : Text} {n : Int} (hexact : (Json.obj fields).isExact = true)
    (h : required fields name WholeNumber.check = .ok n) : n.natAbs < 10 ^ Text.digitLimit := by
  obtain ⟨v, hv, hcheck⟩ := required_eq_ok_iff.mp h
  exact WholeNumber.natAbs_lt_of_check (isExact_of_get? hexact hv) hcheck

theorem natAbs_lt_of_place {v : Json} {l : Location} (hexact : v.isExact = true) (h : Location.check v = .ok l) :
    l.line.natAbs < 10 ^ Text.digitLimit ∧ l.offset.natAbs < 10 ^ Text.digitLimit := by
  cases v with
  | obj fields =>
    obtain ⟨-, hline, hoffset, -⟩ := Location.check_obj_eq_ok_iff.mp h
    exact ⟨natAbs_lt_of_required hexact hline, natAbs_lt_of_required hexact hoffset⟩
  | null | bool | int | float | str | arr => cases h

/-- The numbers of an issue are within the limit, if its diagnostic was read from a value that a text can stand for. -/
theorem isSpelt_of_parse {v : Json} {d : Diagnostic} (hexact : v.isExact = true) (h : Diagnostic.parse v = .ok d)
    (path fingerprint : Text) : (ofDiagnostic path fingerprint d).isSpelt = true := by
  obtain ⟨fields, rfl, -, hcheck⟩ := Diagnostic.parse_eq_ok_iff.mp h
  obtain ⟨-, -, -, -, hstart, hstop, -⟩ := Diagnostic.check_obj_eq_ok_iff.mp hcheck
  obtain ⟨v, hv, hplace⟩ := required_eq_ok_iff.mp hstart
  obtain ⟨w, hw, hplace'⟩ := required_eq_ok_iff.mp hstop
  obtain ⟨hline, hcolumn⟩ := natAbs_lt_of_place (isExact_of_get? hexact hv) hplace
  obtain ⟨hline', hcolumn'⟩ := natAbs_lt_of_place (isExact_of_get? hexact hw) hplace'
  refine List.all_eq_true.mpr fun n hn => decide_eq_true ((Text.length_ofNat_le_iff (by decide)).mpr ?_)
  have hall : ∀ n ∈ [d.start.line, d.start.offset, d.stop.line, d.stop.offset], n.natAbs < 10 ^ Text.digitLimit := by
    simp only [List.forall_mem_cons]
    exact ⟨hline, hcolumn, hline', hcolumn', List.forall_mem_nil _⟩
  exact hall n hn

/-- The numbers of the issues are within the limit, if all diagnostics were read from such values. -/
theorem all_isSpelt_of_parse (h : ofRecords hash workingDirectory directory taken rs = .ok issues)
    (hread : ∀ r ∈ rs, ∀ d ∈ r.diagnostics, ∃ v : Json, v.isExact = true ∧ Diagnostic.parse v = .ok d) :
    issues.all isSpelt = true := by
  refine List.all_eq_true.mpr fun i hi => ?_
  obtain ⟨r, hr, d, hd, heq⟩ := exists_of_mem_ofRecords h hi
  obtain ⟨v, hexact, hv⟩ := hread r hr d hd
  rw [heq]
  exact isSpelt_of_parse hexact hv _ _

/-! ## The text of the list -/

theorem shares_indented : Json.Layout.indented.Shares fun c => Charset.utf8.encodes c = true where
  clear t h c hc := by
    rw [Charset.encodes, (h c hc).2, Bool.not_false]
  comma := by decide
  colon := by decide
  newline level c hc := by
    rcases List.mem_cons.mp hc with rfl | hc
    · decide
    · rw [List.eq_of_mem_replicate hc]
      decide

/-- **The text of a list of issues has octets, and is read as that list.** -/
theorem read_listing (hspelt : issues.all isSpelt = true) (hpaired : ∀ i ∈ issues, i.IsPaired) :
    ∃ text octets, listing issues = .ok text ∧ Charset.utf8.encode text = .ok octets ∧
      Json.parse text = .ok (.arr (issues.map toJson)) := by
  have hexact : (Json.arr (issues.map toJson)).isExact = true := by
    rw [Json.isExact, Json.areExact_iff]
    intro v hv
    obtain ⟨i, hi, rfl⟩ := List.mem_map.mp hv
    exact isExact_toJson (List.all_eq_true.mp hspelt i hi)
  have hencodable : (Json.arr (issues.map toJson)).isEncodable = true := by
    rw [Json.isEncodable, Json.areEncodable_iff]
    intro v hv
    obtain ⟨i, hi, rfl⟩ := List.mem_map.mp hv
    exact (hpaired i hi).isEncodable
  have hdepth : (Json.arr (issues.map toJson)).nesting ≤ Json.depthLimit := by
    have hitems : Json.nestingItems (issues.map toJson) ≤ 4 := Json.nestingItems_le_iff.mpr fun v hv => by
      obtain ⟨i, -, rfl⟩ := List.mem_map.mp hv
      exact (nesting_toJson i).le
    rw [Json.nesting]
    exact (Nat.succ_le_succ hitems).trans (by decide)
  have hread := Json.parseWithin_render Json.plainNumbers Json.Layout.spaced_indented hexact hdepth (List.forall_mem_nil _)
  rw [List.append_nil] at hread
  refine ⟨_, _, if_pos hspelt, Charset.encode_eq_ok_iff.mpr ⟨List.all_eq_true.mpr ?_, rfl⟩, hread⟩
  exact Json.forall_renderAt Json.plainNumbers shares_indented 0 _ hexact hencodable

end Issue

namespace IssueFile

variable {tree : FileTree} {environment : Environment} {records : List Record} {output : Text} {is : List Issue}

/-- A complete list is written if the directories above the file can be made, the list has a text, and that can be written. -/
theorem save_eq_ok_iff (h : issues tree environment none records = .ok is) {left : FileTree} {note : Note} :
    save tree environment records output = (left, .ok note) ↔ ∃ made text,
      tree.leaveDirectories (Path.parent (Path.tidy output)) = (made, none) ∧ Issue.listing is = .ok text ∧
      made.leaveText (Path.tidy output) text = (left, none) ∧
      note = ⟨.info, lit "Wrote " ++ Text.ofNat is.length ++ lit " issue(s) to " ++ Path.tidy output⟩ := by
  rw [save, h]
  dsimp only
  rcases tree.leaveDirectories (Path.parent (Path.tidy output)) with ⟨made, _ | failure⟩
  · rcases Issue.listing is with fault | text
    · simp
    · rcases hleft : made.leaveText (Path.tidy output) text with ⟨written, _ | failure⟩ <;> simp [hleft, eq_comm]
  · simp

/-- A complete list is written wherever a file can be. -/
theorem exists_save_iff (h : issues tree environment none records = .ok is) :
    (∃ note, (save tree environment records output).2 = .ok note) ↔
      is.all Issue.isSpelt = true ∧ tree.IsWritable (Path.tidy output) := by
  constructor
  · rintro ⟨note, hnote⟩
    obtain ⟨made, text, hmade, htext, hwritten, -⟩ := (save_eq_ok_iff h).mp (Prod.ext rfl hnote)
    obtain ⟨place, octets, hplace, -, -⟩ := FileTree.leaveText_eq_none_iff.mp hwritten
    refine ⟨?_, made, place, hmade, hplace⟩
    by_contra hlong
    rw [Issue.listing, if_neg hlong] at htext
    cases htext
  · rintro ⟨hspelt, made, place, hmade, hplace⟩
    obtain ⟨text, octets, htext, hoctets, -⟩ :=
      Issue.read_listing hspelt fun i hi => Issue.isPaired_of_ofRecords h Issue.isPaired_digest hi
    have hwritten := FileTree.leaveText_eq_none_iff.mpr ⟨place, octets, hplace, hoctets, rfl⟩
    exact ⟨_, congrArg Prod.snd ((save_eq_ok_iff h).mpr ⟨made, text, hmade, htext, hwritten, rfl⟩)⟩

/-- **The file of issues says exactly what the issues are.** If there are no issues to be had, nothing is made or written. If
there are, they are written if their numbers are within the limit, as those of diagnostics that were read are, the directories
above the file can be made and the file can be written. Then the file has octets that decode to a text, which is read as the
list of the issues, in order and each with all that it has. -/
theorem saved_exactly (tree : FileTree) (environment : Environment) (records : List Record) (output : Text) :
    (∀ failure, issues tree environment none records = .error failure →
      save tree environment records output = (tree, .error failure)) ∧
    (∀ is, issues tree environment none records = .ok is →
      ((∀ r ∈ records, ∀ d ∈ r.diagnostics, ∃ v : Json, v.isExact = true ∧ Diagnostic.parse v = .ok d) →
        is.all Issue.isSpelt = true) ∧
      ((∃ note, (save tree environment records output).2 = .ok note) ↔
        is.all Issue.isSpelt = true ∧ tree.IsWritable (Path.tidy output)) ∧
      ∀ left note, save tree environment records output = (left, .ok note) → ∃ octets text,
        left.read (Path.tidy output) = .ok octets ∧ Charset.utf8.decode octets = .ok text ∧
        Json.parse text = .ok (.arr (is.map Issue.toJson))) ∧
    Function.Injective Issue.toJson := by
  refine ⟨fun failure h => by rw [save, h], fun is h => ⟨fun hread => Issue.all_isSpelt_of_parse h hread, exists_save_iff h,
    fun left note hsave => ?_⟩, Issue.toJson_injective⟩
  have hspelt := ((exists_save_iff h).mp ⟨note, congrArg Prod.snd hsave⟩).1
  obtain ⟨made, text, -, htext, hwritten, -⟩ := (save_eq_ok_iff h).mp hsave
  obtain ⟨text', octets, htext', hoctets, hread⟩ :=
    Issue.read_listing hspelt fun i hi => Issue.isPaired_of_ofRecords h Issue.isPaired_digest hi
  cases htext.symm.trans htext'
  obtain ⟨octets', hoctets', hfile⟩ := FileTree.read_leaveText hwritten
  cases hoctets.symm.trans hoctets'
  exact ⟨octets, text, hfile, Charset.decode_utf8_eq_ok_iff.mpr hoctets, hread⟩

/-- A quote, a backslash, a control character, a line separator and a character beyond the first plane. -/
def awkwardText : Text := [pt '"', pt '\\', .ofNat 1, .ofNat 0x2028, .ofNat 0x1F600]

/-- A message of such characters, for a file whose name has a quote. -/
def awkwardRecords : List Record := [{ file := lit "a\"b.ts", diagnostics := [Issue.diagnosticOf awkwardText] }]

/-- A message with half of a surrogate pair. -/
def halvedRecords : List Record := [{ file := lit "a.ts", diagnostics := [Issue.diagnosticOf [.ofNat 0xD800]] }]

/-- In an empty tree a file can be written in a directory that is not there yet. -/
theorem isWritable_of_empty : ({} : FileTree).IsWritable (lit "out/r.json") := by
  have hparent : Path.parent (lit "out/r.json") = lit "out" := by decide +kernel
  have hdirectory : (lit "out").splitOn Path.slash = [lit "out"] := by decide +kernel
  have hfile : (lit "out/r.json").splitOn Path.slash = [lit "out", lit "r.json"] := by decide +kernel
  have hnew : ({} : FileTree).walkPath .kept (lit "out") = .ok ⟨[lit "out"], none⟩ := by
    refine FileTree.walkPath_eq_ok_iff.mpr ⟨_, [], rfl, by decide, by decide, rfl, ?_⟩
    rw [hdirectory]
    exact FileTree.walk_ordinary ⟨by decide, by decide, by decide⟩ [] rfl
  let made : FileTree := { root := [(lit "out", .directory [])] }
  have harrival : made.walkPath .written (lit "out/r.json") = .ok ⟨[lit "out", lit "r.json"], none⟩ := by
    refine FileTree.walkPath_eq_ok_iff.mpr ⟨_, [], rfl, by decide, by decide, rfl, ?_⟩
    rw [hfile]
    refine (FileTree.walk_ordinary ⟨by decide, by decide, by decide⟩ _ rfl).trans ?_
    exact FileTree.walk_ordinary ⟨by decide, by decide, by decide⟩ [] rfl
  refine ⟨made, [lit "out", lit "r.json"], ?_, ?_⟩
  · rw [hparent]
    simp only [FileTree.leaveDirectories, FileTree.directoryLimit, FileTree.leaveDirectoriesWithin, FileTree.makeDirectory, hnew,
      bind, Except.bind]
    rfl
  · simp only [FileTree.placeToWrite, harrival, bind, Except.bind]

/-- The issues of awkward texts are written to a new directory and are read again; of half a character nothing is written. -/
theorem saved_exactly_of_awkward :
    (∃ failure, save {} [] halvedRecords (lit "out/r.json") = ({}, .error failure)) ∧
    ∃ is left note octets text, issues {} [] none awkwardRecords = .ok is ∧
      save {} [] awkwardRecords (lit "out/r.json") = (left, .ok note) ∧ left.read (lit "out/r.json") = .ok octets ∧
      Charset.utf8.decode octets = .ok text ∧ Json.parse text = .ok (.arr (is.map Issue.toJson)) ∧
      is.map Issue.description = [awkwardText] := by
  constructor
  · have hhalved : ∃ failure, issues {} [] none halvedRecords = .error failure := ⟨_, rfl⟩
    obtain ⟨failure, hfailure⟩ := hhalved
    exact ⟨failure, (saved_exactly {} [] halvedRecords (lit "out/r.json")).1 failure hfailure⟩
  · have hpath : Path.tidy (lit "out/r.json") = lit "out/r.json" := by decide +kernel
    obtain ⟨is, his⟩ : ∃ is, issues {} [] none awkwardRecords = .ok is :=
      Issue.exists_ofRecords_of_encodes (by decide) (by decide) []
    obtain ⟨-, hall, -⟩ := saved_exactly {} [] awkwardRecords (lit "out/r.json")
    obtain ⟨hspelt, hsaved, hread⟩ := hall is his
    rw [hpath] at hsaved hread
    have hvalue : ∀ r ∈ awkwardRecords, ∀ d ∈ r.diagnostics, ∃ v : Json, v.isExact = true ∧ Diagnostic.parse v = .ok d := by
      intro r hr d hd
      obtain rfl := List.mem_singleton.mp hr
      obtain rfl := List.mem_singleton.mp hd
      let place (column : Int) : Json := .obj [(lit "line", .int 1), (lit "offset", .int column)]
      refine ⟨.obj [(lit "start", place 1), (lit "end", place 2), (lit "text", .str awkwardText)], ?_, rfl⟩
      decide +kernel
    obtain ⟨note, hnote⟩ := hsaved.mpr ⟨hspelt hvalue, isWritable_of_empty⟩
    obtain ⟨octets, text, hfile, htext, hlist⟩ := hread _ note (Prod.ext rfl hnote)
    exact ⟨is, _, note, octets, text, his, Prod.ext rfl hnote, hfile, htext, hlist,
      Issue.map_ofRecords Issue.description Diagnostic.text his fun _ _ _ => rfl⟩

end IssueFile

end DiagnosticsClient
