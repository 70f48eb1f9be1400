import DiagnosticsClient.Proofs.File.Letters
import DiagnosticsClient.Proofs.Report.Probing
import DiagnosticsClient.Proofs.Text.Utf8
import DiagnosticsClient.Report.Issue
import Mathlib.Data.List.Forall2
import Mathlib.Data.Set.Function
/-
The fingerprints of a report.

A search for a fresh digest probes octets, and then octets with their digest added. If
no two of the octets digested in a report have the same digest, a digest is taken
exactly if the octets are, so fingerprints are the digests of the slots that probing
gives to the identities of the diagnostics (`fingerprints_eq_map_slots`). Which slots
these are does not depend on the order, and so neither does the set of fingerprints
(`fingerprints_reordered`).
-/
namespace DiagnosticsClient

/-- Records in another order, each with its diagnostics in another order. -/
def Record.Reordered (rs rs' : List Record) : Prop :=
  ∃ mid, rs.Perm mid ∧ List.Forall₂ (fun r r' => r'.file = r.file ∧ r.diagnostics.Perm r'.diagnostics) mid rs'

namespace Issue

variable {hash : Hash} {workingDirectory directory path : Text} {d : Diagnostic} {ds : List Diagnostic} {octets : Bytes}
  {os : List Bytes} {taken taken' : List Text} {fuel : Nat} {rs rs' : List Record} {issues issues' : List Issue}

/-! ## What is digested -/

/-- Octets with their digest added. -/
def extend (hash : Hash) (octets : Bytes) : Bytes := octets ++ (hash octets).flatMap Charset.utf8.octetsOf

/-- The octets that are digested in a search for a fresh digest. -/
def probes (hash : Hash) (taken : List Text) : (fuel : Nat) → Bytes → List Bytes
  | 0, octets => [octets]
  | fuel + 1, octets =>
    if taken.contains (hash octets) then octets :: probes hash taken fuel (extend hash octets) else [octets]

/-- The fingerprints of octets, one after the other. -/
def fingerprints (hash : Hash) : (taken : List Text) → List Bytes → List Text
  | _, [] => []
  | taken, octets :: os =>
    let digest := freshDigest hash taken taken.length octets
    digest :: fingerprints hash (digest :: taken) os

/-- All octets that are digested for the fingerprints of octets. -/
def digested (hash : Hash) : (taken : List Text) → List Bytes → List Bytes
  | _, [] => []
  | taken, octets :: os =>
    probes hash taken taken.length octets ++ digested hash (freshDigest hash taken taken.length octets :: taken) os

/-- Whether a path and a diagnostic have octets. -/
def IsEncodable (path : Text) (d : Diagnostic) : Prop :=
  path.all Charset.utf8.encodes = true ∧ d.text.all Charset.utf8.encodes = true

/-- The octets of a path, of the name of a check and of a text. -/
def octetsFor (path : Text) (d : Diagnostic) : Bytes :=
  path.flatMap Charset.utf8.octetsOf ++ (nameOf d).flatMap Charset.utf8.octetsOf ++ d.text.flatMap Charset.utf8.octetsOf

/-- The octets for all diagnostics of some records. -/
def octetsIn (workingDirectory directory : Text) (rs : List Record) : List Bytes :=
  rs.flatMap fun r => r.diagnostics.map (octetsFor (Path.relative workingDirectory directory r.file))

/-- All octets that are digested for a report. -/
def digestedIn (hash : Hash) (workingDirectory directory : Text) (rs : List Record) : List Bytes :=
  digested hash [] (octetsIn workingDirectory directory rs)

theorem octetsIn_cons (r : Record) (rs : List Record) :
    octetsIn workingDirectory directory (r :: rs) =
      r.diagnostics.map (octetsFor (Path.relative workingDirectory directory r.file)) ++ octetsIn workingDirectory directory rs :=
  rfl

theorem identity_eq_ok_iff : identity path d = .ok octets ↔ IsEncodable path d ∧ octets = octetsFor path d := by
  unfold identity IsEncodable octetsFor Charset.encode
  by_cases hp : path.all Charset.utf8.encodes = true <;> by_cases hd : d.text.all Charset.utf8.encodes = true <;>
    simp [hp, hd, bind, Except.bind, eq_comm]

theorem freshFingerprint_eq_ok_iff {digest : Text} :
    freshFingerprint hash path d taken = .ok digest ↔
      IsEncodable path d ∧ digest = freshDigest hash taken taken.length (octetsFor path d) := by
  unfold freshFingerprint
  cases hi : identity path d with
  | error f =>
    have hnot : ¬ IsEncodable path d := fun h => by cases (identity_eq_ok_iff.mpr ⟨h, rfl⟩).symm.trans hi
    simp [bind, Except.bind, hnot]
  | ok octets =>
    obtain ⟨hd, rfl⟩ := identity_eq_ok_iff.mp hi
    simp [bind, Except.bind, hd, eq_comm]

theorem fingerprints_append (os os' : List Bytes) :
    fingerprints hash taken (os ++ os') =
      fingerprints hash taken os ++ fingerprints hash ((fingerprints hash taken os).reverse ++ taken) os' := by
  induction os generalizing taken with
  | nil => rfl
  | cons octets os ih => simp [fingerprints, ih]

/-! ## What a report is made of -/

/-- The issues of a file have the fingerprints of their octets, and there are issues if path and texts have octets. -/
theorem ofDiagnostics_eq_ok (h : ofDiagnostics hash path taken ds = .ok (issues, taken')) :
    (∀ d ∈ ds, IsEncodable path d) ∧ issues.map Issue.fingerprint = fingerprints hash taken (ds.map (octetsFor path)) ∧
      taken' = (issues.map Issue.fingerprint).reverse ++ taken := by
  induction ds generalizing taken issues with
  | nil =>
    cases h
    exact ⟨fun d hd => (by cases hd), rfl, rfl⟩
  | cons d ds ih =>
    simp only [ofDiagnostics, bind, Except.bind] at h
    split at h
    · cases h
    · next digest hdigest =>
      obtain ⟨hd, rfl⟩ := freshFingerprint_eq_ok_iff.mp hdigest
      split at h
      · cases h
      · next r hr =>
        cases h
        obtain ⟨hds, hprints, htaken⟩ := ih hr
        refine ⟨List.forall_mem_cons.mpr ⟨hd, hds⟩, ?_, ?_⟩
        · simp only [List.map_cons, fingerprints, ofDiagnostic, hprints]
        · simp [htaken, ofDiagnostic]

theorem exists_ofDiagnostics (h : ∀ d ∈ ds, IsEncodable path d) (taken : List Text) :
    ∃ r, ofDiagnostics hash path taken ds = .ok r := by
  induction ds generalizing taken with
  | nil => exact ⟨_, rfl⟩
  | cons d ds ih =>
    obtain ⟨hd, hds⟩ := List.forall_mem_cons.mp h
    have hdigest : freshFingerprint hash path d taken = .ok _ := freshFingerprint_eq_ok_iff.mpr ⟨hd, rfl⟩
    obtain ⟨⟨rest, taken'⟩, hrest⟩ := ih hds (freshDigest hash taken taken.length (octetsFor path d) :: taken)
    refine ⟨(ofDiagnostic path (freshDigest hash taken taken.length (octetsFor path d)) d :: rest, taken'), ?_⟩
    simp only [ofDiagnostics, bind, Except.bind, hdigest, hrest]

/-- Whether a record can be reported: it has a file, and its path and texts have octets. -/
def IsReportable (workingDirectory directory : Text) (r : Record) : Prop :=
  r.file ≠ [] ∧ ∀ d ∈ r.diagnostics, IsEncodable (Path.relative workingDirectory directory r.file) d

/-- The issues of records have the fingerprints of their octets, and all of the records can be reported. -/
theorem ofRecords_eq_ok (h : ofRecords hash workingDirectory directory taken rs = .ok issues) :
    (∀ r ∈ rs, IsReportable workingDirectory directory r) ∧
      issues.map Issue.fingerprint = fingerprints hash taken (octetsIn workingDirectory directory rs) := by
  induction rs generalizing taken issues with
  | nil =>
    cases h
    exact ⟨fun r hr => (by cases hr), rfl⟩
  | cons r rs ih =>
    by_cases hfile : r.file = []
    · simp [ofRecords, hfile, bind, Except.bind] at h
    · simp only [ofRecords, hfile, if_false, bind, Except.bind, pure, Except.pure] at h
      split at h
      · cases h
      · next p hp =>
        obtain ⟨first, taken'⟩ := p
        have hp' : ofDiagnostics hash (Path.relative workingDirectory directory r.file) taken r.diagnostics =
            .ok (first, taken') := by
          revert hp
          cases ofDiagnostics hash (Path.relative workingDirectory directory r.file) taken r.diagnostics <;>
            simp [Except.mapError]
        obtain ⟨hds, hprints, rfl⟩ := ofDiagnostics_eq_ok hp'
        split at h
        · cases h
        · next rest hrest =>
          cases h
          obtain ⟨hrs, hprints'⟩ := ih hrest
          refine ⟨List.forall_mem_cons.mpr ⟨⟨hfile, hds⟩, hrs⟩, ?_⟩
          rw [List.map_append, hprints', octetsIn_cons, fingerprints_append, ← hprints]

theorem exists_ofRecords (h : ∀ r ∈ rs, IsReportable workingDirectory directory r) (taken : List Text) :
    ∃ issues, ofRecords hash workingDirectory directory taken rs = .ok issues := by
  induction rs generalizing taken with
  | nil => exact ⟨_, rfl⟩
  | cons r rs ih =>
    obtain ⟨⟨hfile, hds⟩, hrs⟩ := List.forall_mem_cons.mp h
    obtain ⟨⟨first, taken'⟩, hfirst⟩ : ∃ p, ofDiagnostics hash _ taken r.diagnostics = .ok p := exists_ofDiagnostics hds taken
    obtain ⟨rest, hrest⟩ := ih hrs taken'
    exact ⟨first ++ rest, by
      simp only [ofRecords, hfile, if_false, bind, Except.bind, pure, Except.pure, hfirst, Except.mapError, hrest]⟩

/-! ## Digests and slots -/

/-- Octets with their digest added are longer, unless the digest has none. -/
theorem grows_extend (hash : Hash) : Probing.Grows (extend hash) List.length := by
  intro octets
  unfold extend
  cases (hash octets).flatMap Charset.utf8.octetsOf with
  | nil => exact .inl (List.append_nil _)
  | cons b bs =>
    refine .inr ?_
    rw [List.length_append, List.length_cons]
    omega

section injective

variable {S : Set Bytes} {ts : List Bytes}

theorem mem_probes_self : octets ∈ probes hash taken fuel octets := by
  cases fuel with
  | zero => exact List.mem_singleton.mpr rfl
  | succ fuel =>
    unfold probes
    split
    · exact List.mem_cons_self
    · exact List.mem_singleton.mpr rfl

/-- If no two octets that are digested have the same digest, a search ends with the digest of a slot. -/
theorem freshDigest_eq_slot (hinj : Set.InjOn hash S) (hts : ∀ t ∈ ts, t ∈ S)
    (hprobes : ∀ o ∈ probes hash (ts.map hash) fuel octets, o ∈ S) :
    freshDigest hash (ts.map hash) fuel octets = hash (Probing.slot (extend hash) ts fuel octets) ∧
      Probing.slot (extend hash) ts fuel octets ∈ S := by
  induction fuel generalizing octets with
  | zero => exact ⟨rfl, hprobes _ mem_probes_self⟩
  | succ fuel ih =>
    have hself : octets ∈ S := hprobes _ mem_probes_self
    have htaken : (ts.map hash).contains (hash octets) = true ↔ octets ∈ ts := by
      rw [List.contains_iff_mem, List.mem_map]
      constructor
      · rintro ⟨t, ht, heq⟩
        exact hinj (hts t ht) hself heq ▸ ht
      · exact fun ht => ⟨octets, ht, rfl⟩
    unfold freshDigest Probing.slot
    unfold probes at hprobes
    dsimp only
    by_cases ht : octets ∈ ts
    · rw [if_pos (htaken.mpr ht)] at hprobes ⊢
      rw [if_pos ht]
      exact ih fun o ho => hprobes o (List.mem_cons_of_mem _ ho)
    · rw [if_neg fun h => ht (htaken.mp h), if_neg ht]
      exact ⟨rfl, hself⟩

/-- **Fingerprints are the digests of slots**, if no two octets that are digested have the same digest. -/
theorem fingerprints_eq_map_slots (hinj : Set.InjOn hash S) (hts : ∀ t ∈ ts, t ∈ S)
    (hos : ∀ o ∈ digested hash (ts.map hash) os, o ∈ S) :
    fingerprints hash (ts.map hash) os = (Probing.slots (extend hash) ts os).map hash := by
  induction os generalizing ts with
  | nil => rfl
  | cons octets os ih =>
    rw [digested, List.forall_mem_append, List.length_map] at hos
    obtain ⟨heq, hslot⟩ := freshDigest_eq_slot hinj hts hos.1
    have hrest := ih (List.forall_mem_cons.mpr ⟨hslot, hts⟩) (by rw [List.map_cons, ← heq]; exact hos.2)
    rw [List.map_cons, ← heq] at hrest
    simp only [fingerprints, Probing.slots, List.map_cons, List.length_map, heq] at hrest ⊢
    rw [hrest]

/-- The fingerprints of the same octets in another order are the same. -/
theorem mem_fingerprints_perm {os' : List Bytes} (hinj : Set.InjOn hash S) (h : os.Perm os')
    (hos : ∀ o ∈ digested hash [] os, o ∈ S) (hos' : ∀ o ∈ digested hash [] os', o ∈ S) {f : Text} :
    f ∈ fingerprints hash [] os ↔ f ∈ fingerprints hash [] os' := by
  have hslots : ∀ {xs : List Bytes}, (∀ o ∈ digested hash [] xs, o ∈ S) →
      fingerprints hash [] xs = (Probing.slots (extend hash) [] xs).map hash :=
    fun hxs => @fingerprints_eq_map_slots hash _ S [] hinj (List.forall_mem_nil _) hxs
  rw [hslots hos, hslots hos', List.mem_map, List.mem_map]
  simp only [Probing.mem_slots_perm (grows_extend hash) h]

end injective

/-! ## Records in another order -/

theorem octetsIn_perm (h : Record.Reordered rs rs') :
    (octetsIn workingDirectory directory rs).Perm (octetsIn workingDirectory directory rs') := by
  obtain ⟨mid, hperm, hall⟩ := h
  refine (hperm.flatMap_right _).trans ?_
  clear hperm
  induction hall with
  | nil => exact .refl _
  | @cons r r' mid rs' hr _ ih =>
    rw [octetsIn_cons, hr.1]
    exact (hr.2.map _).append ih

theorem forall_isReportable_iff (h : Record.Reordered rs rs') :
    (∀ r ∈ rs, IsReportable workingDirectory directory r) ↔ ∀ r ∈ rs', IsReportable workingDirectory directory r := by
  obtain ⟨mid, hperm, hall⟩ := h
  have hmid : (∀ r ∈ rs, IsReportable workingDirectory directory r) ↔ ∀ r ∈ mid, IsReportable workingDirectory directory r :=
    forall_congr' fun r => by rw [hperm.mem_iff]
  rw [hmid]
  clear hmid hperm
  induction hall with
  | nil => exact Iff.rfl
  | cons hr _ ih =>
    rw [List.forall_mem_cons, List.forall_mem_cons]
    refine and_congr ?_ ih
    rw [IsReportable, IsReportable, hr.1]
    simp only [hr.2.mem_iff]

/-- A record can be reported if its file has a name, and its name, its texts and the working directory have octets. -/
theorem isReportable_of_encodes {r : Record} (hw : ∀ c ∈ workingDirectory, Charset.utf8.encodes c = true) (hfile : r.file ≠ [])
    (hname : ∀ c ∈ r.file, Charset.utf8.encodes c = true)
    (hds : ∀ d ∈ r.diagnostics, ∀ c ∈ d.text, Charset.utf8.encodes c = true) : IsReportable workingDirectory directory r := by
  have hpath : ∀ c ∈ Path.relative workingDirectory directory r.file, Charset.utf8.encodes c = true :=
    Path.forall_mem_relative (by decide) (by decide) hw hname
  exact ⟨hfile, fun d hd => ⟨List.all_eq_true.mpr hpath, List.all_eq_true.mpr (hds d hd)⟩⟩

theorem exists_ofRecords_of_encodes (hw : ∀ c ∈ workingDirectory, Charset.utf8.encodes c = true)
    (hrs : ∀ r ∈ rs, r.file ≠ [] ∧ (∀ c ∈ r.file, Charset.utf8.encodes c = true) ∧
      ∀ d ∈ r.diagnostics, ∀ c ∈ d.text, Charset.utf8.encodes c = true) (taken : List Text) :
    ∃ issues, ofRecords hash workingDirectory directory taken rs = .ok issues :=
  exists_ofRecords (fun r hr => isReportable_of_encodes hw (hrs r hr).1 (hrs r hr).2.1 (hrs r hr).2.2) taken

/-- **The fingerprints of a report do not depend on its order.** Records in another order, with their diagnostics in
another order, can be reported if the records can, and they can if every file has a name and no half of a surrogate pair
stands in a name or a text. Then they have the same set of fingerprints, if no two of the octets that are digested for
either report have the same digest. -/
theorem fingerprints_reordered (h : Record.Reordered rs rs')
    (hinj : Set.InjOn hash {o | o ∈ digestedIn hash workingDirectory directory rs ∨
      o ∈ digestedIn hash workingDirectory directory rs'}) :
    ((∀ c ∈ workingDirectory, Charset.utf8.encodes c = true) →
      (∀ r ∈ rs, r.file ≠ [] ∧ (∀ c ∈ r.file, Charset.utf8.encodes c = true) ∧
        ∀ d ∈ r.diagnostics, ∀ c ∈ d.text, Charset.utf8.encodes c = true) →
      ∃ issues, ofRecords hash workingDirectory directory [] rs = .ok issues) ∧
    ((∃ issues, ofRecords hash workingDirectory directory [] rs = .ok issues) ↔
      ∃ issues', ofRecords hash workingDirectory directory [] rs' = .ok issues') ∧
    ∀ issues issues', ofRecords hash workingDirectory directory [] rs = .ok issues →
      ofRecords hash workingDirectory directory [] rs' = .ok issues' →
      ∀ f, f ∈ issues.map Issue.fingerprint ↔ f ∈ issues'.map Issue.fingerprint := by
  refine ⟨fun hw hrs => ?_, ⟨?_, ?_⟩, fun issues issues' hi hi' f => ?_⟩
  · exact exists_ofRecords (fun r hr => isReportable_of_encodes hw (hrs r hr).1 (hrs r hr).2.1 (hrs r hr).2.2) []
  · rintro ⟨issues, hi⟩
    exact exists_ofRecords ((forall_isReportable_iff h).mp (ofRecords_eq_ok hi).1) []
  · rintro ⟨issues', hi'⟩
    exact exists_ofRecords ((forall_isReportable_iff h).mpr (ofRecords_eq_ok hi').1) []
  · rw [(ofRecords_eq_ok hi).2, (ofRecords_eq_ok hi').2]
    exact mem_fingerprints_perm hinj (octetsIn_perm h) (fun o ho => .inl ho) fun o ho => .inr ho

/-- A digest that loses nothing: the octets themselves, each as a code point. -/
def octetHash : Hash := fun octets => octets.map fun b => CodePoint.ofNat b.toNat

theorem octetHash_injective : Function.Injective octetHash := by
  refine List.map_injective_iff.mpr fun a b h => UInt8.toNat_inj.mp ?_
  have hval := congrArg CodePoint.val h
  rwa [Charset.val_ofNat (Nat.lt_trans a.toNat_lt (by decide)), Charset.val_ofNat (Nat.lt_trans b.toNat_lt (by decide))] at hval

/-- A diagnostic without a code. -/
def diagnosticOf (text : Text) : Diagnostic where
  spelling := .plain
  code := none
  category := lit "error"
  start := ⟨1, 1, []⟩
  stop := ⟨1, 2, []⟩
  text := text
  extra := []

/-- A report with a diagnostic that repeats, and one whose octets are those of the former with their digest added. -/
def chainedRecords : List Record :=
  [{ file := lit "f", diagnostics := [diagnosticOf (lit "x"), diagnosticOf (lit "x"), diagnosticOf (lit "xfx")] },
    { file := lit "g", diagnostics := [diagnosticOf (lit "x")] }]

/-- The same report, from its end. -/
def chainedRecordsReversed : List Record :=
  [{ file := lit "g", diagnostics := [diagnosticOf (lit "x")] },
    { file := lit "f", diagnostics := [diagnosticOf (lit "xfx"), diagnosticOf (lit "x"), diagnosticOf (lit "x")] }]

theorem chainedRecords_reordered : Record.Reordered chainedRecords chainedRecordsReversed :=
  ⟨_, .swap _ _ _, .cons ⟨rfl, .refl _⟩ (.cons ⟨rfl, (List.reverse_perm _).symm⟩ .nil)⟩

/-- From its end, the report has its fingerprints in another order and for other diagnostics, and yet the same ones. -/
theorem fingerprints_reordered_of_chain : Record.Reordered chainedRecords chainedRecordsReversed ∧
    Set.InjOn octetHash {o | o ∈ digestedIn octetHash (lit "/") (lit "/") chainedRecords ∨
      o ∈ digestedIn octetHash (lit "/") (lit "/") chainedRecordsReversed} ∧
    ∃ issues issues', ofRecords octetHash (lit "/") (lit "/") [] chainedRecords = .ok issues ∧
      ofRecords octetHash (lit "/") (lit "/") [] chainedRecordsReversed = .ok issues' ∧
      issues.map Issue.fingerprint = [lit "fx", lit "fxfx", lit "fxfxfxfx", lit "gx"] ∧
      ∀ f, f ∈ issues.map Issue.fingerprint ↔ f ∈ issues'.map Issue.fingerprint := by
  have hinj := octetHash_injective.injOn (s := {o | o ∈ digestedIn octetHash (lit "/") (lit "/") chainedRecords ∨
    o ∈ digestedIn octetHash (lit "/") (lit "/") chainedRecordsReversed})
  obtain ⟨hmade, hboth, hsame⟩ := fingerprints_reordered chainedRecords_reordered hinj
  obtain ⟨issues, hi⟩ := hmade (by decide) (by decide)
  obtain ⟨issues', hi'⟩ := hboth.mp ⟨issues, hi⟩
  refine ⟨chainedRecords_reordered, hinj, issues, issues', hi, hi', ?_, hsame issues issues' hi hi'⟩
  rw [(ofRecords_eq_ok hi).2]
  decide +kernel

end Issue

end DiagnosticsClient
