import DiagnosticsClient.Proofs.Report.Fingerprints
import Mathlib.Data.Finset.Card
import Mathlib.Order.Monotone.Basic
/-
Searches for a fresh digest, and that they end.

In every round of a search the octets that are digested are longer than before, if no digest is empty. So no two rounds
of a search digest the same octets, and a search among finitely many digests ends (`exists_endsAfter`) if those that it
digests have different digests. Hence no two fingerprints of a report are the same (`fingerprints_unique`).
-/
namespace DiagnosticsClient

/-- No digest of octets is empty. -/
theorem MD5.digest_ne_nil (octets : Bytes) : MD5.digest octets ≠ [] := by
  have hne : ∀ (n : Nat) (rest : Text), Text.hex 2 n ++ rest ≠ [] := by
    intro n rest
    simp [Text.hex]
  simp only [MD5.digest, List.flatMap_cons, MD5.littleEndian, List.append_assoc]
  exact hne _ _

namespace Issue

variable {hash : Hash} {workingDirectory directory path : Text} {d : Diagnostic} {octets : Bytes} {os : List Bytes}
  {taken : List Text} {fuel n : Nat} {rs : List Record} {issues : List Issue}

/-! ## One search -/

/-- A search ends after some rounds, whose digests are taken already. -/
structure EndsAfter (hash : Hash) (taken : List Text) (octets : Bytes) (n : Nat) : Prop where
  vain : ∀ k < n, hash ((extend hash)^[k] octets) ∈ taken
  fresh : hash ((extend hash)^[n] octets) ∉ taken

theorem EndsAfter.congr {taken' : List Text} (h : EndsAfter hash taken octets n) (hsame : ∀ f, f ∈ taken ↔ f ∈ taken') :
    EndsAfter hash taken' octets n :=
  ⟨fun k hk => (hsame _).mp (h.vain k hk), fun hmem => h.fresh ((hsame _).mpr hmem)⟩

theorem octetsOf_ne_nil (c : CodePoint) : Charset.utf8.octetsOf c ≠ [] := by
  unfold Charset.octetsOf
  dsimp only
  split
  · exact List.cons_ne_nil _ _
  · split
    · exact List.cons_ne_nil _ _
    · split <;> exact List.cons_ne_nil _ _

section digests

variable (hdigest : ∀ octets, hash octets ≠ [])

include hdigest

theorem length_lt_extend (octets : Bytes) : octets.length < (extend hash octets).length := by
  rw [extend, List.length_append]
  have hpos : 0 < ((hash octets).flatMap Charset.utf8.octetsOf).length := by
    obtain ⟨c, t, ht⟩ := List.exists_cons_of_ne_nil (hdigest octets)
    rw [ht, List.flatMap_cons, List.length_append]
    exact Nat.lt_of_lt_of_le (List.length_pos_of_ne_nil (octetsOf_ne_nil c)) (Nat.le_add_right _ _)
  omega

/-- No octets come back in later rounds. -/
theorem iterate_extend_injective (octets : Bytes) : Function.Injective fun k => (extend hash)^[k] octets := by
  have hmono : StrictMono fun k => ((extend hash)^[k] octets).length := strictMono_nat_of_lt_succ fun k => by
    rw [Function.iterate_succ_apply']
    exact length_lt_extend hdigest _
  exact fun k l h => hmono.injective (congrArg List.length h)

end digests

/-- With enough fuel, the digest of the last round is found. -/
theorem EndsAfter.freshDigest (h : EndsAfter hash taken octets n) (hn : n ≤ fuel) :
    freshDigest hash taken fuel octets = hash ((extend hash)^[n] octets) := by
  induction n generalizing octets fuel with
  | zero =>
    cases fuel with
    | zero => rfl
    | succ fuel => exact if_neg fun hmem => h.fresh (List.contains_iff_mem.mp hmem)
  | succ n ih =>
    obtain ⟨fuel, rfl⟩ := Nat.exists_eq_succ_of_ne_zero (Nat.ne_zero_of_lt hn)
    have hrest : EndsAfter hash taken (extend hash octets) n := ⟨fun k hk => h.vain (k + 1) (Nat.succ_lt_succ hk), h.fresh⟩
    have htaken : taken.contains (hash octets) = true := List.contains_iff_mem.mpr (h.vain 0 (Nat.succ_pos n))
    rw [Issue.freshDigest, if_pos htaken]
    exact ih hrest (Nat.le_of_succ_le_succ hn)

/-- What is digested in a round is among all that is. -/
theorem iterate_mem_probes (h : ∀ k < n, hash ((extend hash)^[k] octets) ∈ taken) (hn : n ≤ fuel) :
    (extend hash)^[n] octets ∈ probes hash taken fuel octets := by
  induction n generalizing octets fuel with
  | zero => exact mem_probes_self
  | succ n ih =>
    obtain ⟨fuel, rfl⟩ := Nat.exists_eq_succ_of_ne_zero (Nat.ne_zero_of_lt hn)
    have htaken : taken.contains (hash octets) = true := List.contains_iff_mem.mpr (h 0 (Nat.succ_pos n))
    rw [probes, if_pos htaken]
    exact List.mem_cons_of_mem _ (ih (fun k hk => h (k + 1) (Nat.succ_lt_succ hk)) (Nat.le_of_succ_le_succ hn))

/-- **A search ends.** It has no more rounds than there are digests, if those that it digests have different ones. -/
theorem exists_endsAfter (hdigest : ∀ octets, hash octets ≠ [])
    (hinj : Set.InjOn hash {o | o ∈ probes hash taken taken.length octets}) :
    ∃ n ≤ taken.toFinset.card, EndsAfter hash taken octets n := by
  by_contra hno
  push Not at hno
  -- else the digests of all rounds are taken, and there are more rounds than digests
  have hvain : ∀ n ≤ taken.toFinset.card, hash ((extend hash)^[n] octets) ∈ taken := by
    intro n
    induction n using Nat.strong_induction_on with
    | _ n ih =>
      intro hn
      by_contra hfresh
      exact hno n hn ⟨fun k hk => ih k hk (by omega), hfresh⟩
  have hcard : taken.toFinset.card < (Finset.range (taken.toFinset.card + 1)).card := by
    rw [Finset.card_range]
    exact Nat.lt_succ_self _
  obtain ⟨k, hk, l, hl, hne, heq⟩ := Finset.exists_ne_map_eq_of_card_lt_of_maps_to hcard
    (f := fun k => hash ((extend hash)^[k] octets))
    fun k hk => List.mem_toFinset.mpr (hvain k (Nat.le_of_lt_succ (Finset.mem_range.mp hk)))
  have hprobed : ∀ k ∈ Finset.range (taken.toFinset.card + 1),
      (extend hash)^[k] octets ∈ probes hash taken taken.length octets := fun k hk => by
    have hle := Nat.le_of_lt_succ (Finset.mem_range.mp hk)
    exact iterate_mem_probes (fun j hj => hvain j (by omega)) (hle.trans (List.toFinset_card_le taken))
  exact hne (iterate_extend_injective hdigest octets (hinj (hprobed k hk) (hprobed l hl) heq))

/-- **A search gives a fresh digest**, and no other one is added. -/
theorem freshFingerprint_endsAfter (h : IsEncodable path d) (hends : EndsAfter hash taken (octetsFor path d) n)
    (hn : n ≤ taken.length) :
    freshFingerprint hash path d taken = .ok (hash ((extend hash)^[n] (octetsFor path d))) :=
  freshFingerprint_eq_ok_iff.mpr ⟨h, (hends.freshDigest hn).symm⟩

/-! ## The searches of a report -/

/-- The digests that are taken before the fingerprint at an index. -/
def takenBefore (hash : Hash) (taken : List Text) (os : List Bytes) (i : Nat) : List Text :=
  ((fingerprints hash taken os).take i).reverse ++ taken

/-- A fingerprint is searched for among those before it. -/
theorem fingerprints_getElem? (hash : Hash) (taken : List Text) {i : Nat} (h : os[i]? = some octets) :
    (fingerprints hash taken os)[i]? =
        some (freshDigest hash (takenBefore hash taken os i) (takenBefore hash taken os i).length octets) ∧
      ∀ o ∈ probes hash (takenBefore hash taken os i) (takenBefore hash taken os i).length octets, o ∈ digested hash taken os := by
  induction os generalizing taken i with
  | nil => cases h
  | cons o os ih =>
    cases i with
    | zero =>
      cases h
      exact ⟨rfl, fun o ho => List.mem_append_left _ ho⟩
    | succ i =>
      have hbefore : takenBefore hash taken (o :: os) (i + 1) =
          takenBefore hash (freshDigest hash taken taken.length o :: taken) os i := by
        simp only [takenBefore, fingerprints, List.take_succ_cons, List.reverse_cons, List.append_assoc, List.singleton_append]
      obtain ⟨hfound, hprobed⟩ := ih (freshDigest hash taken taken.length o :: taken) h
      rw [hbefore]
      exact ⟨hfound, fun o ho => List.mem_append_right _ (hprobed o ho)⟩

theorem length_fingerprints (hash : Hash) (taken : List Text) (os : List Bytes) :
    (fingerprints hash taken os).length = os.length := by
  induction os generalizing taken with
  | nil => rfl
  | cons o os ih => exact congrArg (· + 1) (ih _)

/-- The paths and diagnostics of some records. -/
def entriesIn (workingDirectory directory : Text) (rs : List Record) : List (Text × Diagnostic) :=
  rs.flatMap fun r => r.diagnostics.map fun d => (Path.relative workingDirectory directory r.file, d)

theorem octetsIn_eq_map : octetsIn workingDirectory directory rs =
    (entriesIn workingDirectory directory rs).map fun p => octetsFor p.1 p.2 := by
  simp only [octetsIn, entriesIn, List.map_flatMap, List.map_map, Function.comp_def]

/-- There is one issue for each diagnostic of a file, in their order. -/
theorem ofDiagnostics_forall₂ {ds : List Diagnostic} {taken' : List Text}
    (h : ofDiagnostics hash path taken ds = .ok (issues, taken')) :
    List.Forall₂ (fun d i => i = ofDiagnostic path i.fingerprint d) ds issues := by
  induction ds generalizing taken issues with
  | nil =>
    cases h
    exact .nil
  | cons d ds ih =>
    simp only [ofDiagnostics, bind, Except.bind] at h
    split at h
    · cases h
    · split at h
      · cases h
      · next r hr =>
        cases h
        exact .cons rfl (ih hr)

/-- There is one issue for each diagnostic of a report, in their order. -/
theorem ofRecords_forall₂ (h : ofRecords hash workingDirectory directory taken rs = .ok issues) :
    List.Forall₂ (fun p i => i = ofDiagnostic p.1 i.fingerprint p.2) (entriesIn workingDirectory directory rs) issues := by
  induction rs generalizing taken issues with
  | nil =>
    cases h
    exact .nil
  | cons r rs ih =>
    by_cases hfile : r.file = []
    · simp [ofRecords, hfile, bind, Except.bind] at h
    · simp only [ofRecords, hfile, if_false, bind, Except.bind, pure, Except.pure] at h
      split at h
      · cases h
      · next p hp =>
        have hp' : ofDiagnostics hash (Path.relative workingDirectory directory r.file) taken r.diagnostics = .ok (p.1, p.2) := by
          revert hp
          cases ofDiagnostics hash (Path.relative workingDirectory directory r.file) taken r.diagnostics <;>
            simp [Except.mapError]
        split at h
        · cases h
        · next rest hrest =>
          cases h
          exact List.rel_append (List.forall₂_map_left_iff.mpr (ofDiagnostics_forall₂ hp')) (ih hrest)

/-- An issue of a report is that of a diagnostic. -/
theorem exists_of_mem_ofRecords (h : ofRecords hash workingDirectory directory taken rs = .ok issues) {i : Issue} (hi : i ∈ issues) :
    ∃ r ∈ rs, ∃ d ∈ r.diagnostics, i = ofDiagnostic (Path.relative workingDirectory directory r.file) i.fingerprint d := by
  have hentry : ∃ p ∈ entriesIn workingDirectory directory rs, i = ofDiagnostic p.1 i.fingerprint p.2 := by
    have hall := ofRecords_forall₂ h
    generalize entriesIn workingDirectory directory rs = entries at hall
    clear h
    induction hall with
    | nil => cases hi
    | @cons p j entries issues hj _ ih =>
      rcases List.mem_cons.mp hi with rfl | hi
      · exact ⟨p, List.mem_cons_self, hj⟩
      · obtain ⟨q, hq, heq⟩ := ih hi
        exact ⟨q, List.mem_cons_of_mem _ hq, heq⟩
  obtain ⟨p, hp, heq⟩ := hentry
  obtain ⟨r, hr, hmem⟩ := List.mem_flatMap.mp hp
  obtain ⟨d, hd, rfl⟩ := List.mem_map.mp hmem
  exact ⟨r, hr, d, hd, heq⟩

/-- What an issue has of its diagnostic alone, the issues of a report have of the diagnostics of its records, in order. -/
theorem map_ofRecords {α : Type} (part : Issue → α) (partOf : Diagnostic → α)
    (h : ofRecords hash workingDirectory directory taken rs = .ok issues) (hpart : ∀ path fingerprint d, part (ofDiagnostic path fingerprint d) = partOf d) :
    issues.map part = (rs.flatMap (·.diagnostics)).map partOf := by
  have hentries : rs.flatMap (·.diagnostics) = (entriesIn workingDirectory directory rs).map Prod.snd := by
    simp [entriesIn, List.map_flatMap, Function.comp_def]
  rw [hentries]
  have hall := ofRecords_forall₂ h
  generalize entriesIn workingDirectory directory rs = entries at hall
  clear h hentries
  induction hall with
  | nil => rfl
  | @cons p i entries issues hi _ ih =>
    simp only [List.map_cons, List.cons.injEq]
    exact ⟨hi ▸ hpart p.1 i.fingerprint p.2, ih⟩

/-- The searches for the fingerprints of a report end, each after no more rounds than there are fingerprints before. -/
theorem fingerprints_endAfter (hdigest : ∀ octets, hash octets ≠ []) (hinj : Set.InjOn hash {o | o ∈ digested hash [] os})
    {i : Nat} (h : os[i]? = some octets) : ∃ n ≤ i, EndsAfter hash ((fingerprints hash [] os).take i) octets n ∧
      (fingerprints hash [] os)[i]? = some (hash ((extend hash)^[n] octets)) := by
  obtain ⟨hfound, hprobed⟩ := fingerprints_getElem? hash [] h
  obtain ⟨n, hn, hends⟩ := exists_endsAfter hdigest (hinj.mono fun o ho => hprobed o ho)
  have hfuel := hn.trans (List.toFinset_card_le _)
  refine ⟨n, hfuel.trans ?_, hends.congr fun f => by simp [takenBefore], ?_⟩
  · rw [takenBefore, List.append_nil, List.length_reverse]
    exact List.length_take_le _ _
  · rw [hfound, hends.freshDigest hfuel]

theorem nodup_fingerprints (hdigest : ∀ octets, hash octets ≠ []) (hinj : Set.InjOn hash {o | o ∈ digested hash [] os}) :
    (fingerprints hash [] os).Nodup := by
  refine List.pairwise_iff_getElem.mpr fun i j hi hj hij heq => ?_
  have hlt : j < os.length := length_fingerprints hash [] os ▸ hj
  obtain ⟨n, -, hends, hfound⟩ := fingerprints_endAfter hdigest hinj (List.getElem?_eq_getElem hlt)
  rw [List.getElem?_eq_getElem hj, Option.some.injEq, ← heq] at hfound
  exact hends.fresh (hfound ▸ List.mem_take_iff_getElem.mpr ⟨i, by omega, rfl⟩)

/-- **Fingerprints are unique, and the search for each ends.** A digest that is not empty is found among any that are
taken, after no more rounds than there are of them, and it is the one that is added. A report has one issue for each
diagnostic, in order, and no two of them have the same fingerprint. -/
theorem fingerprints_unique (hdigest : ∀ octets, hash octets ≠ []) :
    (∀ path d taken, (∀ c ∈ path, Charset.utf8.encodes c = true) → (∀ c ∈ d.text, Charset.utf8.encodes c = true) →
      Set.InjOn hash {o | o ∈ probes hash taken taken.length (octetsFor path d)} →
      ∃ n ≤ taken.toFinset.card, ∃ digest, EndsAfter hash taken (octetsFor path d) n ∧
        digest = hash ((extend hash)^[n] (octetsFor path d)) ∧ digest ∉ taken ∧
        freshFingerprint hash path d taken = .ok digest ∧
        ofDiagnostics hash path taken [d] = .ok ([ofDiagnostic path digest d], digest :: taken)) ∧
    ∀ workingDirectory directory rs, (∀ c ∈ workingDirectory, Charset.utf8.encodes c = true) →
      (∀ r ∈ rs, r.file ≠ [] ∧ (∀ c ∈ r.file, Charset.utf8.encodes c = true) ∧
        ∀ d ∈ r.diagnostics, ∀ c ∈ d.text, Charset.utf8.encodes c = true) →
      Set.InjOn hash {o | o ∈ digestedIn hash workingDirectory directory rs} →
      ∃ issues, ofRecords hash workingDirectory directory [] rs = .ok issues ∧
        List.Forall₂ (fun p i => i = ofDiagnostic p.1 i.fingerprint p.2) (entriesIn workingDirectory directory rs) issues ∧
        (issues.map Issue.fingerprint).Nodup ∧
        ∀ i o, (octetsIn workingDirectory directory rs)[i]? = some o → ∃ n ≤ i,
          EndsAfter hash ((issues.map Issue.fingerprint).take i) o n ∧
            (issues.map Issue.fingerprint)[i]? = some (hash ((extend hash)^[n] o)) := by
  refine ⟨fun path d taken hpath htext hinj => ?_, fun workingDirectory directory rs hw hrs hinj => ?_⟩
  · have hencodable : IsEncodable path d := ⟨List.all_eq_true.mpr hpath, List.all_eq_true.mpr htext⟩
    obtain ⟨n, hn, hends⟩ := exists_endsAfter hdigest hinj
    have hfresh := freshFingerprint_endsAfter hencodable hends (hn.trans (List.toFinset_card_le taken))
    refine ⟨n, hn, _, hends, rfl, hends.fresh, hfresh, ?_⟩
    simp only [ofDiagnostics, bind, Except.bind, hfresh]
  · have hreportable : ∀ r ∈ rs, IsReportable workingDirectory directory r := fun r hr =>
      isReportable_of_encodes hw (hrs r hr).1 (hrs r hr).2.1 (hrs r hr).2.2
    obtain ⟨issues, hissues⟩ : ∃ issues, ofRecords hash workingDirectory directory [] rs = .ok issues :=
      exists_ofRecords hreportable []
    have hprints := (ofRecords_eq_ok hissues).2
    refine ⟨issues, hissues, ofRecords_forall₂ hissues, ?_, fun i o ho => ?_⟩
    · exact hprints ▸ nodup_fingerprints hdigest hinj
    · exact hprints ▸ fingerprints_endAfter hdigest hinj ho

/-- A digest that loses nothing, and is never empty. -/
def taggedHash : Hash := fun octets => pt '#' :: octetHash octets

theorem taggedHash_injective : Function.Injective taggedHash := fun _ _ h => octetHash_injective (List.cons.inj h).2

/-- A digest that is taken is digested with the octets, and a report whose octets run into one another has four
fingerprints. -/
theorem fingerprints_unique_of_chain : (∀ octets, taggedHash octets ≠ []) ∧
    Set.InjOn taggedHash {o | o ∈ digestedIn taggedHash (lit "/") (lit "/") chainedRecords} ∧
    ofDiagnostics taggedHash (lit "f") [lit "#fx", lit "#gx"] [diagnosticOf (lit "x")] =
      .ok ([ofDiagnostic (lit "f") (lit "#fx#fx") (diagnosticOf (lit "x"))], [lit "#fx#fx", lit "#fx", lit "#gx"]) ∧
    ∃ issues, ofRecords taggedHash (lit "/") (lit "/") [] chainedRecords = .ok issues ∧
      issues.length = 4 ∧ (issues.map Issue.fingerprint).Nodup := by
  have hdigest : ∀ octets, taggedHash octets ≠ [] := fun octets => List.cons_ne_nil _ _
  obtain ⟨hone, hall⟩ := fingerprints_unique hdigest
  refine ⟨hdigest, taggedHash_injective.injOn, ?_, ?_⟩
  · obtain ⟨n, -, digest, -, -, -, hfound, hadded⟩ := hone (lit "f") (diagnosticOf (lit "x")) [lit "#fx", lit "#gx"] (by decide)
      (by decide) taggedHash_injective.injOn
    have hdigest : freshFingerprint taggedHash (lit "f") (diagnosticOf (lit "x")) [lit "#fx", lit "#gx"] = .ok (lit "#fx#fx") := by
      decide +kernel
    cases hdigest.symm.trans hfound
    exact hadded
  · obtain ⟨issues, hissues, hentries, hnodup, -⟩ := hall (lit "/") (lit "/") chainedRecords (by decide) (by decide)
      taggedHash_injective.injOn
    exact ⟨issues, hissues, hentries.length_eq.symm, hnodup⟩

/-- A message with half of a surrogate pair has no octets, and if every digest is empty none is ever fresh. -/
theorem fingerprints_missing :
    ofRecords taggedHash (lit "/") (lit "/") [] [{ file := lit "f", diagnostics := [diagnosticOf [.ofNat 0xD800]] }] =
      .error (.encode (.unencodable ⟨.utf8, .ofNat 0xD800, 0, 1⟩)) ∧
    let blank : Hash := fun _ => []
    let octets := octetsFor (lit "f") (diagnosticOf (lit "x"))
    Set.InjOn blank {o | o ∈ probes blank [[]] 1 octets} ∧ ∀ n, ¬ EndsAfter blank [[]] octets n := by
  refine ⟨rfl, fun o ho o' ho' _ => ?_, fun n hends => hends.fresh (List.mem_singleton.mpr rfl)⟩
  have hsame : ∀ o, o ∈ probes (fun _ => []) [[]] 1 (octetsFor (lit "f") (diagnosticOf (lit "x"))) →
      o = octetsFor (lit "f") (diagnosticOf (lit "x")) := by
    decide +kernel
  exact (hsame o ho).trans (hsame o' ho').symm

end Issue

end DiagnosticsClient
