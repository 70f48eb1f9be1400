import DiagnosticsClient.Proofs.Report.Searches
import Mathlib.Data.List.Nodup
/-
What a fingerprint depends on.

A diagnostic is told from others by its path, its code and its text, and by how many there are with the same ones before
it. The ways of two diagnostics may meet, since the parts are digested without anything between them: then a search goes
on where another one went (`fingerprints_run_together`). A diagnostic whose way meets no way of another kind has the
fingerprint of its repetition (`fingerprint_of_repetition`). Ways do not meet if neither's octets begin with the other's
(`apart_of_not_prefix`).
-/
namespace DiagnosticsClient

namespace Probing

variable {α : Type} {next : α → α} {x y : α} {ts xs : List α} {fuel c i : Nat}

/-- Two ways have no slot in common. -/
def Apart (next : α → α) (x y : α) : Prop := ∀ a b, next^[a] x ≠ next^[b] y

/-- Of the slots on a way, the first ones are taken and no others. -/
def TakenUpTo (next : α → α) (ts : List α) (x : α) (c : Nat) : Prop := ∀ m, next^[m] x ∈ ts ↔ m < c

theorem slot_eq_iterate [DecidableEq α] (next : α → α) (ts : List α) (fuel : Nat) (x : α) :
    ∃ a, slot next ts fuel x = next^[a] x := by
  induction fuel generalizing x with
  | zero => exact ⟨0, rfl⟩
  | succ fuel ih =>
    unfold slot
    split
    · obtain ⟨a, ha⟩ := ih (next x)
      exact ⟨a + 1, ha⟩
    · exact ⟨0, rfl⟩

/-- With enough fuel, the first slot that is not taken is found. -/
theorem TakenUpTo.slot_of_le [DecidableEq α] (h : TakenUpTo next ts x c) (hc : c ≤ fuel) : slot next ts fuel x = next^[c] x := by
  induction c generalizing x fuel with
  | zero =>
    have hfree : x ∉ ts := fun hmem => absurd ((h 0).mp hmem) (Nat.lt_irrefl 0)
    cases fuel with
    | zero => rfl
    | succ fuel => exact if_neg hfree
  | succ c ih =>
    obtain ⟨fuel, rfl⟩ := Nat.exists_eq_succ_of_ne_zero (Nat.ne_zero_of_lt hc)
    have htaken : x ∈ ts := (h 0).mpr (Nat.succ_pos c)
    have hrest : TakenUpTo next ts (next x) c := fun m => (h (m + 1)).trans Nat.succ_lt_succ_iff
    unfold slot
    rw [if_pos htaken]
    exact ih hrest (Nat.le_of_succ_le_succ hc)

variable (hinj : Function.Injective fun m => next^[m] x)

include hinj

theorem TakenUpTo.slot [DecidableEq α] (h : TakenUpTo next ts x c) : slot next ts ts.length x = next^[c] x := by
  refine h.slot_of_le ?_
  have hnodup : ((List.range c).map fun m => next^[m] x).Nodup := List.nodup_range.map hinj
  have hsub : ((List.range c).map fun m => next^[m] x) ⊆ ts := fun y hy => by
    obtain ⟨m, hm, rfl⟩ := List.mem_map.mp hy
    exact (h m).mpr (List.mem_range.mp hm)
  simpa using (hnodup.subperm hsub).length_le

theorem TakenUpTo.cons (h : TakenUpTo next ts x c) : TakenUpTo next (next^[c] x :: ts) x (c + 1) := by
  intro m
  rw [List.mem_cons, h m, Nat.lt_succ_iff_lt_or_eq, or_comm]
  exact or_congr Iff.rfl ⟨fun heq => hinj heq, fun heq => heq ▸ rfl⟩

omit hinj in
/-- A key whose way does not meet another leaves its slots alone. -/
theorem TakenUpTo.cons_of_apart (h : TakenUpTo next ts x c) (ha : Apart next y x) (a : Nat) :
    TakenUpTo next (next^[a] y :: ts) x c := by
  intro m
  rw [List.mem_cons, h m]
  exact or_iff_right fun heq => ha a m heq.symm

/-- **A key that comes again takes the next slot of its way**, if the ways of other keys do not meet its own. -/
theorem slots_getElem? [DecidableEq α] [BEq α] [LawfulBEq α] (h : TakenUpTo next ts x c) (hx : xs[i]? = some x)
    (hapart : ∀ y ∈ xs.take i, y ≠ x → Apart next y x) :
    (slots next ts xs)[i]? = some (next^[c + (xs.take i).count x] x) := by
  induction xs generalizing ts c i with
  | nil => cases hx
  | cons y xs ih =>
    cases i with
    | zero =>
      cases hx
      exact congrArg some (h.slot hinj)
    | succ i =>
      rw [List.take_succ_cons] at hapart ⊢
      obtain ⟨hy, hrest⟩ := List.forall_mem_cons.mp hapart
      by_cases hyx : y = x
      · subst hyx
        rw [List.count_cons_self, Nat.add_comm (List.count _ _), ← Nat.add_assoc, ← ih (h.cons hinj) hx hrest, ← h.slot hinj]
        rfl
      · obtain ⟨a, ha⟩ := slot_eq_iterate next ts ts.length y
        rw [List.count_cons_of_ne hyx, ← ih (h.cons_of_apart (hy hyx) a) hx hrest, ← ha]
        rfl

end Probing

namespace Issue

/-- What tells a diagnostic from others: the path of its file, its code and its text. -/
structure Key where
  path : Text
  code : Option Int
  text : Text
deriving DecidableEq

/-- A diagnostic with nothing to it but what tells it from others. -/
def Key.diagnostic (k : Key) : Diagnostic where
  spelling := .plain
  code := k.code
  category := []
  start := ⟨1, 1, []⟩
  stop := ⟨1, 1, []⟩
  text := k.text
  extra := []

/-- The octets that are digested first. -/
def Key.octets (k : Key) : Bytes := octetsFor k.path k.diagnostic

/-- What tells the diagnostics of some records from others, in their order. -/
def keysIn (workingDirectory directory : Text) (rs : List Record) : List Key :=
  (entriesIn workingDirectory directory rs).map fun p => ⟨p.1, p.2.code, p.2.text⟩

variable {hash : Hash} {workingDirectory directory : Text} {rs : List Record} {k k' : Key} {octets octets' : Bytes} {i : Nat}

theorem octetsIn_eq_map_keysIn : octetsIn workingDirectory directory rs = (keysIn workingDirectory directory rs).map Key.octets := by
  rw [octetsIn_eq_map, keysIn, List.map_map]
  rfl

/-- Octets begin with what they were before. -/
theorem prefix_iterate_extend (hash : Hash) (octets : Bytes) (n : Nat) : octets <+: (extend hash)^[n] octets := by
  induction n with
  | zero => exact List.prefix_rfl
  | succ n ih =>
    rw [Function.iterate_succ_apply']
    exact ih.trans (List.prefix_append _ _)

/-- Ways do not meet if neither's octets begin with the other's. -/
theorem apart_of_not_prefix (h : ¬ octets <+: octets') (h' : ¬ octets' <+: octets) : Probing.Apart (extend hash) octets octets' := by
  intro a b heq
  have hprefix := heq ▸ prefix_iterate_extend hash octets a
  rcases List.prefix_or_prefix_of_prefix hprefix (prefix_iterate_extend hash octets' b) with hp | hp
  · exact h hp
  · exact h' hp

/-- Keys have the same octets as often as they come, if the ways of others do not meet. -/
theorem count_octets {keys : List Key} (hapart : ∀ k' ∈ keys, k' ≠ k → Probing.Apart (extend hash) k'.octets k.octets) :
    (keys.map Key.octets).count k.octets = keys.count k := by
  rw [List.count, List.countP_map]
  refine List.countP_congr fun k' hk' => ?_
  simp only [Function.comp_apply, beq_iff_eq]
  constructor
  · intro heq
    by_contra hne
    exact hapart k' hk' hne 0 0 heq
  · exact fun heq => heq ▸ rfl

/-- **A fingerprint depends on the path, the code, the text and how often they came before**, if the way of no other kind
of diagnostic before it meets its own: it is the digest of its octets, to which as many digests have been added. -/
theorem fingerprint_of_repetition (hdigest : ∀ octets, hash octets ≠ [])
    (hw : ∀ c ∈ workingDirectory, Charset.utf8.encodes c = true)
    (hrs : ∀ r ∈ rs, r.file ≠ [] ∧ (∀ c ∈ r.file, Charset.utf8.encodes c = true) ∧
      ∀ d ∈ r.diagnostics, ∀ c ∈ d.text, Charset.utf8.encodes c = true)
    (hinj : Set.InjOn hash {o | o ∈ digestedIn hash workingDirectory directory rs}) :
    ∃ issues, ofRecords hash workingDirectory directory [] rs = .ok issues ∧
      issues.length = (keysIn workingDirectory directory rs).length ∧
      ∀ i k, (keysIn workingDirectory directory rs)[i]? = some k →
        (∀ k' ∈ (keysIn workingDirectory directory rs).take i, k' ≠ k → Probing.Apart (extend hash) k'.octets k.octets) →
        (issues.map Issue.fingerprint)[i]? =
          some (hash ((extend hash)^[((keysIn workingDirectory directory rs).take i).count k] k.octets)) := by
  have hreportable : ∀ r ∈ rs, IsReportable workingDirectory directory r := fun r hr =>
    isReportable_of_encodes hw (hrs r hr).1 (hrs r hr).2.1 (hrs r hr).2.2
  obtain ⟨issues, hissues⟩ : ∃ issues, ofRecords hash workingDirectory directory [] rs = .ok issues :=
    exists_ofRecords hreportable []
  have hprints : issues.map Issue.fingerprint =
      (Probing.slots (extend hash) [] ((keysIn workingDirectory directory rs).map Key.octets)).map hash := by
    rw [(ofRecords_eq_ok hissues).2, octetsIn_eq_map_keysIn]
    refine @fingerprints_eq_map_slots hash _ _ [] hinj (List.forall_mem_nil _) fun o ho => ?_
    rwa [← octetsIn_eq_map_keysIn] at ho
  refine ⟨issues, hissues, ?_, fun i k hk hapart => ?_⟩
  · rw [keysIn, List.length_map]
    exact (ofRecords_forall₂ hissues).length_eq.symm
  · have hnone : Probing.TakenUpTo (extend hash) [] k.octets 0 := fun m => by simp
    have hi : ((keysIn workingDirectory directory rs).map Key.octets)[i]? = some k.octets := by rw [List.getElem?_map, hk]; rfl
    have hways : ∀ o ∈ ((keysIn workingDirectory directory rs).map Key.octets).take i, o ≠ k.octets →
        Probing.Apart (extend hash) o k.octets := by
      rw [← List.map_take]
      intro o ho hne
      obtain ⟨k', hk', rfl⟩ := List.mem_map.mp ho
      exact hapart k' hk' fun heq => hne (heq ▸ rfl)
    rw [hprints, List.getElem?_map, Probing.slots_getElem? (iterate_extend_injective hdigest _) hnone hi hways, ← List.map_take,
      count_octets hapart, Nat.zero_add]
    rfl

/-- A report with one diagnostic in a file and the same two in another. -/
def repeatedRecords : List Record :=
  [{ file := lit "f", diagnostics := [diagnosticOf (lit "x")] },
    { file := lit "g", diagnostics := [diagnosticOf (lit "x"), diagnosticOf (lit "x")] }]

/-- The last of the diagnostics has one like it before it, and the other one does not matter. -/
theorem fingerprint_of_second : (∀ octets, taggedHash octets ≠ []) ∧
    Set.InjOn taggedHash {o | o ∈ digestedIn taggedHash (lit "/") (lit "/") repeatedRecords} ∧
    ∃ issues, ofRecords taggedHash (lit "/") (lit "/") [] repeatedRecords = .ok issues ∧
      (issues.map Issue.fingerprint)[2]? = some (lit "#gx#gx") := by
  have hdigest : ∀ octets, taggedHash octets ≠ [] := fun octets => List.cons_ne_nil _ _
  have hinj := taggedHash_injective.injOn (s := {o | o ∈ digestedIn taggedHash (lit "/") (lit "/") repeatedRecords})
  obtain ⟨issues, hissues, -, hprints⟩ := fingerprint_of_repetition hdigest (by decide) (by decide) hinj
  refine ⟨hdigest, hinj, issues, hissues, (hprints 2 ⟨lit "g", none, lit "x"⟩ (by decide +kernel) ?_).trans (by decide +kernel)⟩
  intro k' hk' hne
  have hkeys : (keysIn (lit "/") (lit "/") repeatedRecords).take 2 = [⟨lit "f", none, lit "x"⟩, ⟨lit "g", none, lit "x"⟩] := by
    decide +kernel
  rw [hkeys] at hk'
  rcases List.mem_pair.mp hk' with rfl | rfl
  · exact apart_of_not_prefix (by decide) (by decide)
  · exact absurd rfl hne

/-- The same diagnostic by itself, and after one in another file whose path and text run together into the same octets. -/
theorem fingerprints_run_together :
    let alone : List Record := [{ file := lit "ab", diagnostics := [diagnosticOf (lit "c")] }]
    let after : List Record := { file := lit "a", diagnostics := [diagnosticOf (lit "bc")] } :: alone
    Set.InjOn taggedHash {o | o ∈ digestedIn taggedHash (lit "/") (lit "/") after} ∧
    (keysIn (lit "/") (lit "/") after)[1]? = (keysIn (lit "/") (lit "/") alone)[0]? ∧
    (keysIn (lit "/") (lit "/") after)[0]? ≠ (keysIn (lit "/") (lit "/") after)[1]? ∧
    ∃ issues issues', ofRecords taggedHash (lit "/") (lit "/") [] alone = .ok issues ∧
      ofRecords taggedHash (lit "/") (lit "/") [] after = .ok issues' ∧
      (issues.map Issue.fingerprint)[0]? = some (lit "#abc") ∧ (issues'.map Issue.fingerprint)[1]? = some (lit "#abc#abc") := by
  intro alone after
  have hreportable : ∀ r ∈ after, IsReportable (lit "/") (lit "/") r := by
    have hafter : ∀ r ∈ after, r.file ≠ [] ∧ (∀ c ∈ r.file, Charset.utf8.encodes c = true) ∧
      ∀ d ∈ r.diagnostics, ∀ c ∈ d.text, Charset.utf8.encodes c = true := by decide
    exact fun r hr => isReportable_of_encodes (by decide) (hafter r hr).1 (hafter r hr).2.1 (hafter r hr).2.2
  obtain ⟨issues, hissues⟩ : ∃ issues, ofRecords taggedHash (lit "/") (lit "/") [] alone = .ok issues :=
    exists_ofRecords (fun r hr => hreportable r (List.mem_cons_of_mem _ hr)) []
  obtain ⟨issues', hissues'⟩ : ∃ issues, ofRecords taggedHash (lit "/") (lit "/") [] after = .ok issues :=
    exists_ofRecords hreportable []
  refine ⟨taggedHash_injective.injOn, by decide +kernel, by decide +kernel, issues, issues', hissues, hissues', ?_, ?_⟩
  · rw [(ofRecords_eq_ok hissues).2]
    decide +kernel
  · rw [(ofRecords_eq_ok hissues').2]
    decide +kernel

end Issue

end DiagnosticsClient
