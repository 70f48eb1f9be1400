import DiagnosticsClient.File.Path
/-
The signs of a path.

A path in normal form has no signs but those of the path it was made from, slashes and
dots, and neither has the way from a directory to a path. So what holds of slashes and
dots and of every sign of the paths that are given holds of every sign of the way.
-/
namespace DiagnosticsClient

variable {good : CodePoint → Prop} {p q : Text}

theorem Text.forall_mem_join {sep : Text} {ts : List Text} (hsep : ∀ c ∈ sep, good c) (h : ∀ t ∈ ts, ∀ c ∈ t, good c) :
    ∀ c ∈ Text.join sep ts, good c := by
  induction ts with
  | nil => simp [join]
  | cons t ts ih =>
    have ht := h t List.mem_cons_self
    have hts := ih fun s hs => h s (List.mem_cons_of_mem _ hs)
    cases ts with
    | nil => exact ht
    | cons s ts =>
      intro c hc
      rw [join, List.mem_append, List.mem_append] at hc
      · rcases hc with (hc | hc) | hc
        · exact ht c hc
        · exact hsep c hc
        · exact hts c hc
      · simp

namespace Path

theorem forall_mem_parts (h : ∀ c ∈ p, good c) : ∀ q ∈ parts p, ∀ c ∈ q, good c := by
  have hsplit : ∀ q ∈ p.splitOn slash, ∀ c ∈ q, good c := by
    induction p with
    | nil => simp
    | cons a p ih =>
      have ih := ih fun c hc => h c (List.mem_cons_of_mem _ hc)
      rw [List.splitOn_cons_eq_if_modifyHead]
      split
      · simpa using ih
      · cases hp : p.splitOn slash with
        | nil => simp
        | cons q qs =>
          rw [hp] at ih
          rw [List.modifyHead_cons, List.forall_mem_cons, List.forall_mem_cons]
          exact ⟨⟨h a List.mem_cons_self, ih q List.mem_cons_self⟩, fun r hr => ih r (List.mem_cons_of_mem _ hr)⟩
  exact fun q hq => hsplit q (List.mem_filter.mp hq).1

/-- The parts of a path in normal form are parts of the path. -/
theorem mem_of_mem_foldl_addPart {rooted : Bool} {before ps : List Text} (h : q ∈ ps.foldl (addPart rooted) before) :
    q ∈ before ∨ q ∈ ps := by
  induction ps generalizing before with
  | nil => exact .inl h
  | cons r ps ih =>
    have hadd : ∀ q ∈ addPart rooted before r, q ∈ before ∨ q = r := by
      intro q hq
      unfold addPart at hq
      split at hq
      · exact .inl hq
      · split at hq
        · exact (List.mem_cons.mp hq).symm
        · split at hq
          · split at hq
            · cases hq
            · exact .inr (List.mem_singleton.mp hq)
          · next last rest =>
            split at hq
            · exact (List.mem_cons.mp hq).symm
            · exact .inl (List.mem_cons_of_mem _ hq)
    rcases ih h with h | h
    · exact (hadd q h).imp_right fun (heq : q = r) => heq ▸ List.mem_cons_self
    · exact .inr (List.mem_cons_of_mem _ h)

variable {workingDirectory directory : Text}

theorem forall_mem_normalize (hslash : good slash) (hdot : good (pt '.')) (h : ∀ c ∈ p, good c) :
    ∀ c ∈ normalize p, good c := by
  have hroot : ∀ c ∈ rootOf p, good c := by
    intro c hc
    unfold rootOf at hc
    have hleading : c ∈ p.takeWhile (· = slash) := by
      dsimp only at hc
      split at hc
      · exact hc
      · exact List.mem_of_mem_take hc
    exact h c (List.takeWhile_sublist _ |>.mem hleading)
  have hparts : ∀ q ∈ normalParts p, ∀ c ∈ q, good c := by
    intro q hq
    rcases mem_of_mem_foldl_addPart (List.mem_reverse.mp hq) with hq | hq
    · cases hq
    · exact forall_mem_parts h q hq
  unfold normalize
  split
  · intro c hc
    rw [List.mem_singleton.mp (show c ∈ [pt '.'] from hc)]
    exact hdot
  · intro c hc
    rcases List.mem_append.mp hc with hc | hc
    · exact hroot c hc
    · exact Text.forall_mem_join (fun c hc => List.mem_singleton.mp hc ▸ hslash) hparts c hc

theorem forall_mem_absolute (hslash : good slash) (hdot : good (pt '.')) (hw : ∀ c ∈ workingDirectory, good c)
    (h : ∀ c ∈ p, good c) : ∀ c ∈ absolute workingDirectory p, good c := by
  refine forall_mem_normalize hslash hdot ?_
  split
  · exact h
  · unfold join
    split
    · exact h
    · split
      · exact fun c hc => (List.mem_append.mp hc).elim (hw c) (h c)
      · intro c hc
        rcases List.mem_append.mp hc with hc | hc
        · exact hw c hc
        · rcases List.mem_cons.mp hc with rfl | hc
          · exact hslash
          · exact h c hc

/-- **The way from a directory to a path** has the signs of the working directory and of the path, slashes and dots. -/
theorem forall_mem_relative (hslash : good slash) (hdot : good (pt '.')) (hw : ∀ c ∈ workingDirectory, good c)
    (h : ∀ c ∈ p, good c) : ∀ c ∈ relative workingDirectory directory p, good c := by
  have hdots : ∀ c ∈ doubleDot, good c := fun c hc => by
    rw [List.eq_of_mem_replicate (show c ∈ List.replicate 2 (pt '.') from hc)]
    exact hdot
  have htarget := forall_mem_parts (forall_mem_absolute hslash hdot hw h)
  unfold relative
  dsimp only
  split
  · intro c hc
    rw [List.mem_singleton.mp (show c ∈ [pt '.'] from hc)]
    exact hdot
  · refine Text.forall_mem_join (fun c hc => List.mem_singleton.mp hc ▸ hslash) fun q hq => ?_
    rcases List.mem_append.mp hq with hq | hq
    · rw [List.eq_of_mem_replicate hq]
      exact hdots
    · exact htarget q (List.mem_of_mem_drop hq)

end Path

end DiagnosticsClient
