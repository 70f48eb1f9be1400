import DiagnosticsClient.File.Access
import DiagnosticsClient.Proofs.Text.Utf8
import DiagnosticsClient.Source.Fragment
/-
The lines of a file, and the runs of them that are shown.

A text is cut in one pass (`IsCut`): a line ends at a line feed, at a carriage return, or
at both together, and nowhere else. Making all line ends line feeds and then cutting at
these gives the same lines (`IsCut.lines`), whatever mixture of line ends the text has.
A fragment is the lines whose numbers are within the reach of a diagnostic
(`zipIdx_sliceLines`), and so every file has the fragments it should
(`fragments_within_reach`).
-/
namespace DiagnosticsClient

namespace Source

/-! ## Cutting in one pass -/

/-- What ends a line. -/
inductive EndsLine : Text → Prop
  | lineFeed : EndsLine [pt '\n']
  | carriageReturn : EndsLine [pt '\r']
  | both : EndsLine [pt '\r', pt '\n']

/-- Nothing in a text ends a line. -/
def IsWhole (t : Text) : Prop := pt '\r' ∉ t ∧ pt '\n' ∉ t

instance (t : Text) : Decidable (IsWhole t) := inferInstanceAs (Decidable (_ ∧ _))

/-- A text is cut into lines, each with what ends it, and a last line that nothing ends. A carriage return before a line
feed ends a line only together with it. -/
inductive IsCut : Text → List (Text × Text) → Text → Prop
  | last {last : Text} (h : IsWhole last) : IsCut last [] last
  | line {line e t last : Text} {ended : List (Text × Text)} (h : IsWhole line) (he : EndsLine e)
      (halone : e = [pt '\r'] → t.head? ≠ some (pt '\n')) (hcut : IsCut t ended last) :
      IsCut (line ++ e ++ t) ((line, e) :: ended) last

/-- The lines of a cut. -/
def linesOf (ended : List (Text × Text)) (last : Text) : List Text := ended.map Prod.fst ++ [last]

variable {t e line last : Text} {ended : List (Text × Text)} {c : CodePoint}

theorem isWhole_nil : IsWhole [] := ⟨List.not_mem_nil, List.not_mem_nil⟩

theorem isWhole_cons_iff : IsWhole (c :: t) ↔ (c ≠ pt '\r' ∧ c ≠ pt '\n') ∧ IsWhole t := by
  simp only [IsWhole, List.mem_cons, not_or, ne_eq, @eq_comm _ c]
  exact and_and_and_comm

/-- A sign that ends no line goes in front of the first line. -/
theorem IsCut.cons (h : IsCut t ended last) (hc : c ≠ pt '\r' ∧ c ≠ pt '\n') :
    ∃ ended' last', IsCut (c :: t) ended' last' := by
  cases h with
  | last h => exact ⟨[], _, .last (isWhole_cons_iff.mpr ⟨hc, h⟩)⟩
  | line h he halone hcut => exact ⟨_, _, .line (isWhole_cons_iff.mpr ⟨hc, h⟩) he halone hcut⟩

/-- An empty line goes in front of the others. -/
theorem IsCut.blank (h : IsCut t ended last) (he : EndsLine e) (halone : e = [pt '\r'] → t.head? ≠ some (pt '\n')) :
    IsCut (e ++ t) (([], e) :: ended) last :=
  .line isWhole_nil he halone h

theorem isCut_nil : IsCut [] [] [] := .last isWhole_nil

/-- Every text can be cut. -/
theorem exists_isCut (t : Text) : ∃ ended last, IsCut t ended last := by
  fun_induction unifyLineEnds t with
  | case1 => exact ⟨_, _, isCut_nil⟩
  | case2 => exact ⟨_, _, isCut_nil.blank .carriageReturn (by simp)⟩
  | case3 c hc =>
    by_cases hfeed : c = pt '\n'
    · exact hfeed ▸ ⟨_, _, isCut_nil.blank .lineFeed (by simp)⟩
    · exact isCut_nil.cons ⟨hc, hfeed⟩
  | case4 rest ih =>
    obtain ⟨ended, last, h⟩ := ih
    exact ⟨_, _, h.blank .both (by simp)⟩
  | case5 d rest hd ih =>
    obtain ⟨ended, last, h⟩ := ih
    exact ⟨_, _, h.blank .carriageReturn (by simpa using hd)⟩
  | case6 c d rest hc ih =>
    obtain ⟨ended, last, h⟩ := ih
    by_cases hfeed : c = pt '\n'
    · exact hfeed ▸ ⟨_, _, h.blank .lineFeed (fun h => by cases h)⟩
    · exact h.cons ⟨hc, hfeed⟩

/-- A cut loses nothing. -/
theorem IsCut.pieces (h : IsCut t ended last) : t = ended.flatMap (fun p => p.1 ++ p.2) ++ last := by
  induction h with
  | last => rfl
  | line _ _ _ _ ih => rw [List.flatMap_cons, List.append_assoc (_ ++ _), ← ih]

theorem IsCut.isWhole (h : IsCut t ended last) : ∀ l ∈ linesOf ended last, IsWhole l := by
  induction h with
  | last h => simpa [linesOf] using h
  | line h _ _ _ ih => exact List.forall_mem_cons.mpr ⟨h, ih⟩

/-- The lines of a cut with line feeds between them. -/
theorem join_linesOf (ended : List (Text × Text)) (last : Text) :
    Text.join [pt '\n'] (linesOf ended last) = ended.flatMap (fun p => p.1 ++ [pt '\n']) ++ last := by
  induction ended with
  | nil => rfl
  | cons p ended ih =>
    have hjoin : ∀ ls : List Text, ls ≠ [] → Text.join [pt '\n'] (p.1 :: ls) = p.1 ++ [pt '\n'] ++ Text.join [pt '\n'] ls :=
      fun ls hls => by cases ls with | nil => exact absurd rfl hls | cons => rfl
    rw [show linesOf (p :: ended) last = p.1 :: linesOf ended last from rfl, hjoin _ (by simp [linesOf]), ih,
      List.flatMap_cons, List.append_assoc (p.1 ++ _)]

/-! ## Cutting in two passes -/

theorem unifyLineEnds_cons (hc : c ≠ pt '\r') (t : Text) : unifyLineEnds (c :: t) = c :: unifyLineEnds t := by
  cases t <;> simp [unifyLineEnds, hc]

theorem unifyLineEnds_append (h : IsWhole line) (t : Text) : unifyLineEnds (line ++ t) = line ++ unifyLineEnds t := by
  induction line with
  | nil => rfl
  | cons c line ih =>
    obtain ⟨hc, hline⟩ := isWhole_cons_iff.mp h
    rw [List.cons_append, unifyLineEnds_cons hc.1, ih hline, List.cons_append]

/-- Each line end becomes one line feed. -/
theorem unifyLineEnds_lineEnd (he : EndsLine e) (halone : e = [pt '\r'] → t.head? ≠ some (pt '\n')) :
    unifyLineEnds (e ++ t) = pt '\n' :: unifyLineEnds t := by
  cases he with
  | lineFeed => exact unifyLineEnds_cons (by decide) t
  | carriageReturn =>
    cases t with
    | nil => simp [unifyLineEnds]
    | cons d t =>
      have hd : d ≠ pt '\n' := by simpa using halone rfl
      simp [unifyLineEnds, hd]
  | both => simp [unifyLineEnds]

/-- **Cutting in two passes gives the lines of a cut in one.** -/
theorem IsCut.lines (h : IsCut t ended last) : lines t = linesOf ended last := by
  unfold Source.lines cutAtLineFeeds
  induction h with
  | @last last h =>
    have hsame : unifyLineEnds last = last := by simpa [unifyLineEnds] using unifyLineEnds_append h []
    rw [hsame, List.splitOn_eq_singleton h.2]
    rfl
  | line h he halone _ ih =>
    rw [List.append_assoc, unifyLineEnds_append h, unifyLineEnds_lineEnd he halone, List.splitOn_append_cons_self,
      List.splitOn_eq_singleton h.2, ih]
    rfl

/-! ## Fragments -/

/-- The lines from one number to another, with their numbers; the first line has the number one. -/
def between (lines : List Text) (first last : Int) : List (Text × Nat) :=
  (lines.zipIdx 1).filter fun p => first ≤ p.2 ∧ p.2 ≤ last

variable {lines : List Text} {start stop : Int} {context : Context}

/-- Whether a diagnostic is about some lines, the first of them first, and its context is no less than nothing. -/
structure Spans (start stop : Int) (context : Context) : Prop where
  first : 1 ≤ start
  ordered : start ≤ stop
  before : 0 ≤ context.before
  after : 0 ≤ context.after

theorem filter_zipIdx_lt (lines : List Text) (k m : Nat) :
    (lines.zipIdx k).filter (fun p => p.2 < m + k) = (lines.take m).zipIdx k := by
  have hsplit : lines.zipIdx k = (lines.take m).zipIdx k ++ (lines.drop m).zipIdx (k + (lines.take m).length) := by
    rw [← List.zipIdx_append, List.take_append_drop]
  rw [hsplit, List.filter_append, List.filter_eq_self.mpr, List.filter_eq_nil_iff.mpr, List.append_nil]
  · intro p hp
    have hle := List.le_snd_of_mem_zipIdx hp
    have hmem := List.length_pos_of_mem (List.fst_mem_of_mem_zipIdx hp)
    simp only [List.length_take, List.length_drop, decide_eq_true_eq] at hle hmem ⊢
    omega
  · intro p hp
    have hlt := List.snd_lt_of_mem_zipIdx hp
    simp only [List.length_take, decide_eq_true_eq] at hlt ⊢
    omega

theorem filter_zipIdx_le (lines : List Text) (k m : Nat) :
    (lines.zipIdx k).filter (fun p => m + k ≤ p.2) = (lines.drop m).zipIdx (m + k) := by
  have hsplit : lines.zipIdx k = (lines.take m).zipIdx k ++ (lines.drop m).zipIdx (k + (lines.take m).length) := by
    rw [← List.zipIdx_append, List.take_append_drop]
  rw [hsplit, List.filter_append, List.filter_eq_nil_iff.mpr, List.nil_append]
  · rcases Nat.lt_or_ge m lines.length with hm | hm
    · rw [List.length_take, Nat.min_eq_left (Nat.le_of_lt hm), Nat.add_comm k m, List.filter_eq_self.mpr]
      intro p hp
      simpa using List.le_snd_of_mem_zipIdx hp
    · rw [List.drop_of_length_le hm]
      rfl
  · intro p hp
    have hlt := List.snd_lt_of_mem_zipIdx hp
    simp only [List.length_take, decide_eq_true_eq] at hlt ⊢
    omega

/-- **A fragment is the lines within the reach of a diagnostic**, numbered. -/
theorem zipIdx_sliceLines (h : Spans start stop context) :
    (sliceLines lines start stop context).zipIdx (max 1 (start - context.before)).toNat =
      between lines (start - context.before) (stop + context.after) := by
  obtain ⟨hfirst, hordered, hbefore, hafter⟩ := h
  -- how many lines are left out in front, and how many are there up to the last one
  obtain ⟨a, ha⟩ : ∃ a : Nat, (a : Int) = max (start - 1 - context.before) 0 := ⟨_, Int.toNat_of_nonneg (by omega)⟩
  obtain ⟨b, hb⟩ : ∃ b : Nat, (b : Int) = stop + context.after := ⟨_, Int.toNat_of_nonneg (by omega)⟩
  have hslice : sliceLines lines start stop context = (lines.take b).drop a := by
    unfold sliceLines
    rw [← ha, ← hb]
    dsimp only
    rw [if_neg (by omega), Int.toNat_natCast]
    rcases Nat.le_total b lines.length with hle | hle
    · rw [show (min (b : Int) lines.length).toNat = b by omega]
    · rw [show (min (b : Int) lines.length).toNat = lines.length by omega, List.take_length, List.take_of_length_le hle]
  rw [hslice, show (max 1 (start - context.before)).toNat = a + 1 by omega, ← filter_zipIdx_le, ← filter_zipIdx_lt,
    List.filter_filter, between]
  refine List.filter_congr fun p hp => ?_
  have := List.le_snd_of_mem_zipIdx hp
  rw [← Bool.decide_and]
  exact decide_eq_decide.mpr (by omega)

/-- No line has a number before one, or after the number of lines. -/
theorem between_clamped (lines : List Text) (first last : Int) :
    between lines (max 1 first) (min lines.length last) = between lines first last := by
  refine List.filter_congr fun p hp => ?_
  have hge := List.le_snd_of_mem_zipIdx hp
  have hlt := List.snd_lt_add_of_mem_zipIdx hp
  exact decide_eq_decide.mpr (by omega)

/-- **Every file has the fragments it should.** There is one for each diagnostic: the run of lines from the first to the
last within its reach. The lines are those of the content cut in one pass, and no other cut of it has others. -/
theorem fragments_within_reach {tree : FileTree} {path : Text} {octets : Bytes} {content : Text}
    (hread : tree.read path = .ok octets) (hcontent : Charset.utf8.decode octets = .ok content)
    {ds : List Diagnostic} (hds : ds ≠ []) (hspans : ∀ d ∈ ds, Spans d.start.line d.stop.line context) :
    (∃ ended last, IsCut content ended last) ∧ ∀ ended last, IsCut content ended last →
      fragmentsOf (tree.readText path) ds context = .ok (ds.map fun d =>
        (between (linesOf ended last) (max 1 (d.start.line - context.before))
          (min (linesOf ended last).length (d.stop.line + context.after))).map Prod.fst) ∧
      (∀ l ∈ linesOf ended last, pt '\r' ∉ l ∧ pt '\n' ∉ l) ∧
      content = ended.flatMap (fun p => p.1 ++ p.2) ++ last ∧
      Text.join [pt '\n'] (linesOf ended last) = ended.flatMap (fun p => p.1 ++ [pt '\n']) ++ last := by
  refine ⟨exists_isCut content, fun ended last hcut => ⟨?_, hcut.isWhole, hcut.pieces, join_linesOf ended last⟩⟩
  have htext : tree.readText path = .ok content := by
    simp only [FileTree.readText, hread, hcontent, bind, Except.bind]
    rfl
  rw [fragmentsOf, htext, if_neg (by simpa using hds), ← hcut.lines]
  refine congrArg Except.ok (List.map_congr_left fun d hd => ?_)
  have h := hspans d hd
  rw [between_clamped, ← zipIdx_sliceLines h, List.zipIdx_map_fst]
  rfl

/-- A tree with one file, whose lines `1`, an empty one, `3`, `4` and `5` end in all the ways there are. -/
def mixedTree : FileTree where root := [(lit "a", .file [49, 13, 13, 10, 51, 10, 52, 13, 53])]

theorem isCut_mixed :
    IsCut (lit "1\r\r\n3\n4\r5")
      [(lit "1", [pt '\r']), ([], [pt '\r', pt '\n']), (lit "3", [pt '\n']), (lit "4", [pt '\r'])] (lit "5") := by
  have hfive : IsCut (lit "5") [] (lit "5") := .last (by decide)
  have hfour : IsCut (lit "4" ++ [pt '\r'] ++ lit "5") _ _ := .line (by decide) .carriageReturn (by decide) hfive
  have hthree : IsCut (lit "3" ++ [pt '\n'] ++ lit "4\r5") _ _ := .line (by decide) .lineFeed (by decide) hfour
  have hblank : IsCut ([pt '\r', pt '\n'] ++ lit "3\n4\r5") _ _ := hthree.blank .both (by decide)
  have hone : IsCut (lit "1" ++ [pt '\r'] ++ lit "\r\n3\n4\r5") _ _ := .line (by decide) .carriageReturn (by decide) hblank
  exact hone

/-- A diagnostic about the second line and the third. -/
def secondToThird : Diagnostic where
  spelling := .plain
  code := none
  category := lit "error"
  start := { line := 2, offset := 1, extra := [] }
  stop := { line := 3, offset := 1, extra := [] }
  text := []
  extra := []

theorem fragments_of_mixed :
    fragmentsOf (mixedTree.readText (lit "a")) [secondToThird] { before := 7, after := 1 } =
      .ok [[lit "1", [], lit "3", lit "4"]] := by
  have hspans : ∀ d ∈ [secondToThird], Spans d.start.line d.stop.line { before := 7, after := 1 } := by
    simp only [List.mem_singleton, forall_eq]
    exact ⟨by decide, by decide, by decide, by decide⟩
  have hwalk : mixedTree.walk .followed FileTree.linkLimit [] [lit "a"] =
      .ok ⟨[lit "a"], some (.file [49, 13, 13, 10, 51, 10, 52, 13, 53])⟩ := by
    rw [FileTree.walk]
    rfl
  have hstart : mixedTree.walkPath .followed (lit "a") =
      (mixedTree.walk .followed FileTree.linkLimit [] [lit "a"]).mapError fun e => .system (e.about (lit "a")) := by rfl
  have hread : mixedTree.read (lit "a") = .ok [49, 13, 13, 10, 51, 10, 52, 13, 53] := by
    rw [FileTree.read, FileTree.stat, hstart, hwalk]
    rfl
  have hcontent : Charset.utf8.decode [49, 13, 13, 10, 51, 10, 52, 13, 53] = .ok (lit "1\r\r\n3\n4\r5") := by rfl
  obtain ⟨hfragments, -⟩ := (fragments_within_reach hread hcontent (List.cons_ne_nil _ _) hspans).2 _ _ isCut_mixed
  rw [hfragments]
  rfl

end Source

end DiagnosticsClient
