import DiagnosticsClient.File.Path
import Mathlib.Data.List.TakeWhile
/-
The way from a directory to a path, and along it.

An absolute path in normal form has parts that lead down and no others (`IsDown`), so the
way to it goes up from the directory as far as the two have nothing in common and then
down (`foldl_addPart_wayBetween`). Who goes that way from the directory gets to the path,
but for the slashes in front, which no way changes (`normalize_join_relative`). A way is
never absolute (`isAbsolute_relative`).
-/
namespace DiagnosticsClient

namespace Path

/-- The slashes a path starts with. -/
def leading (p : Text) : Text := p.takeWhile (· = slash)

/-- A path that starts with two slashes and no more. -/
def IsDoubled (p : Text) : Prop := (leading p).length = 2

instance (p : Text) : Decidable (IsDoubled p) := inferInstanceAs (Decidable (_ = _))

/-- What can stand between two slashes. -/
def IsPart (part : Text) : Prop := part ≠ [] ∧ slash ∉ part

/-- A part that leads down by one directory. -/
structure IsDown (part : Text) : Prop where
  isPart : IsPart part
  ne_dot : part ≠ dot
  ne_doubleDot : part ≠ doubleDot

variable {workingDirectory directory p q : Text} {ps before origin target : List Text} {n : Nat}

/-! ## Parts -/

theorem parts_append_slash (p q : Text) : parts (p ++ slash :: q) = parts p ++ parts q := by
  rw [parts, List.splitOn_append_cons_self, List.filter_append]
  rfl

theorem isPart_of_mem_parts (h : q ∈ parts p) : IsPart q := by
  obtain ⟨hsplit, hne⟩ := List.mem_filter.mp h
  refine ⟨of_decide_eq_true hne, ?_⟩
  clear h hne
  induction p generalizing q with
  | nil =>
    rw [List.mem_singleton.mp hsplit]
    exact List.not_mem_nil
  | cons a p ih =>
    rw [List.splitOn_cons_eq_if_modifyHead] at hsplit
    split at hsplit
    · rcases List.mem_cons.mp hsplit with rfl | hsplit
      · exact List.not_mem_nil
      · exact ih hsplit
    · next ha =>
      have ha : slash ≠ a := fun heq => ha (heq ▸ beq_self_eq_true slash)
      cases hp : p.splitOn slash with
      | nil =>
        rw [hp] at hsplit
        cases hsplit
      | cons r rs =>
        rw [hp] at hsplit ih
        rcases List.mem_cons.mp hsplit with rfl | hsplit
        · exact List.not_mem_cons_of_ne_of_not_mem ha (ih List.mem_cons_self)
        · exact ih (List.mem_cons_of_mem _ hsplit)

/-- Parts that are joined are found again. -/
theorem parts_joined (h : ∀ q ∈ ps, IsPart q) : parts (Text.join [slash] ps) = ps := by
  cases ps with
  | nil => rfl
  | cons q qs =>
    have hjoin : ∀ (q : Text) (qs : List Text), Text.join [slash] (q :: qs) = [slash].intercalate (q :: qs) := by
      intro q qs
      induction qs generalizing q with
      | nil => simp [Text.join, List.intercalate]
      | cons r rs ih => simp [Text.join, ih, List.intercalate]
    rw [parts, hjoin, List.splitOn_intercalate slash (fun q hq => (h q hq).2) (List.cons_ne_nil q qs)]
    exact List.filter_eq_self.mpr fun q hq => decide_eq_true (h q hq).1

/-- A relative path seen from a directory has its parts after those of the directory. -/
theorem parts_join (hq : isAbsolute q = false) : parts (join p q) = parts p ++ parts q := by
  unfold join
  rw [hq]
  split
  · next hif => cases hif
  · split
    · next hend =>
      rcases (Bool.or_eq_true _ _).mp hend with hnil | hlast
      · rw [of_decide_eq_true hnil]
        rfl
      · obtain ⟨init, rfl⟩ := List.getLast?_eq_some_iff.mp (eq_of_beq hlast)
        rw [List.append_assoc, List.singleton_append, parts_append_slash, parts_append_slash]
        exact congrArg (· ++ parts q) (List.append_nil _).symm
    · exact parts_append_slash p q

/-! ## Going along parts -/

/-- Parts that lead down are gone along one after the other. -/
theorem foldl_addPart_down (h : ∀ q ∈ ps, IsDown q) : ps.foldl (addPart true) before = ps.reverse ++ before := by
  induction ps generalizing before with
  | nil => rfl
  | cons q ps ih =>
    obtain ⟨hq, hps⟩ := List.forall_mem_cons.mp h
    have hadd : addPart true before q = q :: before := by simp [addPart, hq.ne_dot, hq.ne_doubleDot]
    rw [List.foldl_cons, hadd, ih hps, List.reverse_cons, List.append_assoc]
    rfl

theorem addPart_doubleDot {last : Text} (h : IsDown last) : addPart true (last :: before) doubleDot = before := by
  have hdots : doubleDot ≠ dot := by decide
  simp [addPart, hdots, h.ne_doubleDot]

/-- Each double dot takes away the part that was gone along last. -/
theorem foldl_addPart_up (h : ∀ q ∈ before, IsDown q) (hn : n ≤ before.length) :
    (List.replicate n doubleDot).foldl (addPart true) before = before.drop n := by
  induction n generalizing before with
  | zero => rfl
  | succ n ih =>
    cases before with
    | nil => cases hn
    | cons last rest =>
      obtain ⟨hlast, hrest⟩ := List.forall_mem_cons.mp h
      rw [List.replicate_succ, List.foldl_cons, addPart_doubleDot hlast]
      exact ih hrest (Nat.le_of_succ_le_succ hn)

/-- From the root, one part more leads down as far as there is something to go to. -/
theorem isDown_addPart (h : ∀ q ∈ before, IsDown q) (hp : IsPart p) : ∀ q ∈ addPart true before p, IsDown q := by
  unfold addPart
  split
  · exact h
  · next hdot =>
    split
    · next hdouble => exact List.forall_mem_cons.mpr ⟨⟨hp, hdot, hdouble⟩, h⟩
    · cases before with
      | nil => exact h
      | cons last rest =>
        obtain ⟨hlast, hrest⟩ := List.forall_mem_cons.mp h
        simp only [hlast.ne_doubleDot, if_false]
        exact hrest

theorem isDown_foldl_addPart (h : ∀ q ∈ before, IsDown q) (hps : ∀ q ∈ ps, IsPart q) :
    ∀ q ∈ ps.foldl (addPart true) before, IsDown q := by
  induction ps generalizing before with
  | nil => exact h
  | cons r rs ih =>
    obtain ⟨hr, hrs⟩ := List.forall_mem_cons.mp hps
    exact ih (isDown_addPart h hr) hrs

/-- The parts of an absolute path in normal form lead down. -/
theorem isDown_normalParts (hp : isAbsolute p = true) : ∀ q ∈ normalParts p, IsDown q := by
  intro q hq
  rw [normalParts, hp, List.mem_reverse] at hq
  exact isDown_foldl_addPart (List.forall_mem_nil _) (fun r hr => isPart_of_mem_parts hr) q hq

/-! ## Slashes in front -/

theorem isAbsolute_iff : isAbsolute p = true ↔ ∃ rest, p = slash :: rest := by
  cases p with
  | nil => simp [isAbsolute]
  | cons c rest => simp [isAbsolute]

/-- Parts that are joined start with no slash. -/
theorem isAbsolute_joined (h : ∀ q ∈ ps, IsPart q) : isAbsolute (Text.join [slash] ps) = false := by
  cases ps with
  | nil => rfl
  | cons q qs =>
    obtain ⟨hq, -⟩ := List.forall_mem_cons.mp h
    obtain ⟨c, q, rfl⟩ := List.exists_cons_of_ne_nil hq.1
    have hc : c ≠ slash := fun heq => hq.2 (heq ▸ List.mem_cons_self)
    cases qs <;> simpa [isAbsolute, Text.join] using hc

theorem isAbsolute_eq : isAbsolute p = !(leading p).isEmpty := by
  cases p with
  | nil => rfl
  | cons c p => by_cases hc : c = slash <;> simp [isAbsolute, leading, hc]

/-- The slashes in front of an absolute path in normal form: two if there are just two, and else one. -/
theorem rootOf_eq (hp : isAbsolute p = true) : rootOf p = if IsDoubled p then [slash, slash] else [slash] := by
  have hall : leading p = List.replicate (leading p).length slash :=
    List.eq_replicate_of_mem fun c hc => of_decide_eq_true (List.mem_takeWhile_imp (p := (· = slash)) hc)
  have hroot : rootOf p = if IsDoubled p then leading p else (leading p).take 1 := rfl
  have hne : (leading p).length ≠ 0 := by
    rw [isAbsolute_eq] at hp
    simpa using hp
  rw [hroot]
  split
  · next htwo => rw [hall, show (leading p).length = 2 from htwo]; rfl
  · obtain ⟨n, hn⟩ := Nat.exists_eq_succ_of_ne_zero hne
    rw [hall, hn]
    rfl

/-- What comes after a path and starts with no slash changes nothing about the slashes in front of it. -/
theorem leading_append (hq : isAbsolute q = false) : leading (p ++ q) = leading p := by
  induction p with
  | nil =>
    cases q with
    | nil => rfl
    | cons c q =>
      have hc : c ≠ slash := by simpa [isAbsolute] using hq
      exact List.takeWhile_cons_of_neg (by simpa using hc)
  | cons c p ih =>
    unfold leading at ih ⊢
    rw [List.cons_append, List.takeWhile_cons, List.takeWhile_cons, ih]

/-- A relative path seen from a directory has the slashes of the directory in front. -/
theorem leading_join (hp : isAbsolute p = true) (hq : isAbsolute q = false) : leading (join p q) = leading p := by
  unfold join
  rw [hq]
  split
  · next hif => cases hif
  · split
    · exact leading_append hq
    · next hend =>
      have hlast : p.getLast? ≠ some slash := fun hlast => hend (by simp [hlast])
      have hsome : ¬ ∀ c ∈ p, c = slash := fun hall => by
        obtain ⟨rest, rfl⟩ := isAbsolute_iff.mp hp
        refine hlast ?_
        rw [List.getLast?_eq_some_getLast (List.cons_ne_nil _ _), hall _ (List.getLast_mem _)]
      have hends : (p.takeWhile (· = slash)).length ≠ p.length := fun hlength => hsome fun c hc => by
        rw [← (List.takeWhile_sublist _).eq_of_length hlength] at hc
        exact of_decide_eq_true (List.mem_takeWhile_imp (p := (· = slash)) hc)
      rw [leading, List.takeWhile_append, if_neg hends]
      rfl

theorem rootOf_congr (h : leading p = leading q) : rootOf p = rootOf q := by
  rw [rootOf, rootOf, show p.takeWhile (· = slash) = q.takeWhile (· = slash) from h]

theorem isAbsolute_congr (h : leading p = leading q) : isAbsolute p = isAbsolute q := by
  rw [isAbsolute_eq, isAbsolute_eq, h]

/-! ## Absolute paths in normal form -/

theorem normalize_of_isAbsolute (hp : isAbsolute p = true) : normalize p = rootOf p ++ Text.join [slash] (normalParts p) := by
  have hne : rootOf p ++ Text.join [slash] (normalParts p) ≠ [] := by
    rw [rootOf_eq hp]
    split <;> exact List.cons_ne_nil _ _
  unfold normalize
  split
  · next h => exact absurd h hne
  · rfl

theorem parts_normalize (hp : isAbsolute p = true) : parts (normalize p) = normalParts p := by
  have hdown := isDown_normalParts hp
  rw [normalize_of_isAbsolute hp, rootOf_eq hp]
  have hjoined : parts (Text.join [slash] (normalParts p)) = normalParts p := parts_joined fun q hq => (hdown q hq).isPart
  split
  · exact (parts_append_slash [] _).trans ((parts_append_slash [] _).trans hjoined)
  · exact (parts_append_slash [] _).trans hjoined

theorem leading_normalize (hp : isAbsolute p = true) : leading (normalize p) = rootOf p := by
  have hdown := isDown_normalParts hp
  rw [normalize_of_isAbsolute hp, leading_append (isAbsolute_joined fun q hq => (hdown q hq).isPart),
    rootOf_eq hp]
  split <;> rfl

/-- The way from a directory to a path: up as far as they have nothing in common, and down from there. -/
def wayBetween (origin target : List Text) : List Text :=
  List.replicate (origin.length - commonLength origin target) doubleDot ++ target.drop (commonLength origin target)

theorem commonLength_le (origin target : List Text) : commonLength origin target ≤ origin.length := by
  fun_induction commonLength origin target <;> simp_all

theorem take_commonLength (origin target : List Text) :
    origin.take (commonLength origin target) = target.take (commonLength origin target) := by
  fun_induction commonLength origin target <;> simp_all

/-- **Who goes the way from the parts of one place to those of another gets there.** -/
theorem foldl_addPart_wayBetween (ho : ∀ q ∈ origin, IsDown q) (ht : ∀ q ∈ target, IsDown q) :
    (wayBetween origin target).foldl (addPart true) origin.reverse = target.reverse := by
  have hdrop : ∀ q ∈ target.drop (commonLength origin target), IsDown q := fun q hq => ht q (List.mem_of_mem_drop hq)
  rw [wayBetween, List.foldl_append, foldl_addPart_up (fun q hq => ho q (List.mem_reverse.mp hq)) (by simp),
    foldl_addPart_down hdrop, List.drop_reverse, Nat.sub_sub_self (commonLength_le origin target), take_commonLength,
    ← List.reverse_append, List.take_append_drop]

/-! ## The way from a directory to a path -/

theorem isAbsolute_seen (hw : isAbsolute workingDirectory = true) (p : Text) :
    isAbsolute (if isAbsolute p then p else join workingDirectory p) = true := by
  split
  · assumption
  · next hp => exact (isAbsolute_congr (leading_join hw (Bool.eq_false_iff.mpr hp))).trans hw

theorem isDown_parts_absolute (hw : isAbsolute workingDirectory = true) (p : Text) :
    ∀ q ∈ parts (absolute workingDirectory p), IsDown q := by
  rw [absolute, parts_normalize (isAbsolute_seen hw p)]
  exact isDown_normalParts (isAbsolute_seen hw p)

theorem isAbsolute_normalize (hp : isAbsolute p = true) : isAbsolute (normalize p) = true := by
  rw [isAbsolute_eq, leading_normalize hp, rootOf_eq hp]
  by_cases hd : IsDoubled p <;> simp [hd]

theorem rootOf_normalize (hp : isAbsolute p = true) : rootOf (normalize p) = rootOf p := by
  have hroot : rootOf (normalize p) =
      if (leading (normalize p)).length = 2 then leading (normalize p) else (leading (normalize p)).take 1 := rfl
  rw [hroot, leading_normalize hp, rootOf_eq hp]
  by_cases hd : IsDoubled p <;> simp [hd]

theorem isAbsolute_absolute (hw : isAbsolute workingDirectory = true) (p : Text) :
    isAbsolute (absolute workingDirectory p) = true := isAbsolute_normalize (isAbsolute_seen hw p)

/-- The slashes in front of the absolute form of a path are its own or those of the working directory. -/
theorem rootOf_absolute (hw : isAbsolute workingDirectory = true) (p : Text) :
    rootOf (absolute workingDirectory p) = if isAbsolute p then rootOf p else rootOf workingDirectory := by
  rw [absolute, rootOf_normalize (isAbsolute_seen hw p)]
  split
  · rfl
  · next hp => exact rootOf_congr (leading_join hw (Bool.eq_false_iff.mpr hp))

theorem absolute_eq (hw : isAbsolute workingDirectory = true) (p : Text) : absolute workingDirectory p =
    rootOf (absolute workingDirectory p) ++ Text.join [slash] (parts (absolute workingDirectory p)) := by
  have hseen := isAbsolute_seen hw p
  rw [absolute, rootOf_normalize hseen, parts_normalize hseen]
  exact normalize_of_isAbsolute hseen

/-- The way from a directory to a path as it is written: a dot if there is nowhere to go. -/
theorem relative_cases (workingDirectory directory p : Text) :
    wayBetween (parts (absolute workingDirectory directory)) (parts (absolute workingDirectory p)) = [] ∧
      relative workingDirectory directory p = dot ∨
    relative workingDirectory directory p =
      Text.join [slash] (wayBetween (parts (absolute workingDirectory directory)) (parts (absolute workingDirectory p))) := by
  unfold relative wayBetween
  dsimp only
  split
  · next h => exact .inl ⟨h, rfl⟩
  · exact .inr rfl

section way

variable (hw : isAbsolute workingDirectory = true) (directory p : Text)

include hw

theorem isPart_of_mem_wayBetween {q : Text}
    (h : q ∈ wayBetween (parts (absolute workingDirectory directory)) (parts (absolute workingDirectory p))) : IsPart q := by
  rcases List.mem_append.mp h with h | h
  · rw [List.eq_of_mem_replicate h]
    exact ⟨by decide, by decide⟩
  · exact (isDown_parts_absolute hw p q (List.mem_of_mem_drop h)).isPart

/-- **A way is never absolute.** -/
theorem isAbsolute_relative : isAbsolute (relative workingDirectory directory p) = false := by
  rcases relative_cases workingDirectory directory p with ⟨-, heq⟩ | heq <;> rw [heq]
  · rfl
  · exact isAbsolute_joined fun q hq => isPart_of_mem_wayBetween hw directory p hq

/-- To go along a way is to go along its parts. -/
theorem foldl_parts_relative (before : List Text) :
    (parts (relative workingDirectory directory p)).foldl (addPart true) before =
      (wayBetween (parts (absolute workingDirectory directory)) (parts (absolute workingDirectory p))).foldl (addPart true)
        before := by
  rcases relative_cases workingDirectory directory p with ⟨hnil, heq⟩ | heq <;> rw [heq]
  · rw [hnil]
    rfl
  · rw [parts_joined fun q hq => isPart_of_mem_wayBetween hw directory p hq]

/-- The way from a directory to a path, seen from that directory, is in normal form the path itself, but for the slashes in
front, which are those of the directory. -/
theorem normalize_join_relative :
    normalize (join (absolute workingDirectory directory) (relative workingDirectory directory p)) =
      rootOf (absolute workingDirectory directory) ++ Text.join [slash] (parts (absolute workingDirectory p)) := by
  have hdirectory := isAbsolute_absolute hw directory
  have hway := isAbsolute_relative hw directory p
  have hslashes := leading_join hdirectory hway
  have habsolute := (isAbsolute_congr hslashes).trans hdirectory
  have hparts : normalParts (join (absolute workingDirectory directory) (relative workingDirectory directory p)) =
      parts (absolute workingDirectory p) := by
    have ho := isDown_parts_absolute hw directory
    rw [normalParts, habsolute, parts_join hway, List.foldl_append, foldl_addPart_down ho, List.append_nil,
      foldl_parts_relative hw directory p, foldl_addPart_wayBetween ho (isDown_parts_absolute hw p), List.reverse_reverse]
  rw [normalize_of_isAbsolute habsolute, hparts, rootOf_congr hslashes]

/-- **Who goes the way from a directory to a path gets to the path**, if and only if both have the same slashes in front. -/
theorem normalize_join_relative_eq_iff :
    normalize (join (absolute workingDirectory directory) (relative workingDirectory directory p)) = absolute workingDirectory p ↔
      rootOf (absolute workingDirectory directory) = rootOf (absolute workingDirectory p) := by
  rw [normalize_join_relative hw directory p]
  constructor
  · exact fun h => List.append_cancel_right (h.trans (absolute_eq hw p))
  · intro h
    rw [h]
    exact (absolute_eq hw p).symm

variable {directory p} in
/-- Two places of which none is given with just two slashes have the same slashes in front, unless the working directory has
two and only one of the places is seen from it. -/
theorem rootOf_absolute_eq_iff (hd : ¬ IsDoubled directory) (hp : ¬ IsDoubled p) :
    rootOf (absolute workingDirectory directory) = rootOf (absolute workingDirectory p) ↔
      (IsDoubled workingDirectory → isAbsolute p = isAbsolute directory) := by
  have hone : ∀ {q : Text}, isAbsolute q = true → ¬ IsDoubled q → rootOf q = [slash] := fun hq hn =>
    (rootOf_eq hq).trans (if_neg hn)
  rw [rootOf_absolute hw, rootOf_absolute hw, rootOf_eq hw]
  cases hda : isAbsolute directory <;> cases hpa : isAbsolute p <;> by_cases hwd : IsDoubled workingDirectory
  all_goals simp [*]

end way

end Path

end DiagnosticsClient
