import DiagnosticsClient.File.Access
import Mathlib.Tactic.SplitIfs
/-
What is written is read again.

A file put where a walk arrives changes nothing else that a walk looks at: every other place has what it had, or is a
directory as it was (`Entries.alike_put`). The walk that found the place comes by no file, so it finds the place again
(`Rewritten.walk`), and there is the file that was put (`read_leaveText`).
-/
namespace DiagnosticsClient

/-- Whether two nodes look the same from the directory they are in: they are the same, or both are directories. -/
inductive FileNode.Alike : Option FileNode → Option FileNode → Prop
  | same (node : Option FileNode) : Alike node node
  | directories (entries entries' : Entries) : Alike (some (.directory entries)) (some (.directory entries'))

/-- Whether a file can be put in the place of something: it is a file, or nothing. -/
def FileNode.IsReplaceable (node : Option FileNode) : Prop := node = none ∨ ∃ content, node = some (.file content)

open FileNode (Alike IsReplaceable)

namespace Entries

variable {entries : Entries} {node : FileNode} {name : Text} {place q : Place}

/-! ## Entries -/

theorem get?_set (entries : Entries) (name : Text) (node : FileNode) (n : Text) :
    get? (set entries name node) n = if n = name then some node else get? entries n := by
  by_cases hn : n = name
  · subst hn
    simp [get?, set]
  · have hrest : List.find? (fun entry => entry.1 == n) (List.filter (fun entry => entry.1 ≠ name) entries) =
        List.find? (fun entry => entry.1 == n) entries := by
      rw [List.find?_filter]
      congr 1
      funext entry
      by_cases he : entry.1 = n
      · simp [he, hn]
      · simp [he]
    have hname : (name == n) = false := by simpa using Ne.symm hn
    simp only [get?, set, List.find?_cons, hname, hrest, if_neg hn]

/-- Beyond a name there is something only if it names a directory. -/
theorem at?_cons (entries : Entries) (name : Text) (rest : Place) :
    at? entries (name :: rest) = match get? entries name with
      | some (.directory inner) => at? inner rest
      | node => if rest = [] then node else none := by
  cases rest with
  | nil => rcases h : get? entries name with _ | _ | _ | _ <;> simp [at?, h]
  | cons next rest => rcases h : get? entries name with _ | _ | _ | _ <;> simp [at?, h]

theorem put_cons (node : FileNode) (entries : Entries) (name : Text) {rest : Place} (h : rest ≠ []) :
    put node entries (name :: rest) = set entries name (.directory (put node (inner entries name) rest)) := by
  cases rest with
  | nil => exact absurd rfl h
  | cons next rest => rfl

theorem at?_concat (entries : Entries) (place : Place) (name : Text) :
    at? entries (place ++ [name]) = match at? entries place with
      | some (.directory inner) => get? inner name
      | _ => none := by
  induction place generalizing entries with
  | nil => rfl
  | cons n rest ih =>
    rw [List.cons_append, at?_cons, at?_cons]
    rcases get? entries n with _ | _ | _ | inner
    · cases rest <;> rfl
    · cases rest <;> rfl
    · cases rest <;> rfl
    · exact ih inner

theorem exists_get?_of_at?_cons {rest : Place} {inside : Entries} (h : at? entries (name :: rest) = some (.directory inside)) :
    ∃ within, get? entries name = some (.directory within) ∧ at? within rest = some (.directory inside) := by
  rw [at?_cons] at h
  split at h
  · next within hname => exact ⟨within, hname, h⟩
  · next node hnode =>
    split_ifs at h
    exact absurd h (hnode inside)

/-- What is put at a place is there. -/
theorem at?_put_self (h : place ≠ []) : at? (put node entries place) place = some node := by
  induction place generalizing entries with
  | nil => exact absurd rfl h
  | cons name rest ih =>
    cases rest with
    | nil => simp [at?, put, get?_set]
    | cons next rest =>
      rw [put_cons node entries name (List.cons_ne_nil _ _), at?_cons, get?_set, if_pos rfl]
      exact ih (List.cons_ne_nil _ _)

/-- **A file that is put in a directory changes no other place**, if it takes the place of a file or of nothing. -/
theorem alike_put {content : Bytes} {name : Text} {inside : Entries} (hinside : at? entries place = some (.directory inside))
    (hfree : IsReplaceable (at? entries (place ++ [name]))) (hq : q ≠ place ++ [name]) :
    Alike (at? entries q) (at? (put (.file content) entries (place ++ [name])) q) := by
  cases q with
  | nil => exact .directories _ _
  | cons n q =>
    induction place generalizing entries n q with
    | nil =>
      rw [List.nil_append, put, at?_cons, at?_cons, get?_set]
      by_cases hn : n = name
      · subst hn
        have hbelow : q ≠ [] := by
          rintro rfl
          exact hq rfl
        rw [List.nil_append, at?] at hfree
        rcases hfree with hnone | ⟨old, hold⟩
        · simp only [hnone, if_true, if_neg hbelow]
          exact .same _
        · simp only [hold, if_true, if_neg hbelow]
          exact .same _
      · rw [if_neg hn]
        exact .same _
    | cons first rest ih =>
      obtain ⟨within, hfirst, hrest⟩ := exists_get?_of_at?_cons hinside
      rw [List.cons_append, put_cons _ _ _ (by simp), at?_cons, at?_cons, get?_set]
      by_cases hn : n = first
      · subst hn
        rw [List.cons_append, at?_cons, hfirst] at hfree
        rw [if_pos rfl, hfirst, inner, hfirst]
        cases q with
        | nil => exact .directories _ _
        | cons m q => exact ih hrest hfree m q fun h => hq (congrArg (n :: ·) h)
      · rw [if_neg hn]
        exact .same _

end Entries

namespace FileTree

variable {t t' : FileTree} {s s' : Standing} {place : Place} {content : Bytes} {path text : Text} {links : Nat}
  {names : List Text} {a : Arrival}

/-! ## Where a walk stands -/

/-- Whether each directory that a walk has come through is in the one before. -/
def Stands (t : FileTree) : Standing → Prop
  | [] => True
  | (name, entries) :: s => (t.entriesIn s).get? name = some (.directory entries) ∧ t.Stands s

theorem placeOf_cons (name : Text) (entries : Entries) (s : Standing) : placeOf ((name, entries) :: s) = placeOf s ++ [name] := by
  simp [placeOf]

theorem placeOf_tail (s : Standing) : placeOf s.tail = (placeOf s).dropLast := by
  cases s with
  | nil => rfl
  | cons entry s => rw [placeOf_cons, List.dropLast_concat, List.tail_cons]

theorem Stands.tail (h : t.Stands s) : t.Stands s.tail := by
  cases s with
  | nil => exact h
  | cons entry s => exact h.2

theorem Stands.node? (h : t.Stands s) : t.node? (placeOf s) = some (.directory (t.entriesIn s)) := by
  induction s with
  | nil => rfl
  | cons entry s ih =>
    rw [placeOf_cons, FileTree.node?, Entries.at?_concat, show Entries.at? t.root (placeOf s) = _ from ih h.2]
    exact h.1

theorem Stands.get? (h : t.Stands s) (name : Text) : (t.entriesIn s).get? name = t.node? (placeOf s ++ [name]) := by
  rw [FileTree.node?, Entries.at?_concat, show Entries.at? t.root (placeOf s) = _ from h.node?]

theorem Stands.of_descend (h : t.Stands s) (hd : t.descend s place = some s') : t.Stands s' ∧ placeOf s' = placeOf s ++ place := by
  induction place generalizing s with
  | nil =>
    cases hd
    exact ⟨h, (List.append_nil _).symm⟩
  | cons name rest ih =>
    unfold descend at hd
    split at hd
    · next entries hname =>
      obtain ⟨hs', hplace⟩ := ih (s := (name, entries) :: s) ⟨hname, h⟩ hd
      rw [placeOf_cons, List.append_assoc] at hplace
      exact ⟨hs', hplace⟩
    · cases hd

theorem Stands.of_startOf? (h : t.startOf? path = some s) : t.Stands s := by
  unfold startOf? at h
  split at h
  · cases h
    trivial
  · exact (Stands.of_descend (s := []) trivial h).1

/-- A link that is followed leads on from the root, or from where the walk stands. -/
theorem Stands.of_target (h : t.Stands s) (target : Text) : t.Stands (if Path.isAbsolute target then [] else s) := by
  split
  · trivial
  · exact h

/-! ## The way to a file -/

/-- Whether a name is one that is looked up. -/
structure IsOrdinary (name : Text) : Prop where
  stays : (name = [] || name = Path.dot) = false
  rises : name ≠ Path.doubleDot
  fits : (name.flatMap Path.octetsOf).length ≤ nameLimit

/-- What a walk does with a name that is looked up. -/
theorem walk_ordinary {name : Text} (h : IsOrdinary name) (rest : List Text) {last : LastName}
    (hlast : (last = .written && rest ≠ [] && rest.all (· = [])) = false) :
    t.walk last links s (name :: rest) =
      match (t.entriesIn s).get? name with
      | some (.directory entries) => t.walk last links ((name, entries) :: s) rest
      | some (.file content) => if rest = [] then .ok ⟨placeOf s ++ [name], some (.file content)⟩ else .error .notDirectory
      | some (.link target) =>
        if rest = [] && last = .kept then .ok ⟨placeOf s ++ [name], some (.link target)⟩
        else
          match links with
          | 0 => .error .tooManyLinks
          | links + 1 => t.walk last links (if Path.isAbsolute target then [] else s) (target.splitOn Path.slash ++ rest)
      | none => if rest = [] then .ok ⟨placeOf s ++ [name], none⟩ else .error .missing := by
  rw [walk]
  exact (if_neg (Bool.eq_false_iff.mp h.stays)).trans ((if_neg h.rises).trans
    ((if_neg (Bool.eq_false_iff.mp hlast)).trans (if_neg (Nat.not_lt.mpr h.fits))))

/-- The way of a walk to where a file is, or can be. -/
inductive Leads (t : FileTree) : (links : Nat) → Standing → List Text → Place → Prop
  | stay {links s name rest place} (h : (name = [] || name = Path.dot) = true) (onward : Leads t links s rest place) :
    Leads t links s (name :: rest) place
  | rise {links s rest place} (onward : Leads t links s.tail rest place) : Leads t links s (Path.doubleDot :: rest) place
  | enter {links s name entries rest place} (h : IsOrdinary name) (entry : (t.entriesIn s).get? name = some (.directory entries))
    (onward : Leads t links ((name, entries) :: s) rest place) : Leads t links s (name :: rest) place
  | follow {links s name target rest place} (h : IsOrdinary name) (entry : (t.entriesIn s).get? name = some (.link target))
    (onward : Leads t links (if Path.isAbsolute target then [] else s) (target.splitOn Path.slash ++ rest) place) :
    Leads t (links + 1) s (name :: rest) place
  | arrive {links s name} (h : IsOrdinary name) (free : IsReplaceable ((t.entriesIn s).get? name)) :
    Leads t links s [name] (placeOf s ++ [name])

/-- A walk to where a file is to be arrives at a directory, or where a file is or can be. -/
theorem leads_of_walk (h : t.walk .written links s names = .ok a) :
    (∃ entries, a.node = some (.directory entries)) ∨ t.Leads links s names a.place := by
  -- a link costs one of the links left, any other name is one name less
  induction links using Nat.strongRecOn generalizing s names with
  | ind links ihLinks =>
    induction names generalizing s with
    | nil =>
      rw [walk] at h
      cases h
      exact .inl ⟨_, rfl⟩
    | cons name rest ih =>
      by_cases hstay : (name = [] || name = Path.dot) = true
      · rw [walk, if_pos hstay] at h
        exact (ih h).imp_right (.stay hstay)
      by_cases hrise : name = Path.doubleDot
      · rw [walk, if_neg hstay, if_pos hrise] at h
        exact hrise ▸ (ih h).imp_right .rise
      by_cases hearly : (LastName.written = .written && rest ≠ [] && rest.all (· = [])) = true
      · rw [walk, if_neg hstay, if_neg hrise, if_pos hearly] at h
        cases h
      by_cases hlong : nameLimit < (name.flatMap Path.octetsOf).length
      · rw [walk, if_neg hstay, if_neg hrise, if_neg hearly, if_pos hlong] at h
        cases h
      have hname : IsOrdinary name := ⟨Bool.eq_false_iff.mpr hstay, hrise, Nat.not_lt.mp hlong⟩
      rw [walk_ordinary hname rest (Bool.eq_false_iff.mpr hearly)] at h
      split at h
      · next entries hentry => exact (ih h).imp_right (.enter hname hentry)
      · next content hentry =>
        split_ifs at h with hrest
        subst hrest
        cases h
        exact .inr (.arrive hname (.inr ⟨content, hentry⟩))
      · next target hentry =>
        rw [if_neg (by simp)] at h
        cases links with
        | zero => cases h
        | succ links => exact (ihLinks links (Nat.lt_succ_self links) h).imp_right (.follow hname hentry)
      · next hentry =>
        split_ifs at h with hrest
        subst hrest
        cases h
        exact .inr (.arrive hname (.inl hentry))

/-- Whether a file can be put at a place: it is in a directory, and no directory or link is there. -/
def IsFree (t : FileTree) (place : Place) : Prop :=
  ∃ s name, t.Stands s ∧ place = placeOf s ++ [name] ∧ IsReplaceable (t.node? place)

theorem Leads.isFree (h : t.Leads links s names place) (hs : t.Stands s) : t.IsFree place := by
  induction h with
  | stay _ _ ih => exact ih hs
  | rise _ ih => exact ih hs.tail
  | enter _ entry _ ih => exact ih ⟨entry, hs⟩
  | follow _ _ _ ih => exact ih (hs.of_target _)
  | @arrive links s name _ free => exact ⟨s, name, hs, rfl, hs.get? name ▸ free⟩

/-! ## The tree with the file -/

/-- Whether a tree is another one with a file at a place. -/
structure Rewritten (t t' : FileTree) (place : Place) (content : Bytes) : Prop where
  workingDirectory : t'.workingDirectory = t.workingDirectory
  free : IsReplaceable (t.node? place)
  here : t'.node? place = some (.file content)
  elsewhere : ∀ q ≠ place, Alike (t.node? q) (t'.node? q)

theorem IsFree.rewritten (h : t.IsFree place) (content : Bytes) : t.Rewritten (t.put place (.file content)) place content := by
  obtain ⟨s, name, hs, rfl, hfree⟩ := h
  exact ⟨rfl, hfree, Entries.at?_put_self (by simp), fun q hq => Entries.alike_put hs.node? hfree hq⟩

variable {entries : Entries}

/-- What is no file looks the same. -/
theorem Rewritten.alike (h : t.Rewritten t' place content) {q : Place} {node : FileNode} (hq : t.node? q = some node)
    (hfile : ∀ c, node ≠ .file c) : Alike (some node) (t'.node? q) := by
  have hne : q ≠ place := by
    rintro rfl
    rcases h.free with hfree | ⟨c, hfree⟩
    · cases hq.symm.trans hfree
    · exact hfile c (Option.some.inj (hq.symm.trans hfree))
  exact hq ▸ h.elsewhere q hne

theorem Rewritten.directory (h : t.Rewritten t' place content) {q : Place} (hq : t.node? q = some (.directory entries)) :
    ∃ entries', t'.node? q = some (.directory entries') := by
  have halike := h.alike hq nofun
  generalize t'.node? q = node at halike
  cases halike with
  | same => exact ⟨_, rfl⟩
  | directories _ entries' => exact ⟨entries', rfl⟩

theorem Rewritten.link (h : t.Rewritten t' place content) {q : Place} {target : Text} (hq : t.node? q = some (.link target)) :
    t'.node? q = some (.link target) := by
  have halike := h.alike hq nofun
  generalize t'.node? q = node at halike
  cases halike with
  | same => rfl

/-- **The walk to the place of a file comes to the file.** -/
theorem Leads.walk (h : t.Leads links s names place) (hr : t.Rewritten t' place content) (hs : t.Stands s) (hs' : t'.Stands s')
    (hsame : placeOf s' = placeOf s) : t'.walk .followed links s' names = .ok ⟨place, some (.file content)⟩ := by
  induction h generalizing s' with
  | stay hstay _ ih =>
    rw [FileTree.walk, if_pos hstay]
    exact ih hr hs hs' hsame
  | rise _ ih =>
    rw [FileTree.walk, if_neg (by decide), if_pos rfl]
    exact ih hr hs.tail hs'.tail (by rw [placeOf_tail, placeOf_tail, hsame])
  | @enter links s name entries rest place hname entry _ ih =>
    obtain ⟨entries', hentry⟩ := hr.directory ((hs.get? name).symm.trans entry)
    rw [← hsame, ← hs'.get? name] at hentry
    rw [walk_ordinary hname rest rfl, hentry]
    exact ih hr ⟨entry, hs⟩ ⟨hentry, hs'⟩ (by rw [placeOf_cons, placeOf_cons, hsame])
  | @follow links s name target rest place hname entry _ ih =>
    have hentry := hr.link ((hs.get? name).symm.trans entry)
    rw [← hsame, ← hs'.get? name] at hentry
    rw [walk_ordinary hname rest rfl, hentry]
    simp only [reduceCtorEq, decide_false, Bool.and_false, Bool.false_eq_true, if_false]
    refine ih hr (hs.of_target target) (hs'.of_target target) ?_
    split
    · rfl
    · exact hsame
  | @arrive links s name hname free =>
    have hentry := hr.here
    rw [← hsame, ← hs'.get? name] at hentry
    rw [walk_ordinary hname [] rfl, hentry, hsame]
    rfl

/-- A place that can be gone down to can be still. -/
theorem Rewritten.descend (h : t.Rewritten t' place content) {way : Place} (hs : t.Stands s) (hs' : t'.Stands s')
    (hsame : placeOf s' = placeOf s) {s₂ : Standing} (hd : t.descend s way = some s₂) :
    ∃ s₂', t'.descend s' way = some s₂' ∧ t'.Stands s₂' ∧ placeOf s₂' = placeOf s₂ := by
  induction way generalizing s s' with
  | nil =>
    cases hd
    exact ⟨s', rfl, hs', hsame⟩
  | cons name rest ih =>
    unfold FileTree.descend at hd
    split at hd
    · next entries entry =>
      obtain ⟨entries', hentry⟩ := h.directory ((hs.get? name).symm.trans entry)
      rw [← hsame, ← hs'.get? name] at hentry
      have hstands : t.Stands ((name, entries) :: s) := ⟨entry, hs⟩
      have hstands' : t'.Stands ((name, entries') :: s') := ⟨hentry, hs'⟩
      obtain ⟨s₂', hd', hrest⟩ := ih hstands hstands' (by rw [placeOf_cons, placeOf_cons, hsame]) hd
      exact ⟨s₂', by rw [FileTree.descend, hentry]; exact hd', hrest⟩
    · cases hd

theorem Rewritten.startOf? (h : t.Rewritten t' place content) (hstart : t.startOf? path = some s) :
    ∃ s', t'.startOf? path = some s' ∧ t'.Stands s' ∧ placeOf s' = placeOf s := by
  unfold FileTree.startOf? at hstart ⊢
  by_cases habsolute : Path.isAbsolute path = true
  · rw [if_pos habsolute] at hstart ⊢
    cases hstart
    exact ⟨[], rfl, trivial, rfl⟩
  · rw [if_neg habsolute] at hstart ⊢
    rw [h.workingDirectory]
    exact h.descend (show t.Stands [] from trivial) (show t'.Stands [] from trivial) rfl hstart

/-! ## Writing and reading -/

/-- Whether a file can be written to a path, when the directories above it have been made. -/
def IsWritable (t : FileTree) (path : Text) : Prop :=
  ∃ made place, t.leaveDirectories (Path.parent path) = (made, none) ∧ made.placeToWrite path = .ok place

/-- A path leads somewhere if it has octets, but not too many, the working directory is there, and the walk arrives. -/
theorem walkPath_eq_ok_iff {last : LastName} : t.walkPath last path = .ok a ↔
    ∃ octets s, Path.admissible path = .ok octets ∧ octets ≠ [] ∧ octets.length ≤ Path.sizeLimit ∧ t.startOf? path = some s ∧
      t.walk last linkLimit s (path.splitOn Path.slash) = .ok a := by
  unfold walkPath
  rcases Path.admissible path with failure | octets
  · simp [bind, Except.bind]
  by_cases hempty : octets = []
  · simp [bind, Except.bind, hempty, throw, throwThe, MonadExceptOf.throw]
  by_cases hlong : Path.sizeLimit < octets.length
  · simp [bind, Except.bind, hempty, hlong, Nat.not_le.mpr hlong, throw, throwThe, MonadExceptOf.throw]
  rcases t.startOf? path with _ | s
  · simp [bind, Except.bind, hempty, hlong, throw, throwThe, MonadExceptOf.throw]
  rcases hwalk : t.walk last linkLimit s (path.splitOn Path.slash) with e | b
  · simp [bind, Except.bind, hempty, hlong, hwalk, Except.mapError]
  · simp [bind, Except.bind, hempty, hlong, hwalk, Except.mapError, Nat.not_lt.mp hlong]

/-- Where a file is written it can be put, and the path leads to it. -/
theorem placeToWrite_rewritten (h : t.placeToWrite path = .ok place) (content : Bytes) :
    t.Rewritten (t.put place (.file content)) place content ∧ (t.put place (.file content)).read path = .ok content := by
  obtain ⟨a, harrival, hnode, rfl⟩ : ∃ a, t.walkPath .written path = .ok a ∧ (∀ entries, a.node ≠ some (.directory entries)) ∧
      a.place = place := by
    simp only [placeToWrite, bind, Except.bind] at h
    split at h
    · cases h
    · next a harrival =>
      split at h
      · cases h
      · next hnode =>
        cases h
        exact ⟨a, harrival, hnode, rfl⟩
  obtain ⟨octets, s, hoctets, hne, hsize, hstart, hwalk⟩ := walkPath_eq_ok_iff.mp harrival
  have hs := Stands.of_startOf? hstart
  have hleads := (leads_of_walk hwalk).resolve_left fun ⟨entries, hentries⟩ => hnode entries hentries
  have hr := (hleads.isFree hs).rewritten content
  obtain ⟨s', hstart', hs', hsame⟩ := hr.startOf? hstart
  have harrives := walkPath_eq_ok_iff.mpr ⟨octets, s', hoctets, hne, hsize, hstart', hleads.walk hr hs hs' hsame⟩
  refine ⟨hr, ?_⟩
  simp only [read, stat, bind, Except.bind, harrives]

/-- A text is written if it has octets and there is a place for them. -/
theorem leaveText_eq_none_iff {left : FileTree} : t.leaveText path text = (left, none) ↔
    ∃ place octets, t.placeToWrite path = .ok place ∧ Charset.utf8.encode text = .ok octets ∧
      left = t.put place (.file octets) := by
  unfold leaveText
  rcases t.placeToWrite path with failure | place
  · simp
  · rcases Charset.utf8.encode text with fault | octets
    · simp
    · simp [eq_comm]

/-- **What is written to a path is read from it**: the octets of the text. -/
theorem read_leaveText {left : FileTree} (h : t.leaveText path text = (left, none)) :
    ∃ octets, Charset.utf8.encode text = .ok octets ∧ left.read path = .ok octets := by
  obtain ⟨place, octets, hplace, hoctets, rfl⟩ := leaveText_eq_none_iff.mp h
  exact ⟨octets, hoctets, (placeToWrite_rewritten hplace octets).2⟩

end FileTree

end DiagnosticsClient
