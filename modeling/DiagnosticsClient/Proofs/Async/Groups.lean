import DiagnosticsClient.Proofs.Async.Turn
/-
Making a group.

A group is made in three strokes: its members are spawned, each gets a callback
by which the group takes note of its end, and a future for the end of the whole is
put down with the number of members (`spawnGroup_eq`).
-/
namespace DiagnosticsClient

namespace Async

namespace Machine

variable {σ ρ φ ν ε : Type} {m m' : Machine σ ρ φ ν ε} {may : Licence ρ} {g : Nat} {routines : List ρ} {members : List TaskId}

/-! ## Members -/

/-- New tasks, one for each routine. -/
def spawnAll (m : Machine σ ρ φ ν ε) (routines : List ρ) : Machine σ ρ φ ν ε := routines.foldl (fun m r => (m.spawn r).1) m

/-- A group is to take note of the ends of tasks. -/
def noteAll (m : Machine σ ρ φ ν ε) (g : Nat) (members : List TaskId) : Machine σ ρ φ ν ε :=
  members.foldl (fun m t => m.addCallback (m.futureOf t) (.tally g)) m

@[simp] theorem spawnAll_cons (m : Machine σ ρ φ ν ε) (r : ρ) (routines : List ρ) :
    m.spawnAll (r :: routines) = (m.spawn r).1.spawnAll routines := rfl

@[simp] theorem noteAll_cons (m : Machine σ ρ φ ν ε) (g : Nat) (t : TaskId) (members : List TaskId) :
    m.noteAll g (t :: members) = (m.addCallback (m.futureOf t) (.tally g)).noteAll g members := rfl

/-- The members of a group are spawned, and known by their numbers. -/
theorem spawnMembers_eq (routines : List ρ) (m : Machine σ ρ φ ν ε) (members : List TaskId) :
    routines.foldl (fun (m, members) routine =>
        let (m, t) := Machine.spawn m routine
        (m, members ++ [t])) (m, members) =
      (m.spawnAll routines, members ++ List.range' m.tasks.size routines.length) := by
  induction routines generalizing m members with
  | nil => simp [spawnAll]
  | cons r routines ih =>
    rw [List.foldl_cons]
    refine (ih (m.spawn r).1 (members ++ [m.tasks.size])).trans ?_
    simp [Machine.spawn, List.range'_succ]

/-- A group whose members are noted is put down, with a future for its end; without members that is there at once. -/
def addGroup [Inhabited ν] (m : Machine σ ρ φ ν ε) (count : Nat) : Machine σ ρ φ ν ε :=
  let m' : Machine σ ρ φ ν ε := { m.newFuture.1 with groups := m.groups ++ [{ outer := m.futures.size, left := count }] }
  if count = 0 then m'.settle m.futures.size (.value default) else m'

/-- **A group is made in three strokes.** -/
theorem spawnGroup_eq [Inhabited ν] (m : Machine σ ρ φ ν ε) (routines : List ρ) :
    m.spawnGroup routines =
      (let members := List.range' m.tasks.size routines.length
       let noted := (m.spawnAll routines).noteAll m.groups.length members
       (noted.addGroup routines.length, noted.futures.size, members)) := by
  unfold spawnGroup
  simp only [spawnMembers_eq, List.nil_append]
  have hnil : List.range' m.tasks.size routines.length = [] ↔ routines.length = 0 := List.range'_eq_nil_iff
  simp only [hnil, List.length_range']
  rfl

/-! ## The strokes are effects -/

theorem spawnAll_effect (hs : ∀ r ∈ routines, may.spawn r) : Effect may m (m.spawnAll routines) := by
  induction routines generalizing m with
  | nil => exact .refl
  | cons r routines ih =>
    obtain ⟨hr, hrest⟩ := List.forall_mem_cons.mp hs
    exact .head (.spawn m hr) (ih hrest)

theorem noteAll_effect (hg : may.gather) (g : Nat) (members : List TaskId) : Effect may m (m.noteAll g members) := by
  induction members generalizing m with
  | nil => exact .refl
  | cons t members ih => exact .head (.member m (m.futureOf t) g hg) ih

theorem addGroup_effect [Inhabited ν] (hg : may.gather) (ht : may.target m.futures.size) (count : Nat) :
    Effect may m (m.addGroup count) := by
  have hplain : IsPlain { m.newFuture.1 with groups := m.groups ++ [{ outer := m.futures.size, left := count }] }
      m.futures.size := by
    change m.newFuture.1.owner? m.futures.size = some none
    rw [newFuture, owner?_push, if_pos rfl]
  have hput : Effect may m { m.newFuture.1 with groups := m.groups ++ [{ outer := m.futures.size, left := count }] } :=
    .tail (.single (.newFuture m)) (.group (g := { outer := m.futures.size, left := count }) hg hplain ht)
  unfold addGroup
  dsimp only
  split
  · exact hput.tail (.settle _ hplain (.inl ht))
  · exact hput

/-- **Making a group is an effect** of a licence to spawn its members and to settle the future for its end. -/
theorem spawnGroup_effect [Inhabited ν] (hs : ∀ r ∈ routines, may.spawn r) (hg : may.gather)
    (ht : ∀ f, m.futures.size ≤ f → may.target f) : Effect may m (m.spawnGroup routines).1 := by
  have hnoted : Effect may m ((m.spawnAll routines).noteAll m.groups.length (List.range' m.tasks.size routines.length)) :=
    (spawnAll_effect hs).trans (noteAll_effect hg _ _)
  rw [spawnGroup_eq]
  exact hnoted.trans (addGroup_effect hg (ht _ hnoted.extends.room) _)

/-! ## What is shared -/

theorem spawnAll_state (m : Machine σ ρ φ ν ε) (routines : List ρ) : (m.spawnAll routines).state = m.state := by
  induction routines generalizing m with
  | nil => rfl
  | cons r routines ih => exact ih _

theorem addCallback_state {f : FutureId} {c : Callback} : (m.addCallback f c).state = m.state := by
  unfold Machine.addCallback
  split <;> rfl

theorem noteAll_state (m : Machine σ ρ φ ν ε) (g : Nat) (members : List TaskId) : (m.noteAll g members).state = m.state := by
  induction members generalizing m with
  | nil => rfl
  | cons t members ih => exact (ih _).trans addCallback_state

theorem addGroup_state [Inhabited ν] (m : Machine σ ρ φ ν ε) (count : Nat) : (m.addGroup count).state = m.state := by
  unfold addGroup
  dsimp only
  split
  · exact settle_state
  · rfl

/-- Making a group leaves alone what is shared. -/
theorem spawnGroup_state [Inhabited ν] (m : Machine σ ρ φ ν ε) (routines : List ρ) :
    (m.spawnGroup routines).1.state = m.state := by
  rw [spawnGroup_eq]
  exact (addGroup_state _ _).trans ((noteAll_state _ _ _).trans (spawnAll_state _ _))

/-- The future for the end of a group is new, and nobody's outcome. -/
theorem spawnGroup_outer [Inhabited ν] (m : Machine σ ρ φ ν ε) (routines : List ρ) :
    m.futures.size ≤ (m.spawnGroup routines).2.1 ∧ (m.spawnGroup routines).1.IsPlain (m.spawnGroup routines).2.1 := by
  have hnoted : Effect { target := fun _ => True, wake := fun _ => True, cancel := fun _ => True, spawn := fun _ => True, gather := True }
      m ((m.spawnAll routines).noteAll m.groups.length (List.range' m.tasks.size routines.length)) :=
    (spawnAll_effect fun _ _ => trivial).trans (noteAll_effect trivial _ _)
  rw [spawnGroup_eq]
  refine ⟨hnoted.extends.room, ?_⟩
  unfold addGroup
  dsimp only
  split
  · rw [IsPlain, owner?_settle]
    exact (owner?_push _ _).trans (if_pos rfl)
  · exact (owner?_push _ _).trans (if_pos rfl)

/-! ## The tasks -/

theorem futureOf_congr (h : m'.tasks = m.tasks) : m'.futureOf = m.futureOf := by
  funext t
  simp only [futureOf, h]

@[simp] theorem size_futures_spawnAll (m : Machine σ ρ φ ν ε) (routines : List ρ) :
    (m.spawnAll routines).futures.size = m.futures.size + routines.length := by
  induction routines generalizing m with
  | nil => rfl
  | cons r routines ih =>
    rw [spawnAll_cons, ih]
    simp only [Machine.spawn, Array.size_push, List.length_cons]
    omega

theorem getElem?_spawnAll_of_lt {t : TaskId} (ht : t < m.tasks.size) (routines : List ρ) :
    (m.spawnAll routines).tasks[t]? = m.tasks[t]? := by
  induction routines generalizing m with
  | nil => rfl
  | cons r routines ih =>
    have hsize : (m.spawn r).1.tasks.size = m.tasks.size + 1 := Array.size_push _
    have hlt : t < (m.spawn r).1.tasks.size := hsize ▸ Nat.lt_succ_of_lt ht
    rw [spawnAll_cons, ih hlt, getElem?_spawn, if_neg (Nat.ne_of_lt ht)]

/-- Each member was made for its routine, and has a new future. -/
theorem getElem?_spawnAll {i : Nat} {r : ρ} (hr : routines[i]? = some r) :
    (m.spawnAll routines).tasks[m.tasks.size + i]? = some { future := m.futures.size + i, routine := r } := by
  induction routines generalizing m i with
  | nil => cases hr
  | cons r' routines ih =>
    have hsizes : (m.spawn r').1.tasks.size = m.tasks.size + 1 ∧ (m.spawn r').1.futures.size = m.futures.size + 1 :=
      ⟨Array.size_push _, Array.size_push _⟩
    rw [spawnAll_cons]
    cases i with
    | zero =>
      cases hr
      have hlt : m.tasks.size < (m.spawn r).1.tasks.size := hsizes.1 ▸ Nat.lt_succ_self _
      rw [Nat.add_zero, getElem?_spawnAll_of_lt hlt, getElem?_spawn, if_pos rfl]
      rfl
    | succ i =>
      have hnext := ih (m := (m.spawn r').1) hr
      rwa [hsizes.1, hsizes.2, Nat.add_assoc, Nat.add_assoc, Nat.add_comm 1 i] at hnext

theorem addCallback_tasks {f : FutureId} {c : Callback} : (m.addCallback f c).tasks = m.tasks := by
  unfold Machine.addCallback
  split <;> rfl

theorem noteAll_tasks (m : Machine σ ρ φ ν ε) (g : Nat) (members : List TaskId) : (m.noteAll g members).tasks = m.tasks := by
  induction members generalizing m with
  | nil => rfl
  | cons t members ih => exact (ih _).trans addCallback_tasks

/-- Making a group makes its members, and no other task. -/
theorem spawnGroup_tasks [Inhabited ν] (m : Machine σ ρ φ ν ε) (routines : List ρ) :
    (m.spawnGroup routines).1.tasks = (m.spawnAll routines).tasks := by
  rw [spawnGroup_eq]
  refine Eq.trans ?_ (noteAll_tasks _ m.groups.length (List.range' m.tasks.size routines.length))
  unfold addGroup
  dsimp only
  split
  · exact settle_tasks
  · rfl

/-- A member is known by its place among the routines. -/
theorem mem_spawnGroup [Inhabited ν] {t : TaskId} (ht : t ∈ (m.spawnGroup routines).2.2) :
    ∃ i r, routines[i]? = some r ∧ t = m.tasks.size + i := by
  rw [spawnGroup_eq] at ht
  obtain ⟨i, hi, rfl⟩ := List.mem_range'.mp ht
  exact ⟨i, _, List.getElem?_eq_getElem hi, by rw [Nat.one_mul]⟩

/-- Each routine has a member. -/
theorem getElem?_spawnGroup [Inhabited ν] {i : Nat} {r : ρ} (hr : routines[i]? = some r) :
    m.tasks.size + i ∈ (m.spawnGroup routines).2.2 ∧
      (m.spawnGroup routines).1.tasks[m.tasks.size + i]? = some { future := m.futures.size + i, routine := r } := by
  refine ⟨?_, by rw [spawnGroup_tasks, getElem?_spawnAll hr]⟩
  rw [spawnGroup_eq]
  exact List.mem_range'.mpr ⟨i, (List.getElem?_eq_some_iff.mp hr).1, by rw [Nat.one_mul]⟩

end Machine

end Async

end DiagnosticsClient
