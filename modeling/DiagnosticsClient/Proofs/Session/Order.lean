import DiagnosticsClient.Session.State
/-
Order at the lock of a session.

A task queues for the lock, has just taken it, starts a transport for the one
listener there is, or stops one for nobody (`Station`). `Ordered` says that at
most one task is past the queue, that the lock is held exactly while there is
one, and that what is registered and current suits its place; a woken waiter is
the first of the queue, and nobody else gets the lock before him.

There is a lemma for each way in which a place may change. Nothing here knows
what a task is doing otherwise; that is `Coherence`.
-/
namespace DiagnosticsClient

open Async

/-- Where a task stands with the lock. -/
inductive Station where
  | queued (waiter : FutureId)
  | taken
  | starting (l : ListenerId)
  | releasing

/-- A task at this place holds the lock. -/
def Station.holds : Station → Bool
  | .queued _ => false
  | _ => true

/-- There is a transport exactly when there is a listener. -/
def State.Balanced (s : State) : Prop := s.current.isSome = true ↔ s.registered ≠ []

/-- What a place says of the session. -/
def Station.Suits (s : State) : Station → Prop
  | .queued w => w ∈ s.lock.waiters
  | .taken => s.Balanced
  | .starting l => s.current = none ∧ s.registered = [l]
  | .releasing => s.current = none ∧ s.registered = []

/-- The lock is held by the one task past its queue, and the session suits the place of every task. `woken` are the
waiters whose turn it is. -/
structure Ordered (p : TaskId → Option Station) (woken : FutureId → Prop) (s : State) : Prop where
  one : ∀ {t u : TaskId} {a b : Station}, p t = some a → p u = some b → a.holds = true → b.holds = true → t = u
  held : s.lock.held = true ↔ ∃ t a, p t = some a ∧ a.holds = true
  suits : ∀ {t : TaskId} {a : Station}, p t = some a → a.Suits s
  balanced : s.lock.held = false → s.Balanced
  alone : ∀ {t u : TaskId} {w : FutureId}, p t = some (.queued w) → p u = some (.queued w) → t = u
  nodup : s.lock.waiters.Nodup
  first : ∀ {w : FutureId}, w ∈ s.lock.waiters → woken w → s.lock.held = false ∧ s.lock.waiters.head? = some w

namespace Ordered

variable {p p' : TaskId → Option Station} {woken woken' : FutureId → Prop} {s s' : State} {t : TaskId} {a b : Station}
  {w : FutureId} {l : ListenerId}

theorem not_holds (h : Ordered p woken s) (hfree : s.lock.held = false) (hp : p t = some a) : a.holds = false := by
  cases ha : a.holds with
  | false => rfl
  | true =>
    rw [h.held.mpr ⟨t, a, hp, ha⟩] at hfree
    cases hfree

theorem held_of_holds (h : Ordered p woken s) (hp : p t = some a) (ha : a.holds = true) : s.lock.held = true :=
  h.held.mpr ⟨t, a, hp, ha⟩

/-- A waiter who is woken has nobody before him and nobody in his way. -/
theorem admits (h : Ordered p woken s) (hp : p t = some (.queued w)) (hw : woken w) :
    s.lock.held = false ∧ s.lock.waiters.head? = some w :=
  h.first (h.suits hp) hw

/-- No place changes; at most, all listeners and the transport are gone. -/
theorem mono (h : Ordered p woken s) (hp : ∀ u, p' u = p u) (hl : s'.lock = s.lock)
    (hw : ∀ {w}, w ∈ s.lock.waiters → woken' w → woken w)
    (hd : s'.registered = s.registered ∧ s'.current = s.current ∨
      s.current ≠ none ∧ s'.registered = [] ∧ s'.current = none) : Ordered p' woken' s' := by
  have hbalanced : s.Balanced → s'.Balanced := by
    unfold State.Balanced
    rcases hd with ⟨hr, hc⟩ | ⟨-, hr, hc⟩
    · rw [hr, hc]
      exact id
    · simp [hr, hc]
  refine ⟨fun ht hu => h.one (hp _ ▸ ht) (hp _ ▸ hu), ?_, fun ht => ?_, fun hfree => hbalanced (h.balanced (hl ▸ hfree)),
    fun ht hu => h.alone (hp _ ▸ ht) (hp _ ▸ hu), hl ▸ h.nodup, fun hmem hwoken => ?_⟩
  · rw [hl, h.held]
    simp only [hp]
  · have hsuits := h.suits (hp _ ▸ ht)
    rename_i a
    cases a with
    | queued w => exact show w ∈ s'.lock.waiters from hl ▸ hsuits
    | taken => exact hbalanced hsuits
    | starting l =>
      rcases hd with ⟨hr, hc⟩ | ⟨hne, -⟩
      · exact ⟨hc.trans hsuits.1, hr.trans hsuits.2⟩
      · exact absurd hsuits.1 hne
    | releasing =>
      rcases hd with ⟨hr, hc⟩ | ⟨hne, -⟩
      · exact ⟨hc.trans hsuits.1, hr.trans hsuits.2⟩
      · exact absurd hsuits.1 hne
  · rw [hl] at hmem ⊢
    exact h.first hmem (hw hmem hwoken)

/-! ## Queueing -/

/-- The lock is free, and nobody is to be let in before. -/
theorem take (h : Ordered p woken s) (hself : p' t = some .taken) (hother : ∀ u, u ≠ t → p' u = p u)
    (hfree : s.lock.held = false) (hnone : ∀ w ∈ s.lock.waiters, ¬ woken' w) :
    Ordered p' woken' { s with lock := { s.lock with held := true } } := by
  have hplace : ∀ {u b}, p' u = some b → u = t ∧ b = .taken ∨ u ≠ t ∧ p u = some b ∧ b.holds = false := by
    intro u b hu
    by_cases hut : u = t
    · subst hut
      rw [hself] at hu
      exact .inl ⟨rfl, (Option.some.inj hu).symm⟩
    · rw [hother u hut] at hu
      exact .inr ⟨hut, hu, h.not_holds hfree hu⟩
  refine ⟨fun hu hv hb hc => ?_, ?_, fun {u b} hu => ?_, fun hno => (by cases hno), fun hu hv => ?_, h.nodup,
    fun hmem hwoken => absurd hwoken (hnone _ hmem)⟩
  · rcases hplace hu with ⟨rfl, -⟩ | ⟨-, -, hno⟩
    · rcases hplace hv with ⟨rfl, -⟩ | ⟨-, -, hno⟩
      · rfl
      · rw [hno] at hc
        cases hc
    · rw [hno] at hb
      cases hb
  · exact iff_of_true rfl ⟨t, .taken, hself, rfl⟩
  · rcases hplace hu with ⟨-, rfl⟩ | ⟨-, hu, hno⟩
    · exact h.balanced hfree
    · cases b with
      | queued w => exact h.suits hu
      | _ => cases hno
  · rcases hplace hu with ⟨-, heq⟩ | ⟨-, hu, -⟩
    · cases heq
    · rcases hplace hv with ⟨-, heq⟩ | ⟨-, hv, -⟩
      · cases heq
      · exact h.alone hu hv

/-- A new waiter is the last in the queue. -/
theorem enqueue (h : Ordered p woken s) (hself : p' t = some (.queued w)) (hother : ∀ u, u ≠ t → p' u = p u)
    (hp : p t = none) (hnew : w ∉ s.lock.waiters) (hnot : ¬ woken' w)
    (hw : ∀ {w}, w ∈ s.lock.waiters → woken' w → woken w) :
    Ordered p' woken' { s with lock := { s.lock with waiters := s.lock.waiters ++ [w] } } := by
  have hplace : ∀ {u b}, p' u = some b → u = t ∧ b = .queued w ∨ u ≠ t ∧ p u = some b := by
    intro u b hu
    by_cases hut : u = t
    · subst hut
      rw [hself] at hu
      exact .inl ⟨rfl, (Option.some.inj hu).symm⟩
    · rw [hother u hut] at hu
      exact .inr ⟨hut, hu⟩
  refine ⟨fun hu hv hb hc => ?_, ?_, fun {u b} hu => ?_, h.balanced, fun hu hv => ?_, ?_, fun hmem hwoken => ?_⟩
  · rcases hplace hu with ⟨-, rfl⟩ | ⟨-, hu⟩
    · cases hb
    · rcases hplace hv with ⟨-, rfl⟩ | ⟨-, hv⟩
      · cases hc
      · exact h.one hu hv hb hc
  · refine h.held.trans ⟨?_, ?_⟩
    · rintro ⟨u, a, hu, ha⟩
      have hne : u ≠ t := by
        rintro rfl
        rw [hp] at hu
        cases hu
      exact ⟨u, a, (hother u hne).trans hu, ha⟩
    · rintro ⟨u, a, hu, ha⟩
      rcases hplace hu with ⟨-, rfl⟩ | ⟨-, hu⟩
      · cases ha
      · exact ⟨u, a, hu, ha⟩
  · rcases hplace hu with ⟨-, rfl⟩ | ⟨-, hu⟩
    · exact List.mem_append_right _ (List.mem_singleton.mpr rfl)
    · have hsuits := h.suits hu
      cases b with
      | queued w' => exact List.mem_append_left _ hsuits
      | _ => exact hsuits
  · rcases hplace hu with ⟨rfl, heq⟩ | ⟨-, hu⟩ <;> rcases hplace hv with ⟨rfl, heq'⟩ | ⟨-, hv⟩
    · rfl
    · cases heq
      exact absurd (h.suits hv) hnew
    · cases heq'
      exact absurd (h.suits hu) hnew
    · exact h.alone hu hv
  · refine List.nodup_append.mpr ⟨h.nodup, by simp, ?_⟩
    rintro x hx _ hy rfl
    exact hnew (List.mem_singleton.mp hy ▸ hx)
  · rcases List.mem_append.mp hmem with hmem | hmem
    · obtain ⟨hfree, hhead⟩ := h.first hmem (hw hmem hwoken)
      refine ⟨hfree, ?_⟩
      rw [List.head?_append, hhead]
      rfl
    · exact absurd (List.mem_singleton.mp hmem ▸ hwoken) hnot

theorem head?_erase {ws : List FutureId} {w v : FutureId} (hne : v ≠ w) (h : ws.head? = some v) :
    (ws.erase w).head? = some v := by
  cases ws with
  | nil => cases h
  | cons x ws =>
    cases h
    rw [List.erase_cons_tail (by simpa using hne)]
    rfl

/-- The waiter whose turn it is takes the lock. -/
theorem goIn (h : Ordered p woken s) (hp : p t = some (.queued w)) (hwoken : woken w) (hself : p' t = some .taken)
    (hother : ∀ u, u ≠ t → p' u = p u) (hw : ∀ {w}, w ∈ s.lock.waiters → woken' w → woken w) :
    Ordered p' woken' { s with lock := { held := true, waiters := s.lock.waiters.erase w } } := by
  obtain ⟨hfree, hhead⟩ := h.admits hp hwoken
  have hplace : ∀ {u b}, p' u = some b → u = t ∧ b = .taken ∨ u ≠ t ∧ p u = some b ∧ b.holds = false := by
    intro u b hu
    by_cases hut : u = t
    · subst hut
      rw [hself] at hu
      exact .inl ⟨rfl, (Option.some.inj hu).symm⟩
    · rw [hother u hut] at hu
      exact .inr ⟨hut, hu, h.not_holds hfree hu⟩
  refine ⟨fun hu hv hb hc => ?_, iff_of_true rfl ⟨t, .taken, hself, rfl⟩, fun {u b} hu => ?_, fun hno => (by cases hno),
    fun hu hv => ?_, h.nodup.erase w, fun hmem hwoken' => ?_⟩
  · rcases hplace hu with ⟨rfl, -⟩ | ⟨-, -, hno⟩
    · rcases hplace hv with ⟨rfl, -⟩ | ⟨-, -, hno⟩
      · rfl
      · rw [hno] at hc
        cases hc
    · rw [hno] at hb
      cases hb
  · rcases hplace hu with ⟨-, rfl⟩ | ⟨hne, hu, hno⟩
    · exact h.balanced hfree
    · cases b with
      | queued v =>
        have hvw : v ≠ w := by
          rintro rfl
          exact hne (h.alone hu hp)
        exact (List.mem_erase_of_ne hvw).mpr (h.suits hu)
      | _ => cases hno
  · rcases hplace hu with ⟨-, heq⟩ | ⟨-, hu, -⟩
    · cases heq
    · rcases hplace hv with ⟨-, heq⟩ | ⟨-, hv, -⟩
      · cases heq
      · exact h.alone hu hv
  · -- only the first of the queue is woken, and he has left it
    rename_i v
    have hmem' := List.mem_of_mem_erase hmem
    obtain ⟨-, hhead'⟩ := h.first hmem' (hw hmem' hwoken')
    rw [hhead] at hhead'
    cases hhead'
    exact absurd hmem (List.Nodup.not_mem_erase h.nodup)

/-- A waiter gives up; if the lock is free, the next one is woken. -/
theorem giveUp (h : Ordered p woken s) (hp : p t = some (.queued w)) (hself : p' t = none)
    (hother : ∀ u, u ≠ t → p' u = p u)
    (hw : ∀ {v}, v ∈ s.lock.waiters → woken' v →
      woken v ∨ s.lock.held = false ∧ (s.lock.waiters.erase w).head? = some v) :
    Ordered p' woken' { s with lock := { s.lock with waiters := s.lock.waiters.erase w } } := by
  have hplace : ∀ {u b}, p' u = some b → u ≠ t ∧ p u = some b := by
    intro u b hu
    by_cases hut : u = t
    · subst hut
      rw [hself] at hu
      cases hu
    · exact ⟨hut, (hother u hut).symm.trans hu⟩
  refine ⟨fun hu hv => h.one (hplace hu).2 (hplace hv).2, ?_, fun {u b} hu => ?_, h.balanced,
    fun hu hv => h.alone (hplace hu).2 (hplace hv).2, h.nodup.erase w, fun hmem hwoken => ?_⟩
  · refine h.held.trans ⟨?_, ?_⟩
    · rintro ⟨u, a, hu, ha⟩
      have hne : u ≠ t := by
        rintro rfl
        rw [hp] at hu
        cases hu
        cases ha
      exact ⟨u, a, (hother u hne).trans hu, ha⟩
    · rintro ⟨u, a, hu, ha⟩
      exact ⟨u, a, (hplace hu).2, ha⟩
  · obtain ⟨hne, hu⟩ := hplace hu
    have hsuits := h.suits hu
    cases b with
    | queued v =>
      have hvw : v ≠ w := by
        rintro rfl
        exact hne (h.alone hu hp)
      exact (List.mem_erase_of_ne hvw).mpr hsuits
    | _ => exact hsuits
  · rename_i v
    have hvw : v ≠ w := by
      rintro rfl
      exact List.Nodup.not_mem_erase h.nodup hmem
    have hmem' := List.mem_of_mem_erase hmem
    rcases hw hmem' hwoken with hwoken | ⟨hfree, hhead⟩
    · obtain ⟨hfree, hhead⟩ := h.first hmem' hwoken
      exact ⟨hfree, head?_erase hvw hhead⟩
    · exact ⟨hfree, hhead⟩

/-! ## Holding -/

/-- Whoever else has a place is in the queue. -/
theorem queued_of_ne (h : Ordered p woken s) (hp : p t = some a) (ha : a.holds = true) {u : TaskId} (hu : p u = some b)
    (hne : u ≠ t) : ∃ w, b = .queued w ∧ w ∈ s.lock.waiters := by
  cases b with
  | queued w => exact ⟨w, rfl, h.suits hu⟩
  | _ => exact absurd (h.one hu hp rfl ha) hne

/-- The holder goes on to another place. -/
theorem pass (h : Ordered p woken s) (hp : p t = some a) (ha : a.holds = true) (hself : p' t = some b)
    (hb : b.holds = true) (hother : ∀ u, u ≠ t → p' u = p u) (hl : s'.lock = s.lock) (hsuits : b.Suits s')
    (hw : ∀ {w}, w ∈ s.lock.waiters → woken' w → woken w) : Ordered p' woken' s' := by
  have hheld := h.held_of_holds hp ha
  have hplace : ∀ {u c}, p' u = some c → u = t ∧ c = b ∨ u ≠ t ∧ p u = some c := by
    intro u c hu
    by_cases hut : u = t
    · subst hut
      rw [hself] at hu
      exact .inl ⟨rfl, (Option.some.inj hu).symm⟩
    · exact .inr ⟨hut, (hother u hut).symm.trans hu⟩
  have hqueued : ∀ {u c}, u ≠ t → p u = some c → ∃ w, c = .queued w ∧ w ∈ s.lock.waiters :=
    fun hne hu => h.queued_of_ne hp ha hu hne
  refine ⟨fun hu hv hc hd => ?_, ?_, fun hu => ?_, fun hfree => ?_, fun hu hv => ?_, hl ▸ h.nodup, fun hmem hwoken => ?_⟩
  · have hat : ∀ {u c}, p' u = some c → c.holds = true → u = t := by
      intro u c hu hc
      rcases hplace hu with ⟨rfl, -⟩ | ⟨hne, hu⟩
      · rfl
      · obtain ⟨w, rfl, -⟩ := hqueued hne hu
        cases hc
    exact (hat hu hc).trans (hat hv hd).symm
  · rw [hl]
    exact iff_of_true hheld ⟨t, b, hself, hb⟩
  · rcases hplace hu with ⟨rfl, rfl⟩ | ⟨hne, hu⟩
    · exact hsuits
    · obtain ⟨w, rfl, hmem⟩ := hqueued hne hu
      exact show w ∈ s'.lock.waiters from hl ▸ hmem
  · rw [hl, hheld] at hfree
    cases hfree
  · rcases hplace hu with ⟨rfl, rfl⟩ | ⟨-, hu⟩
    · cases hb
    · rcases hplace hv with ⟨rfl, rfl⟩ | ⟨-, hv⟩
      · cases hb
      · exact h.alone hu hv
  · rw [hl] at hmem ⊢
    exact h.first hmem (hw hmem hwoken)

/-- The holder gives the lock up, and the first of the queue is woken. -/
theorem release (h : Ordered p woken s) (hp : p t = some a) (ha : a.holds = true) (hself : p' t = none)
    (hother : ∀ u, u ≠ t → p' u = p u) (hl : s'.lock = { s.lock with held := false }) (hb : s'.Balanced)
    (hw : ∀ {w}, w ∈ s.lock.waiters → woken' w → woken w ∨ s.lock.waiters.head? = some w) :
    Ordered p' woken' s' := by
  have hheld := h.held_of_holds hp ha
  have hplace : ∀ {u c}, p' u = some c → p u = some c ∧ ∃ w, c = .queued w ∧ w ∈ s.lock.waiters := by
    intro u c hu
    have hne : u ≠ t := by
      rintro rfl
      rw [hself] at hu
      cases hu
    rw [hother u hne] at hu
    exact ⟨hu, h.queued_of_ne hp ha hu hne⟩
  refine ⟨fun hu hv hc => ?_, ?_, fun hu => ?_, fun _ => hb, fun hu hv => h.alone (hplace hu).1 (hplace hv).1, ?_,
    fun hmem hwoken => ?_⟩
  · obtain ⟨-, w, rfl, -⟩ := hplace hu
    cases hc
  · rw [hl]
    refine iff_of_false (by simp) ?_
    rintro ⟨u, c, hu, hc⟩
    obtain ⟨-, w, rfl, -⟩ := hplace hu
    cases hc
  · obtain ⟨-, w, rfl, hmem⟩ := hplace hu
    exact show w ∈ s'.lock.waiters from hl ▸ hmem
  · rw [hl]
    exact h.nodup
  · rw [hl] at hmem ⊢
    refine ⟨rfl, ?_⟩
    rcases hw hmem hwoken with hwoken | hhead
    · obtain ⟨hfree, -⟩ := h.first hmem hwoken
      rw [hheld] at hfree
      cases hfree
    · exact hhead

end Ordered

end DiagnosticsClient
