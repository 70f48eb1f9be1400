import DiagnosticsClient.Proofs.Async.Turn
/-
What cancels, what sets timers, and what the passing of time does.

A cancellation goes from a task to what it waits for, and on if that is the end
of another task; so a licence to cancel has to be closed under that
(`Cancels`). Of the heap of timers nothing is needed here but that an entry
that comes out of it went in.
-/
namespace DiagnosticsClient

namespace Heap

variable {α : Type} {below : α → α → Bool}

theorem mem_setIfInBounds {heap : Array α} {i : Nat} {x y : α} (h : y ∈ heap.setIfInBounds i x) : y = x ∨ y ∈ heap := by
  obtain ⟨j, hj, rfl⟩ := Array.mem_iff_getElem.mp h
  rw [Array.getElem_setIfInBounds (by simpa using hj)]
  split
  · exact .inl rfl
  · exact .inr (Array.getElem_mem _)

theorem mem_bubble {x y : α} {fuel pos : Nat} {heap : Array α} (h : y ∈ bubble below x fuel pos heap) :
    y = x ∨ y ∈ heap := by
  induction fuel generalizing pos heap with
  | zero => exact mem_setIfInBounds h
  | succ fuel ih =>
    unfold bubble at h
    split at h
    · exact mem_setIfInBounds h
    · dsimp only at h
      split at h
      · next p hp =>
        split at h
        · rcases ih h with rfl | hmem
          · exact .inl rfl
          · rcases mem_setIfInBounds hmem with rfl | hmem
            · exact .inr (Array.mem_of_getElem? hp)
            · exact .inr hmem
        · exact mem_setIfInBounds h
      · exact mem_setIfInBounds h

theorem mem_sink {y : α} {fuel pos : Nat} {heap : Array α} (h : y ∈ (sink below fuel pos heap).2) : y ∈ heap := by
  induction fuel generalizing pos heap with
  | zero => exact h
  | succ fuel ih =>
    have hset : ∀ {i : Nat} {z : α}, heap[i]? = some z → y ∈ heap.setIfInBounds pos z → y ∈ heap := by
      intro i z hz hmem
      rcases mem_setIfInBounds hmem with rfl | hmem
      · exact Array.mem_of_getElem? hz
      · exact hmem
    unfold sink at h
    dsimp only at h
    split at h
    · exact h
    · next hl _ => exact hset hl (ih h)
    · next hl hr =>
      split at h
      · exact hset hl (ih h)
      · exact hset hr (ih h)

theorem mem_push {heap : Array α} {x y : α} (h : y ∈ push below heap x) : y = x ∨ y ∈ heap := by
  rcases mem_bubble h with rfl | h
  · exact .inl rfl
  · exact (Array.mem_push.mp h).symm

theorem mem_pop? {heap rest : Array α} {first y : α} (h : pop? below heap = some (first, rest)) :
    first ∈ heap ∧ (y ∈ rest → y ∈ heap) := by
  unfold pop? at h
  split at h
  · next f l hf hl =>
    have hpop : ∀ {z}, z ∈ heap.pop → z ∈ heap := by
      intro z hz
      obtain ⟨i, hi, rfl⟩ := Array.mem_iff_getElem.mp hz
      rw [Array.getElem_pop]
      exact Array.getElem_mem _
    dsimp only at h
    split at h
    · cases h
      exact ⟨Array.mem_of_getElem? hf, hpop⟩
    · cases h
      refine ⟨Array.mem_of_getElem? hf, fun hy => ?_⟩
      rcases mem_bubble hy with rfl | hy
      · exact Array.mem_of_getElem? hl
      · exact hpop (mem_sink hy)
  · cases h

end Heap

namespace Async

namespace Machine

variable {σ ρ φ ν ε : Type} {m m' : Machine σ ρ φ ν ε} {t : TaskId} {f : FutureId} {may : Licence ρ}

/-! ## Timers -/

theorem mem_dropCancelled {fuel : Nat} {timers : Array Timer} {i : Timer} (h : i ∈ dropCancelled fuel timers) :
    i ∈ timers := by
  induction fuel generalizing timers with
  | zero => exact h
  | succ fuel ih =>
    unfold dropCancelled at h
    split at h
    · split at h
      · split at h
        · next hpop => exact (Heap.mem_pop? hpop).2 (ih h)
        · exact h
      · exact h
    · exact h

theorem mem_takeDue {now : Binary64} {fuel : Nat} {timers : Array Timer} {due : List (Handle ν ε)} :
    (∀ i ∈ (takeDue now fuel timers due).1, i ∈ timers) ∧
      ∀ h ∈ (takeDue now fuel timers due).2, h ∈ due ∨ ∃ i ∈ timers, isDue now i.time = true ∧ h = .expire i.waiter := by
  induction fuel generalizing timers due with
  | zero => exact ⟨fun _ h => h, fun _ h => .inl h⟩
  | succ fuel ih =>
    unfold takeDue
    split
    · exact ⟨fun _ h => h, fun _ h => .inl h⟩
    · next first rest hpop =>
      have hrest : ∀ i ∈ rest, i ∈ timers := fun i => (Heap.mem_pop? hpop).2
      split
      · next hdue' =>
        obtain ⟨htimers, hdue⟩ := @ih rest (if first.cancelled then due else due ++ [.expire first.waiter])
        refine ⟨fun i hi => hrest i (htimers i hi), fun h hh => ?_⟩
        rcases hdue h hh with hmem | ⟨i, hi, hidue, rfl⟩
        · split at hmem
          · exact .inl hmem
          · rcases List.mem_append.mp hmem with hmem | hmem
            · exact .inl hmem
            · exact .inr ⟨first, (Heap.mem_pop? (y := first) hpop).1, hdue', List.mem_singleton.mp hmem⟩
        · exact .inr ⟨i, hrest i hi, hidue, rfl⟩
      · exact ⟨fun _ h => h, fun _ h => .inl h⟩

/-- A new timer is an effect. -/
theorem addTimer_effect {waiter : FutureId} (hw : m.IsPlain waiter) (ht : may.target waiter) (time : Binary64) :
    Effect may m (m.addTimer time waiter) := by
  unfold addTimer
  split
  · exact .single (.enqueue rfl hw ht)
  · refine .single (.setTimers fun i hi => ?_)
    rcases Heap.mem_push hi with rfl | hi
    · exact .inr ⟨hw, ht⟩
    · exact .inl ⟨i, mem_dropCancelled hi, rfl, rfl⟩

theorem cancelTimer_effect (m : Machine σ ρ φ ν ε) (waiter : FutureId) : Effect may m (m.cancelTimer waiter) := by
  refine .single (.setTimers fun i hi => .inl ?_)
  obtain ⟨j, hj, rfl⟩ := Array.mem_map.mp hi
  refine ⟨j, hj, ?_⟩
  split <;> exact ⟨rfl, rfl⟩

/-- Entries that settle something are put into the ready queue one after the other. -/
theorem enqueueAll_effect {hh : List (Handle ν ε)}
    (h : ∀ x ∈ hh, ∃ w, x.target? = some w ∧ m.IsPlain w ∧ may.target w) : Effect may m { m with ready := m.ready ++ hh } := by
  induction hh generalizing m with
  | nil => simpa using Relation.ReflTransGen.refl
  | cons x hh ih =>
    obtain ⟨w, hx, hplain, htarget⟩ := h x List.mem_cons_self
    have heq : ({ m with ready := m.ready ++ x :: hh } : Machine σ ρ φ ν ε) =
        { m.enqueue x with ready := (m.enqueue x).ready ++ hh } := by
      simp [enqueue]
    rw [heq]
    exact .head (.enqueue hx hplain htarget) (ih fun y hy => h y (List.mem_cons_of_mem _ hy))

/-- The passing of time leaves the queues in order. -/
theorem Settled.setTime (hs : m.Sound may.target) (now : Binary64) : Settled may m (m.setTime now) := by
  let timers := dropCancelled m.timers.size m.timers
  let taken : Array Timer × List (Handle ν ε) := takeDue now timers.size timers []
  obtain ⟨htimers, hdue⟩ : (∀ i ∈ taken.1, i ∈ timers) ∧
      ∀ h ∈ taken.2, h ∈ [] ∨ ∃ i ∈ timers, isDue now i.time = true ∧ h = .expire i.waiter := mem_takeDue
  let m₁ : Machine σ ρ φ ν ε := { m with now, timers := taken.1 }
  have hset : m₁.Sound may.target :=
    hs.of_eq rfl rfl rfl rfl (fun i hi => hs.targets.timers (mem_dropCancelled (htimers i hi))) fun _ => hs.targets.groups
  have heff : Effect may m₁ (m.setTime now) := enqueueAll_effect fun x hx => by
    rcases hdue x hx with hnil | ⟨i, hi, -, rfl⟩
    · cases hnil
    · exact ⟨i.waiter, rfl, hs.targets.timers (mem_dropCancelled hi)⟩
  have hext : m.Extends may m₁ := .of_eq rfl rfl rfl rfl
  exact ⟨heff.sound id hset, hext.trans heff.extends, rfl⟩

/-! ## Cancelling -/

/-- Whoever may be cancelled waits for a plain future or for a task that may be cancelled too. -/
def Cancels (may : Licence ρ) (m : Machine σ ρ φ ν ε) : Prop :=
  ∀ {t : TaskId} {f : FutureId}, may.cancel t → m.waitsFor? t = some f →
    m.IsPlain f ∨ ∃ u, may.cancel u ∧ m.owner? f = some (some u)

/-- A future that a cancellation may reach. -/
def Reaches (may : Licence ρ) (m : Machine σ ρ φ ν ε) (f : FutureId) : Prop :=
  (∃ t, may.cancel t ∧ m.owner? f = some (some t)) ∨ m.IsPlain f ∧ ∃ t, may.cancel t ∧ m.waitsFor? t = some f

@[simp] theorem cancelFuture_state (fuel : Nat) (m : Machine σ ρ φ ν ε) (f : FutureId) :
    (m.cancelFuture fuel f).1.state = m.state := by
  induction fuel generalizing m f with
  | zero => rfl
  | succ fuel ih =>
    unfold cancelFuture
    split
    · rfl
    · split
      · rfl
      · split
        · exact settle_state
        · next t _ =>
          cases m.tasks[t]?.bind (·.waiting) with
          | none => rfl
          | some g =>
            dsimp only
            split <;> exact ih m g

@[simp] theorem cancelTask_state (m : Machine σ ρ φ ν ε) (t : TaskId) : (m.cancelTask t).1.state = m.state := cancelFuture_state _ m _

theorem cancelFuture_effect (hc : m.Cancels may) (hr : ∀ {t}, may.cancel t → ∀ r, m.running = some r → r.task ≠ t)
    (fuel : Nat) (hf : m.Reaches may f) : Effect may m (m.cancelFuture fuel f).1 := by
  induction fuel generalizing f with
  | zero => exact .refl
  | succ fuel ih =>
    unfold cancelFuture
    split
    · exact .refl
    · next future hget =>
      have hown : m.owner? f = some future.task := by simp [owner?, hget]
      split
      · exact .refl
      · split
        · next hnone =>
          rcases hf with ⟨t, -, ht⟩ | ⟨hplain, t, ht, hw⟩
          · rw [hown, hnone] at ht
            cases ht
          · exact .single (.interrupt hplain ht hw)
        · next t htask =>
          have ht : may.cancel t := by
            rcases hf with ⟨u, hu, hown'⟩ | ⟨hplain, -⟩
            · rw [hown, htask] at hown'
              cases hown'
              exact hu
            · rw [IsPlain, hown, htask] at hplain
              cases hplain
          cases hw : m.tasks[t]?.bind (·.waiting) with
          | none => exact .single (.hold m ht (hr ht))
          | some g =>
            have hreach : m.Reaches may g := by
              rcases hc ht hw with hplain | hown
              · exact .inr ⟨hplain, t, ht, hw⟩
              · exact .inl hown
            have heff := ih hreach
            dsimp only
            split
            · exact heff
            · refine heff.tail (.hold _ ht fun r hrun => hr ht r ?_)
              rw [← heff.extends.running, hrun]

/-- Cancelling a task that may be cancelled is an effect. -/
theorem cancelTask_effect (ho : m.Owned) (hc : m.Cancels may)
    (hr : ∀ {t}, may.cancel t → ∀ r, m.running = some r → r.task ≠ t) (ht : may.cancel t) (hlt : t < m.tasks.size) :
    Effect may m (m.cancelTask t).1 := by
  have hget := Array.getElem?_eq_getElem hlt
  refine cancelFuture_effect hc hr _ (.inl ⟨t, ht, ?_⟩)
  have hfuture : m.futureOf t = m.tasks[t].future := by simp [futureOf, hget]
  rw [hfuture]
  exact ho.future hget

end Machine

end Async

end DiagnosticsClient
