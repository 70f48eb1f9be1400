import DiagnosticsClient.Proofs.Async.Calls
/-
A future that only time and the end of one task settle.

Whoever limits the time of a task waits for a future of his own, which a timer or
the end of the task settles. `Timed` says that nothing else will: each callback,
timer and entry that names the future is one of these, and once it is settled, or
an entry that settles it is ready, the reason `P` for it holds. Steps that may not
settle the future themselves keep this (`Avoids`, `Timed.avoids`), and so do the
turns of entries and the passing of time.

`Ahead` says that the turn of a task comes before whatever settles the future.
-/
namespace DiagnosticsClient

namespace Async

/-- An entry that settles something with a value. -/
def Handle.isSignal {ν ε : Type} : Handle ν ε → Bool
  | .deliver .. => false
  | _ => true

namespace Machine

variable {σ ρ φ ν ε : Type} {m m' m'' : Machine σ ρ φ ν ε} {t v : TaskId} {w f g : FutureId} {may : Licence ρ}
  {T : FutureId → Prop} {d : Binary64} {P P' : Prop} {o : Outcome ν ε} {x : Running ρ φ ν ε}

/-! ## What leaves a future alone -/

/-- A future is not settled, and nothing new is to settle it but callbacks that were there before. -/
structure Avoids (w : FutureId) (m m' : Machine σ ρ φ ν ε) : Prop where
  ready : ∃ more, m'.ready = m.ready ++ more ∧ ∀ h ∈ more, h.target? = some w →
    ∃ g, h = .notify (.release w) g ∧ .release w ∈ m.callbacksOf g ∧ m'.isSettled g = true
  callbacks : ∀ {g : FutureId}, .release w ∈ m'.callbacksOf g → .release w ∈ m.callbacksOf g
  timers : ∀ {i : Timer}, i ∈ m'.timers → i.waiter = w → ∃ j ∈ m.timers, j.waiter = w ∧ j.time = i.time
  groups : ∀ {i : Group}, i ∈ m'.groups → i.outer = w → ∃ j ∈ m.groups, j.outer = w
  outcome : m'.outcome? w = m.outcome? w
  settled : ∀ {g : FutureId}, m.isSettled g = true → m'.isSettled g = true

namespace Avoids

theorem of_eq (hready : m'.ready = m.ready) (hfutures : m'.futures = m.futures) (htimers : m'.timers = m.timers)
    (hgroups : m'.groups = m.groups) : Avoids w m m' where
  ready := ⟨[], by simp [hready], fun h hh => by cases hh⟩
  callbacks hmem := by rwa [callbacksOf, hfutures] at hmem
  timers hi hw := ⟨_, htimers ▸ hi, hw, rfl⟩
  groups hi hw := ⟨_, hgroups ▸ hi, hw⟩
  outcome := by rw [outcome?, hfutures, outcome?]
  settled hg := by rwa [isSettled, outcome?, hfutures]

theorem refl (m : Machine σ ρ φ ν ε) : Avoids w m m := .of_eq rfl rfl rfl rfl

theorem trans (h : Avoids w m m') (h' : Avoids w m' m'') : Avoids w m m'' where
  ready := by
    obtain ⟨more, hready, hmore⟩ := h.ready
    obtain ⟨more', hready', hmore'⟩ := h'.ready
    refine ⟨more ++ more', by rw [hready', hready, List.append_assoc], fun k hk hw => ?_⟩
    rcases List.mem_append.mp hk with hk | hk
    · obtain ⟨g, rfl, hg, hset⟩ := hmore k hk hw
      exact ⟨g, rfl, hg, h'.settled hset⟩
    · obtain ⟨g, rfl, hg, hset⟩ := hmore' k hk hw
      exact ⟨g, rfl, h.callbacks hg, hset⟩
  callbacks hg := h.callbacks (h'.callbacks hg)
  timers hi hw := by
    obtain ⟨j, hj, hjw, hjt⟩ := h'.timers hi hw
    obtain ⟨k, hk, hkw, hkt⟩ := h.timers hj hjw
    exact ⟨k, hk, hkw, hkt.trans hjt⟩
  groups hi hw := by
    obtain ⟨j, hj, hjw⟩ := h'.groups hi hw
    exact h.groups hj hjw
  outcome := h'.outcome.trans h.outcome
  settled hg := h'.settled (h.settled hg)

end Avoids

/-! ## Settling -/

theorem mem_callbacksOf_settle {c : Callback} (h : c ∈ (m.settle f o).callbacksOf g) : c ∈ m.callbacksOf g := by
  rcases Nat.lt_or_ge f m.futures.size with hlt | hge
  · cases hset : m.isSettled f with
    | true => rwa [settle_of_isSettled hset] at h
    | false =>
      rw [callbacksOf_settle hlt hset] at h
      split at h
      · cases h
      · exact h
  · rwa [settle, Array.getElem?_eq_none hge] at h

/-- Whoever is settled has this outcome, unless he was settled before. -/
theorem outcome?_settle_self {o' : Outcome ν ε} (h : (m.settle f o).outcome? f = some o') : m.outcome? f = some o' ∨ o' = o := by
  cases hget : m.futures[f]? with
  | none => exact .inl (by rwa [settle, hget] at h)
  | some future =>
    cases ho : future.outcome with
    | some o'' => exact .inl (by simpa [settle, hget, ho] using h)
    | none =>
      rw [outcome?_settle hget ho, if_pos rfl] at h
      exact .inr (Option.some.inj h).symm

/-- What is settled has been. -/
theorem isSettled_settle_self (hf : f < m.futures.size) : (m.settle f o).isSettled f = true := by
  cases hset : m.isSettled f with
  | true => rwa [settle_of_isSettled hset]
  | false => simp [isSettled_settle hf hset]

/-- Another future is settled. -/
theorem settle_avoids (hf : f ≠ w) (o : Outcome ν ε) : Avoids w m (m.settle f o) where
  ready := by
    cases hset : m.isSettled f with
    | true => exact ⟨[], by rw [settle_of_isSettled hset, List.append_nil], fun h hh => by cases hh⟩
    | false =>
      refine ⟨_, ready_settle hset, fun h hh hw => ?_⟩
      obtain ⟨c, hc, rfl⟩ := List.mem_map.mp hh
      cases c with
      | release w' =>
        cases hw
        refine ⟨f, rfl, hc, isSettled_settle_self (Nat.lt_of_not_le fun hge => ?_)⟩
        rw [callbacksOf, Array.getElem?_eq_none hge] at hc
        cases hc
      | _ => cases hw
  callbacks := mem_callbacksOf_settle
  timers hi hw := ⟨_, settle_timers ▸ hi, hw, rfl⟩
  groups hi hw := ⟨_, settle_groups ▸ hi, hw⟩
  outcome := by
    cases hget : m.futures[f]? with
    | none => rw [settle, hget]
    | some future =>
      cases ho : future.outcome with
      | some o' => simp [settle, hget, ho]
      | none => rw [outcome?_settle hget ho, if_neg hf.symm]
  settled hg := by
    obtain ⟨o', ho'⟩ := isSettled_iff.mp hg
    exact isSettled_iff.mpr ⟨o', outcome?_settle_of_some ho'⟩

/-! ## What a routine does -/

/-- The callbacks of a future change, but for those that settle one future. -/
theorem mapCallbacks_avoids {k : List Callback → List Callback} (hk : ∀ cs, .release w ∈ k cs → .release w ∈ cs) :
    Avoids w m (m.mapCallbacks f k) where
  ready := ⟨[], (List.append_nil _).symm, fun h hh => by cases hh⟩
  callbacks {g} hmem := by
    rcases Nat.lt_or_ge f m.futures.size with hlt | hge
    · rw [callbacksOf_mapCallbacks hlt] at hmem
      split at hmem
      · next heq => exact heq ▸ hk _ hmem
      · exact hmem
    · rwa [mapCallbacks_of_ge hge] at hmem
  timers hi hw := ⟨_, hi, hw, rfl⟩
  groups hi hw := ⟨_, hi, hw⟩
  outcome := outcome?_mapCallbacks w
  settled hg := by rwa [isSettled, outcome?_mapCallbacks]

theorem enqueue_avoids {h : Handle ν ε} (hh : h.target? ≠ some w) : Avoids w m (m.enqueue h) where
  ready := ⟨[h], rfl, fun _ hk hw => absurd (List.mem_singleton.mp hk ▸ hw) hh⟩
  callbacks := id
  timers hi hw := ⟨_, hi, hw, rfl⟩
  groups hi hw := ⟨_, hi, hw⟩
  outcome := rfl
  settled := id

theorem addCallback_avoids {c : Callback} (hc : c ≠ .release w) : Avoids w m (m.addCallback f c) := by
  unfold Machine.addCallback
  split
  · refine enqueue_avoids fun h => ?_
    cases c with
    | release w' => exact hc (congrArg _ (Option.some.inj h))
    | _ => cases h
  · exact mapCallbacks_avoids (k := (· ++ [c])) fun cs hmem => (List.mem_append.mp hmem).resolve_right fun h =>
      hc (List.mem_singleton.mp h).symm

/-- A new future is none that was there before. -/
theorem push_avoids {future : Future ν ε} (ho : future.outcome = none) (hc : future.callbacks = []) :
    Avoids w m { m with futures := m.futures.push future } where
  ready := ⟨[], (List.append_nil _).symm, fun h hh => by cases hh⟩
  callbacks hmem := by rwa [callbacksOf_push hc] at hmem
  timers hi hw := ⟨_, hi, hw, rfl⟩
  groups hi hw := ⟨_, hi, hw⟩
  outcome := outcome?_push ho w
  settled hg := by rwa [isSettled, outcome?_push ho]

/-- What may not settle a future leaves it alone. -/
theorem Op.avoids (h : Op may m m') (ht : ¬ may.target w) (hw : ¬ may.wake w)
    (hc : ∀ t, may.cancel t → m.waitsFor? t = some w → m' ≠ m.settle w .cancelled) : Avoids w m m' := by
  have hother : ∀ {w'}, may.target w' → w' ≠ w := fun h heq => ht (heq ▸ h)
  cases h with
  | share s => exact .of_eq rfl rfl rfl rfl
  | newFuture => exact push_avoids rfl rfl
  | settle o hf h =>
    refine settle_avoids ?_ o
    rintro rfl
    exact h.elim ht fun h => hw h.1
  | interrupt _ hct hwait =>
    refine settle_avoids ?_ _
    rintro rfl
    exact hc _ hct hwait rfl
  | hold => exact .of_eq rfl rfl rfl rfl
  | @spawn r hr =>
    have hpush : Avoids w m { m with futures := m.futures.push { task := some m.tasks.size } } := push_avoids rfl rfl
    have hstart : Avoids w m ({ m with futures := m.futures.push { task := some m.tasks.size } }.enqueue (.start m.tasks.size)) :=
      hpush.trans (enqueue_avoids fun h => by cases h)
    exact hstart.trans (.of_eq rfl rfl rfl rfl)
  | addCallback f _ ht => exact addCallback_avoids fun h => hother ht (Callback.release.inj h)
  | member f group => exact addCallback_avoids fun h => by cases h
  | group _ _ ht =>
    refine ⟨⟨[], (List.append_nil _).symm, fun h hh => by cases hh⟩, id, fun hi hw => ⟨_, hi, hw, rfl⟩, fun {i} hi hiw => ?_, rfl, id⟩
    rcases List.mem_append.mp hi with hi | hi
    · exact ⟨i, hi, hiw⟩
    · exact absurd (List.mem_singleton.mp hi ▸ hiw) (hother ht)
  | removeCallback f w' => exact mapCallbacks_avoids (k := fun cs => cs.filter (· ≠ .release w')) fun cs hmem => (List.mem_filter.mp hmem).1
  | enqueue hh _ ht => exact enqueue_avoids fun h => hother ht (Option.some.inj (hh.symm.trans h))
  | setTimers h =>
    refine ⟨⟨[], (List.append_nil _).symm, fun h hh => by cases hh⟩, id, fun {i} hi hiw => ?_, fun hi hw => ⟨_, hi, hw⟩, rfl, id⟩
    rcases h i hi with ⟨j, hj, hjw, hjt⟩ | ⟨-, ht⟩
    · exact ⟨j, hj, hjw.trans hiw, hjt⟩
    · exact absurd hiw (hother ht)

theorem Effect.avoids (h : Effect may m m') (ht : ¬ may.target w) (hw : ¬ may.wake w)
    (hc : ∀ t, may.cancel t → m.waitsFor? t ≠ some w) : Avoids w m m' := by
  induction h with
  | refl => exact .refl m
  | tail heff hop ih =>
    exact ih.trans (hop.avoids ht hw fun t hct hwait => absurd ((Effect.extends heff).waitsFor? hwait) (hc t hct))

/-- A future that is cancelled is left alone if it was settled before. -/
theorem avoids_or_cancelled : Avoids w m (m.settle w .cancelled) ∨ (m.settle w .cancelled).outcome? w = some .cancelled := by
  cases hget : m.futures[w]? with
  | none => exact .inl (by rw [settle, hget]; exact .refl m)
  | some future =>
    cases ho : future.outcome with
    | some o' => exact .inl (by simp only [settle, hget, ho]; exact .refl m)
    | none => exact .inr (by rw [outcome?_settle hget ho, if_pos rfl])

/-- What may not settle a future leaves it alone, unless it is cancelled for whoever waits for it. -/
theorem Effect.avoids_or_cancelled (h : Effect may m m') (ht : ¬ may.target w) (hw : ¬ may.wake w) :
    Avoids w m m' ∨ m'.outcome? w = some .cancelled := by
  induction h with
  | refl => exact .inl (.refl m)
  | @tail m₁ m₂ heff hop ih =>
    rcases ih with ih | ih
    · by_cases hc : m₂ = m₁.settle w .cancelled
      · subst hc
        exact Machine.avoids_or_cancelled.imp_left ih.trans
      · exact .inl (ih.trans (hop.avoids ht hw fun _ _ _ => hc))
    · exact .inr (hop.extends.outcome ih)

/-! ## What the running task does next -/

theorem perform_avoids (hs : m.Sound T) (hr : m.running = some x) (stack : List φ) (a : Action ρ φ ν ε)
    (ha : ∀ f frame, a = .await f frame → f < m.futures.size) : Avoids w m (m.perform x.task stack a) := by
  cases a with
  | await f frame =>
    unfold perform
    dsimp only
    split
    · exact .of_eq rfl rfl rfl rfl
    · next ho =>
      have hp := suspend_parks hs hr (ha f frame rfl) (isSettled_eq_false.mpr ho) (frame :: stack)
      refine ⟨⟨[], by rw [hp.ready, List.append_nil], fun h hh => by cases hh⟩, fun {g} hmem => ?_,
        fun hi hw => ⟨_, hp.timers ▸ hi, hw, rfl⟩, fun hi hw => ⟨_, hp.groups ▸ hi, hw⟩, hp.outcome w, fun hg => ?_⟩
      · rw [hp.callbacks] at hmem
        split at hmem
        · next heq => simpa [heq] using hmem
        · exact hmem
      · rwa [hp.isSettled]
  | _ => exact .of_eq rfl rfl rfl rfl

theorem endTask_avoids (hs : m.Sound T) (hr : m.running = some x) (hw : m.IsPlain w) (o : Outcome ν ε) :
    Avoids w m (m.endTask x.task o) := by
  obtain ⟨task, htask, -, hheld⟩ := hs.running hr
  rw [endTask_eq htask hheld]
  exact (settle_avoids (hs.owned.ne_of_isPlain htask hw) o).trans (.of_eq rfl rfl rfl rfl)

/-! ## The turn of an entry -/

theorem tally_avoids [Inhabited ν] {group : Nat} (hg : ∀ {i : Group}, m.groups[group]? = some i → i.outer ≠ w) (f : FutureId) :
    Avoids w m (m.tally group f) := by
  unfold Machine.tally
  cases hget : m.groups[group]? with
  | none => exact .refl m
  | some i =>
    have hmem := List.mem_of_getElem? hget
    have hset : Avoids w m { m with groups := m.groups.set group { i with left := i.left - 1 } } := by
      refine ⟨⟨[], (List.append_nil _).symm, fun h hh => by cases hh⟩, id, fun hi hw => ⟨_, hi, hw, rfl⟩, fun {j} hj hw => ?_, rfl, id⟩
      rcases List.mem_or_eq_of_mem_set hj with hj | rfl
      · exact ⟨j, hj, hw⟩
      · exact ⟨i, hmem, hw⟩
    have hsettle : ∀ o, Avoids w m
        (({ m with groups := m.groups.set group { i with left := i.left - 1 } } : Machine σ ρ φ ν ε).settle i.outer o) :=
      fun o => hset.trans (settle_avoids (hg hget) o)
    dsimp only
    split
    · split
      · exact hsettle _
      · exact hset
    · exact hsettle _
    · exact hset

/-- The turn of an entry that does not settle a future. -/
theorem handle_avoids [Inhabited ν] {h : Handle ν ε} (hh : h.target? ≠ some w)
    (hg : ∀ {g f i}, h = .notify (.tally g) f → m.groups[g]? = some i → i.outer ≠ w) : Avoids w m (m.handle h) := by
  have hother : ∀ {w'}, h.target? = some w' → w' ≠ w := fun h' heq => hh (heq ▸ h')
  cases h with
  | start t =>
    change Avoids w m (m.startTask t)
    unfold startTask
    split
    · exact .refl m
    · split
      · exact .of_eq rfl rfl rfl rfl
      · split <;> exact .of_eq rfl rfl rfl rfl
  | notify c f =>
    cases c with
    | wake t =>
      change Avoids w m (m.resumeTask t _)
      unfold resumeTask
      split <;> exact .of_eq rfl rfl rfl rfl
    | release w' => exact settle_avoids (hother rfl) _
    | tally group => exact tally_avoids (hg rfl) f
  | expire w' => exact settle_avoids (hother rfl) _
  | deliver f o => exact settle_avoids (hother rfl) o

/-- What is ready once time has passed was ready before, or is a timer. -/
theorem mem_ready_setTime {now : Binary64} {h : Handle ν ε} (hh : h ∈ (m.setTime now).ready) : h ∈ m.ready ∨ ∃ w, h = .expire w := by
  let timers := dropCancelled m.timers.size m.timers
  obtain ⟨-, hdue⟩ : (∀ i ∈ (takeDue (ν := ν) (ε := ε) now timers.size timers []).1, i ∈ timers) ∧
      ∀ h ∈ (takeDue (ν := ν) (ε := ε) now timers.size timers []).2, h ∈ [] ∨
        ∃ i ∈ timers, isDue now i.time = true ∧ h = .expire i.waiter := mem_takeDue
  rcases List.mem_append.mp hh with hh | hh
  · exact .inl hh
  · rcases hdue h hh with hnil | ⟨i, -, -, rfl⟩
    · cases hnil
    · exact .inr ⟨_, rfl⟩

/-! ## A future that stands for the end of a limit -/

/-- A future is settled by a timer for one time and by the end of one other future alone; where it is, or is about to be,
`P` holds. -/
structure Timed (w f : FutureId) (d : Binary64) (P : Prop) (m : Machine σ ρ φ ν ε) : Prop where
  ready : ∀ {h : Handle ν ε}, h ∈ m.ready → h.target? = some w → h.isSignal = true ∧ P
  callbacks : ∀ {g : FutureId}, .release w ∈ m.callbacksOf g → g = f
  timers : ∀ {i : Timer}, i ∈ m.timers → i.waiter = w → i.time = d
  groups : ∀ {i : Group}, i ∈ m.groups → i.outer ≠ w
  outcome : ∀ {o : Outcome ν ε}, m.outcome? w = some o → o.isValue = true ∧ P

namespace Timed

/-- Nobody names a new future. -/
theorem new (hs : m.Sound T) (f : FutureId) (d : Binary64) (P : Prop) : Timed m.futures.size f d P m.newFuture.1 where
  ready hmem hw := absurd (hs.targets.ready hmem hw).1.lt_size (Nat.lt_irrefl _)
  callbacks hmem := by
    rw [newFuture, callbacksOf_push rfl] at hmem
    exact absurd (hs.targets.callbacks hmem rfl).1.lt_size (Nat.lt_irrefl _)
  timers hi hw := absurd (hw ▸ (hs.targets.timers hi).1.lt_size) (Nat.lt_irrefl _)
  groups hi hw := absurd (hw ▸ (hs.targets.groups hi).1.lt_size) (Nat.lt_irrefl _)
  outcome ho := by
    rw [newFuture, outcome?_push rfl, outcome?, Array.getElem?_eq_none (Nat.le_refl _)] at ho
    cases ho

theorem addTimer (h : Timed w f d P m) (hd : isDue m.now d = true → P) : Timed w f d P (m.addTimer d w) := by
  unfold Machine.addTimer
  split
  · next hdue =>
    refine ⟨fun hmem hw => ?_, h.callbacks, h.timers, h.groups, h.outcome⟩
    rcases List.mem_append.mp hmem with hmem | hmem
    · exact h.ready hmem hw
    · rw [List.mem_singleton.mp hmem]
      exact ⟨rfl, hd hdue⟩
  · refine ⟨h.ready, h.callbacks, fun hi hw => ?_, h.groups, h.outcome⟩
    rcases Heap.mem_push hi with rfl | hi
    · rfl
    · exact h.timers (mem_dropCancelled hi) hw

theorem addCallback (h : Timed w f d P m) (hf : m.isSettled f = true → P) : Timed w f d P (m.addCallback f (.release w)) := by
  unfold Machine.addCallback
  split
  · next hset =>
    refine ⟨fun hmem hw => ?_, h.callbacks, h.timers, h.groups, h.outcome⟩
    rcases List.mem_append.mp hmem with hmem | hmem
    · exact h.ready hmem hw
    · rw [List.mem_singleton.mp hmem]
      exact ⟨rfl, hf hset⟩
  · have hmap : Timed w f d P (m.mapCallbacks f (· ++ [.release w])) := by
      refine ⟨h.ready, fun {g} hmem => ?_, h.timers, h.groups, fun ho => h.outcome ((outcome?_mapCallbacks w).symm.trans ho)⟩
      rcases Nat.lt_or_ge f m.futures.size with hlt | hge
      · rw [callbacksOf_mapCallbacks hlt] at hmem
        split at hmem
        · next heq => exact heq
        · exact h.callbacks hmem
      · rw [mapCallbacks_of_ge hge] at hmem
        exact h.callbacks hmem
    exact hmap

/-- What leaves the future alone keeps this, if the end of the other future is a reason. -/
theorem avoids (h : Timed w f d P m) (ha : Avoids w m m') (hp : P → P') (hf : m'.isSettled f = true → P') :
    Timed w f d P' m' where
  ready hmem hw := by
    obtain ⟨more, hready, hmore⟩ := ha.ready
    rcases List.mem_append.mp (hready ▸ hmem) with hmem | hmem
    · exact (h.ready hmem hw).imp_right hp
    · obtain ⟨g, rfl, hg, hset⟩ := hmore _ hmem hw
      exact ⟨rfl, hf (h.callbacks hg ▸ hset)⟩
  callbacks hg := h.callbacks (ha.callbacks hg)
  timers hi hw := by
    obtain ⟨j, hj, hjw, hjt⟩ := ha.timers hi hw
    exact hjt ▸ h.timers hj hjw
  groups hi hw := by
    obtain ⟨j, hj, hjw⟩ := ha.groups hi hw
    exact h.groups hj hjw
  outcome ho := (h.outcome (ha.outcome ▸ ho)).imp_right hp

theorem drop {h' : Handle ν ε} {rest : List (Handle ν ε)} (h : Timed w f d P m) (hready : m.ready = h' :: rest) :
    Timed w f d P { m with ready := rest } :=
  ⟨fun hmem hw => h.ready (hready ▸ List.mem_cons_of_mem _ hmem) hw, h.callbacks, h.timers, h.groups, h.outcome⟩

theorem settle (h : Timed w f d P m) (hp : P) (x : ν) : Timed w f d P (m.settle w (.value x)) where
  ready {k} hmem hw := by
    refine ⟨?_, hp⟩
    cases hset : m.isSettled w with
    | true =>
      rw [settle_of_isSettled hset] at hmem
      exact (h.ready hmem hw).1
    | false =>
      rw [ready_settle hset] at hmem
      rcases List.mem_append.mp hmem with hmem | hmem
      · exact (h.ready hmem hw).1
      · obtain ⟨c, -, rfl⟩ := List.mem_map.mp hmem
        rfl
  callbacks hmem := h.callbacks (mem_callbacksOf_settle hmem)
  timers hi := h.timers (settle_timers ▸ hi)
  groups hi := h.groups (settle_groups ▸ hi)
  outcome ho := by
    refine ⟨?_, hp⟩
    rcases outcome?_settle_self ho with ho | rfl
    · exact (h.outcome ho).1
    · rfl

theorem imp (h : Timed w f d P m) (hp : P → P') : Timed w f d P' m :=
  ⟨fun hmem hw => (h.ready hmem hw).imp_right hp, h.callbacks, h.timers, h.groups, fun ho => (h.outcome ho).imp_right hp⟩

/-- The turn of an entry keeps this too, even if it settles the future. -/
theorem turn [Inhabited ν] {h' : Handle ν ε} {rest : List (Handle ν ε)} (h : Timed w f d P m) (hready : m.ready = h' :: rest)
    (hp : P → P') (hf : (({ m with ready := rest } : Machine σ ρ φ ν ε).handle h').isSettled f = true → P') :
    Timed w f d P' (({ m with ready := rest } : Machine σ ρ φ ν ε).handle h') := by
  by_cases hw : h'.target? = some w
  · obtain ⟨hsignal, hholds⟩ := h.ready (hready ▸ List.mem_cons_self) hw
    have hsettle := ((h.drop hready).settle hholds (default : ν)).imp hp
    cases h' with
    | start t => cases hw
    | notify c g =>
      cases c <;> cases hw
      exact hsettle
    | expire w' =>
      cases hw
      exact hsettle
    | deliver g o => cases hsignal
  · exact (h.drop hready).avoids (handle_avoids hw fun _ hget => h.groups (List.mem_of_getElem? hget)) hp hf

/-- And so does the passing of time, if the time of the timer is a reason. -/
theorem setTime (h : Timed w f d P m) (now : Binary64) (hp : P → P') (hd : isDue now d = true → P') :
    Timed w f d P' (m.setTime now) := by
  let timers := dropCancelled m.timers.size m.timers
  let taken : Array Timer × List (Handle ν ε) := takeDue now timers.size timers []
  obtain ⟨htimers, hdue⟩ : (∀ i ∈ taken.1, i ∈ timers) ∧
      ∀ h ∈ taken.2, h ∈ [] ∨ ∃ i ∈ timers, isDue now i.time = true ∧ h = .expire i.waiter := mem_takeDue
  refine ⟨fun {k} hmem hw => ?_, h.callbacks, fun hi hw => h.timers (mem_dropCancelled (htimers _ hi)) hw, h.groups,
    fun ho => (h.outcome ho).imp_right hp⟩
  rcases List.mem_append.mp hmem with hmem | hmem
  · exact (h.ready hmem hw).imp_right hp
  · rcases hdue k hmem with hnil | ⟨i, hi, hidue, rfl⟩
    · cases hnil
    · exact ⟨rfl, hd (h.timers (mem_dropCancelled hi) (Option.some.inj hw) ▸ hidue)⟩

end Timed

/-! ## Who comes first -/

/-- A future is not settled, and the turn of an entry comes before whatever settles it. -/
def Precedes (k : Handle ν ε) (w : FutureId) (m : Machine σ ρ φ ν ε) : Prop :=
  m.isSettled w = false ∧ ∃ pre post, m.ready = pre ++ k :: post ∧ ∀ h ∈ pre, h.target? ≠ some w

namespace Precedes

variable {k : Handle ν ε}

/-- Nothing is ahead of an entry, if nothing is about to settle the future. -/
theorem of_mem (hw : m.isSettled w = false) (hready : ∀ h ∈ m.ready, h.target? ≠ some w) (hk : k ∈ m.ready) :
    m.Precedes k w := by
  obtain ⟨pre, post, heq⟩ := List.mem_iff_append.mp hk
  exact ⟨hw, pre, post, heq, fun h hh => hready h (heq ▸ List.mem_append_left _ hh)⟩

/-- New entries come last. -/
theorem append (h : m.Precedes k w) (hready : ∃ more, m'.ready = m.ready ++ more) (hw : m'.isSettled w = m.isSettled w) :
    m'.Precedes k w := by
  obtain ⟨hun, pre, post, heq, hpre⟩ := h
  obtain ⟨more, hmore⟩ := hready
  exact ⟨hw.trans hun, pre, post ++ more, by rw [hmore, heq, List.append_assoc, List.cons_append], hpre⟩

theorem avoids (h : m.Precedes k w) (ha : Avoids w m m') : m'.Precedes k w := by
  obtain ⟨more, hready, -⟩ := ha.ready
  exact h.append ⟨more, hready⟩ (by rw [isSettled, ha.outcome, isSettled])

theorem setTime (h : m.Precedes k w) (now : Binary64) : (m.setTime now).Precedes k w := h.append ⟨_, rfl⟩ rfl

/-- The turn is that of the entry, or it stays ahead. -/
theorem turn [Inhabited ν] {h' : Handle ν ε} {rest : List (Handle ν ε)} (h : m.Precedes k w) (hready : m.ready = h' :: rest)
    (hg : ∀ {i : Group}, i ∈ m.groups → i.outer ≠ w) :
    h' = k ∨ (({ m with ready := rest } : Machine σ ρ φ ν ε).handle h').Precedes k w := by
  obtain ⟨hun, pre, post, heq, hpre⟩ := h
  cases pre with
  | nil =>
    rw [heq] at hready
    cases hready
    exact .inl rfl
  | cons h₀ pre =>
    rw [heq] at hready
    cases hready
    have hahead : ({ m with ready := pre ++ k :: post } : Machine σ ρ φ ν ε).Precedes k w :=
      ⟨hun, pre, post, rfl, fun h hh => hpre h (List.mem_cons_of_mem _ hh)⟩
    exact .inr (hahead.avoids (handle_avoids (hpre _ List.mem_cons_self) fun _ hget => hg (List.mem_of_getElem? hget)))

end Precedes

/-- A future is not settled, and a task is woken before whatever settles it. -/
def Ahead (v : TaskId) (w : FutureId) (m : Machine σ ρ φ ν ε) : Prop := ∃ g, m.Precedes (.notify (.wake v) g) w

namespace Ahead

theorem unsettled (h : m.Ahead v w) : m.isSettled w = false := h.choose_spec.1

theorem avoids (h : m.Ahead v w) (ha : Avoids w m m') : m'.Ahead v w := h.imp fun _ h => h.avoids ha

theorem setTime (h : m.Ahead v w) (now : Binary64) : (m.setTime now).Ahead v w := h.imp fun _ h => h.setTime now

/-- The turn of an entry is that of the task, or the task stays ahead. -/
theorem turn [Inhabited ν] {h' : Handle ν ε} {rest : List (Handle ν ε)} (h : m.Ahead v w) (hready : m.ready = h' :: rest)
    (hg : ∀ {i : Group}, i ∈ m.groups → i.outer ≠ w) :
    (∃ g, h' = .notify (.wake v) g) ∨ (({ m with ready := rest } : Machine σ ρ φ ν ε).handle h').Ahead v w := by
  obtain ⟨g, h⟩ := h
  exact (h.turn hready hg).imp (fun heq => ⟨g, heq⟩) fun h => ⟨g, h⟩

end Ahead

end Machine

end Async

end DiagnosticsClient
