import DiagnosticsClient.Proofs.Async.Groups
import DiagnosticsClient.Proofs.Async.Reserve
import Mathlib.Algebra.Order.BigOperators.Group.Finset
/-
A group and the ends of its members.

A group takes note of each member once: the callback that a member got moves to
the ready queue when the member ends, and is gone when it had its turn. So there
are as many callbacks and entries of a group (`tallies`) as ends it has still to
note, and what a step does to anything else leaves them alone (`Reckons`).

`Gathers` is what follows for the future that stands for the end of the whole: it
has a value only when every member has ended with one.
-/
namespace DiagnosticsClient

namespace Async

/-- An entry by which a group takes note of an end. -/
def Handle.isTally {ν ε : Type} (g : Nat) : Handle ν ε → Bool
  | .notify c _ => decide (c = .tally g)
  | _ => false

namespace Machine

variable {σ ρ φ ν ε : Type} {m m' m'' : Machine σ ρ φ ν ε} {t : TaskId} {w f : FutureId} {g : Nat} {may : Licence ρ}
  {T : FutureId → Prop} {o : Outcome ν ε} {x : Running ρ φ ν ε} {members : List FutureId}

/-! ## Ends still to be noted -/

/-- How many ends a group has still to take note of. -/
def tallies (m : Machine σ ρ φ ν ε) (g : Nat) : Nat :=
  ∑ f ∈ Finset.range m.futures.size, (m.callbacksOf f).count (.tally g) + m.ready.countP (Handle.isTally g)

/-- A group has still to take note of the end of this future. -/
def Outstanding (m : Machine σ ρ φ ν ε) (g : Nat) (f : FutureId) : Prop :=
  .tally g ∈ m.callbacksOf f ∨ .notify (.tally g) f ∈ m.ready

theorem lt_size_of_callback {c : Callback} (h : c ∈ m.callbacksOf f) : f < m.futures.size := by
  refine Nat.lt_of_not_le fun hge => ?_
  rw [callbacksOf, Array.getElem?_eq_none hge] at h
  cases h

theorem Outstanding.tallies_pos (h : m.Outstanding g f) : 0 < m.tallies g := by
  rcases h with h | h
  · refine Nat.add_pos_left (Nat.lt_of_lt_of_le (List.count_pos_iff.mpr h) ?_) _
    exact Finset.single_le_sum (f := fun i => (m.callbacksOf i).count (.tally g)) (fun _ _ => Nat.zero_le _)
      (Finset.mem_range.mpr (lt_size_of_callback h))
  · exact Nat.add_pos_right _ (List.countP_pos_iff.mpr ⟨_, h, by simp [Handle.isTally]⟩)

/-- What one future contributes may change. -/
theorem sum_add_eq {n f : Nat} {a b : Nat → Nat} (h : ∀ i, i ≠ f → b i = a i) (hf : f < n) :
    ∑ i ∈ Finset.range n, b i + a f = ∑ i ∈ Finset.range n, a i + b f := by
  have herase : ∑ i ∈ (Finset.range n).erase f, b i = ∑ i ∈ (Finset.range n).erase f, a i :=
    Finset.sum_congr rfl fun i hi => h i (Finset.ne_of_mem_erase hi)
  rw [← Finset.add_sum_erase _ a (Finset.mem_range.mpr hf), ← Finset.add_sum_erase _ b (Finset.mem_range.mpr hf), herase]
  omega

/-- The ends that a group has still to note are the same as before, and it is as it was. -/
structure Reckons (g : Nat) (m m' : Machine σ ρ φ ν ε) : Prop where
  tallies : m'.tallies g = m.tallies g
  outstanding : ∀ {f : FutureId}, m.Outstanding g f → m'.Outstanding g f
  ready : ∀ {f : FutureId}, .notify (.tally g) f ∈ m'.ready → .notify (.tally g) f ∈ m.ready ∨ m'.isSettled f = true
  outcome : ∀ {f : FutureId} {o : Outcome ν ε}, m.outcome? f = some o → m'.outcome? f = some o
  group : m'.groups[g]? = m.groups[g]?
  outers : m'.groups.map (·.outer) = m.groups.map (·.outer)
  room : m.futures.size ≤ m'.futures.size

namespace Reckons

theorem of_eq (hready : m'.ready = m.ready) (hfutures : m'.futures = m.futures) (hgroups : m'.groups = m.groups) :
    Reckons g m m' := by
  have hcall : m'.callbacksOf = m.callbacksOf := by funext f; simp only [callbacksOf, hfutures]
  refine ⟨?_, fun h => ?_, fun h => .inl (hready ▸ h), fun h => ?_, by rw [hgroups], by rw [hgroups],
    Nat.le_of_eq (by rw [hfutures])⟩
  · simp only [Machine.tallies, hcall, hfutures, hready]
  · rwa [Outstanding, hcall, hready]
  · rwa [outcome?, hfutures]

theorem refl (m : Machine σ ρ φ ν ε) : Reckons g m m := .of_eq rfl rfl rfl

theorem isSettled (h : Reckons g m m') (hf : m.isSettled f = true) : m'.isSettled f = true := by
  obtain ⟨o, ho⟩ := isSettled_iff.mp hf
  exact isSettled_iff.mpr ⟨o, h.outcome ho⟩

theorem trans (h : Reckons g m m') (h' : Reckons g m' m'') : Reckons g m m'' where
  tallies := h'.tallies.trans h.tallies
  outstanding hf := h'.outstanding (h.outstanding hf)
  ready hf := by
    rcases h'.ready hf with hf | hf
    · exact (h.ready hf).imp_right h'.isSettled
    · exact .inr hf
  outcome ho := h'.outcome (h.outcome ho)
  group := h'.group.trans h.group
  outers := h'.outers.trans h.outers
  room := Nat.le_trans h.room h'.room

/-- A future is settled; its callbacks become entries. -/
theorem settle (m : Machine σ ρ φ ν ε) (f : FutureId) (o : Outcome ν ε) : Reckons g m (m.settle f o) := by
  cases hset : m.isSettled f with
  | true =>
    rw [settle_of_isSettled hset]
    exact refl m
  | false =>
    rcases Nat.lt_or_ge f m.futures.size with hlt | hge
    · have hcall := callbacksOf_settle (o := o) hlt hset
      have hentries : ((m.callbacksOf f).map fun c => (.notify c f : Handle ν ε)).countP (Handle.isTally g) =
          (m.callbacksOf f).count (.tally g) := by
        rw [List.countP_map, List.count_eq_countP]
        exact List.countP_congr fun c _ => by simp [Handle.isTally]
      refine ⟨?_, fun {f'} h => ?_, fun {f'} h => ?_, outcome?_settle_of_some, by rw [settle_groups],
        by rw [settle_groups], Nat.le_of_eq size_futures_settle.symm⟩
      · have hsum := sum_add_eq (a := fun i => (m.callbacksOf i).count (.tally g))
          (b := fun i => ((m.settle f o).callbacksOf i).count (.tally g)) (fun i hi => by simp only [hcall, if_neg hi]) hlt
        simp only [hcall, if_pos, List.count_nil, Nat.add_zero] at hsum
        simp only [Machine.tallies, size_futures_settle, ready_settle hset, List.countP_append, hentries, hcall]
        omega
      · rw [Outstanding, hcall, ready_settle hset]
        rcases h with h | h
        · split
          · next heq => exact .inr (List.mem_append_right _ (List.mem_map.mpr ⟨_, heq ▸ h, by rw [heq]⟩))
          · exact .inl h
        · exact .inr (List.mem_append_left _ h)
      · rw [ready_settle hset] at h
        rcases List.mem_append.mp h with h | h
        · exact .inl h
        · obtain ⟨c, -, heq⟩ := List.mem_map.mp h
          cases heq
          exact .inr (isSettled_settle_self hlt)
    · rw [Machine.settle, Array.getElem?_eq_none hge]
      exact refl m

/-- The callbacks of a future change, but for those of the group. -/
theorem mapCallbacks {k : List Callback → List Callback} (hk : ∀ cs, (k cs).count (.tally g) = cs.count (.tally g)) :
    Reckons g m (m.mapCallbacks f k) := by
  rcases Nat.lt_or_ge f m.futures.size with hlt | hge
  · have hcount : ∀ i, ((m.mapCallbacks f k).callbacksOf i).count (.tally g) = (m.callbacksOf i).count (.tally g) := by
      intro i
      rw [callbacksOf_mapCallbacks hlt]
      split
      · next heq => rw [heq, hk]
      · rfl
    refine ⟨?_, fun {f'} h => ?_, .inl, fun ho => by rwa [outcome?_mapCallbacks], rfl, rfl,
      Nat.le_of_eq size_futures_mapCallbacks.symm⟩
    · simp only [Machine.tallies, hcount, size_futures_mapCallbacks]
      rfl
    · exact h.imp_left fun h => List.count_pos_iff.mp (hcount f' ▸ List.count_pos_iff.mpr h)
  · rw [mapCallbacks_of_ge hge]
    exact refl m

/-- Entries come to the ready queue that are none of the group's. -/
theorem append {more : List (Handle ν ε)} (hm : ∀ h ∈ more, h.isTally g = false) :
    Reckons g m { m with ready := m.ready ++ more } where
  tallies := by
    have hnone : more.countP (Handle.isTally g) = 0 := List.countP_eq_zero.mpr fun h hh => by simp [hm h hh]
    simp only [Machine.tallies, List.countP_append, hnone, Nat.add_zero]
    rfl
  outstanding hf := hf.imp_right (List.mem_append_left _)
  ready hf := by
    refine .inl ((List.mem_append.mp hf).resolve_right fun hf => ?_)
    have hfalse := hm _ hf
    simp [Handle.isTally] at hfalse
  outcome := id
  group := rfl
  outers := rfl
  room := Nat.le_refl _

theorem enqueue {h : Handle ν ε} (hh : h.isTally g = false) : Reckons g m (m.enqueue h) :=
  append fun _ hmem => List.mem_singleton.mp hmem ▸ hh

/-- An entry leaves the ready queue that is none of the group's. -/
theorem drop {h : Handle ν ε} {rest : List (Handle ν ε)} (hready : m.ready = h :: rest) (hh : h.isTally g = false) :
    Reckons g m { m with ready := rest } where
  tallies := by
    simp only [Machine.tallies, hready, List.countP_cons, hh, Bool.false_eq_true, if_false, Nat.add_zero]
    rfl
  outstanding hf := by
    refine hf.imp_right fun hf => ?_
    rw [hready] at hf
    rcases List.mem_cons.mp hf with rfl | hf
    · simp [Handle.isTally] at hh
    · exact hf
  ready hf := .inl (hready ▸ List.mem_cons_of_mem _ hf)
  outcome := id
  group := rfl
  outers := rfl
  room := Nat.le_refl _

theorem addCallback {c : Callback} (hc : c ≠ .tally g) : Reckons g m (m.addCallback f c) := by
  unfold Machine.addCallback
  split
  · exact enqueue (by simp [Handle.isTally, hc])
  · exact mapCallbacks (k := (· ++ [c])) fun cs => by simp [hc]

/-- A new future has no callbacks. -/
theorem push {future : Future ν ε} (ho : future.outcome = none) (hc : future.callbacks = []) :
    Reckons g m { m with futures := m.futures.push future } := by
  have hcall : ∀ i, ({ m with futures := m.futures.push future } : Machine σ ρ φ ν ε).callbacksOf i = m.callbacksOf i :=
    callbacksOf_push hc
  refine ⟨?_, fun h => ?_, .inl, fun h => by rwa [outcome?_push ho], rfl, rfl, by simp⟩
  · have hnone : m.callbacksOf m.futures.size = [] := by rw [callbacksOf, Array.getElem?_eq_none (Nat.le_refl _)]; rfl
    simp [Machine.tallies, hcall, Finset.sum_range_succ, hnone]
  · rwa [Outstanding, hcall]

theorem spawn (m : Machine σ ρ φ ν ε) (r : ρ) : Reckons g m (m.spawn r).1 := by
  have hpush : Reckons g m { m with futures := m.futures.push { task := some m.tasks.size } } := push rfl rfl
  have hstart : Reckons g m ({ m with futures := m.futures.push { task := some m.tasks.size } }.enqueue (.start m.tasks.size)) :=
    hpush.trans (enqueue rfl)
  exact hstart.trans (of_eq rfl rfl rfl)

end Reckons

/-- What makes no group leaves the groups alone. -/
theorem Op.reckons (h : Op may m m') (hg : ¬ may.gather) : Reckons g m m' := by
  cases h with
  | share s => exact .of_eq rfl rfl rfl
  | newFuture => exact .push rfl rfl
  | settle o => exact .settle m _ o
  | interrupt => exact .settle m _ _
  | hold => exact .of_eq rfl rfl rfl
  | spawn => exact .spawn m _
  | addCallback f => exact .addCallback fun h => by cases h
  | removeCallback f w =>
    refine .mapCallbacks (k := fun cs => cs.filter (· ≠ .release w)) fun cs => ?_
    exact List.count_filter (by simp)
  | member _ _ h => exact absurd h hg
  | group h => exact absurd h hg
  | @enqueue h _ hh =>
    refine .enqueue ?_
    cases h with
    | notify c f =>
      cases c with
      | tally g' => cases hh
      | _ => simp [Handle.isTally]
    | _ => rfl
  | setTimers => exact .of_eq rfl rfl rfl

theorem Effect.reckons (h : Effect may m m') (hg : ¬ may.gather) : Reckons g m m' := by
  induction h with
  | refl => exact .refl m
  | tail _ hop ih => exact ih.trans (hop.reckons hg)

/-! ## Steps -/

theorem perform_reckons (hs : m.Sound T) (hr : m.running = some x) (stack : List φ) (a : Action ρ φ ν ε)
    (ha : ∀ f frame, a = .await f frame → f < m.futures.size) : Reckons g m (m.perform x.task stack a) := by
  cases a with
  | await f frame =>
    unfold perform
    dsimp only
    split
    · exact .of_eq rfl rfl rfl
    · next ho =>
      have hp := suspend_parks hs hr (ha f frame rfl) (isSettled_eq_false.mpr ho) (frame :: stack)
      have hcount : ∀ i, ((m.suspend x.task f (frame :: stack)).callbacksOf i).count (.tally g) =
          (m.callbacksOf i).count (.tally g) := by
        intro i
        rw [hp.callbacks]
        split
        · next heq => simp [heq]
        · rfl
      refine ⟨?_, fun {f'} h => ?_, fun h => .inl (hp.ready ▸ h), fun ho => (hp.outcome _).trans ho, by rw [hp.groups],
        by rw [hp.groups], Nat.le_of_eq hp.room.symm⟩
      · simp only [tallies, hcount, hp.room, hp.ready]
      · rw [Outstanding, hp.ready]
        exact h.imp_left fun h => List.count_pos_iff.mp (hcount f' ▸ List.count_pos_iff.mpr h)
  | _ => exact .of_eq rfl rfl rfl

theorem endTask_reckons (hs : m.Sound T) (hr : m.running = some x) (o : Outcome ν ε) : Reckons g m (m.endTask x.task o) := by
  obtain ⟨task, htask, -, hheld⟩ := hs.running hr
  rw [endTask_eq htask hheld]
  exact (Reckons.settle m _ o).trans (.of_eq rfl rfl rfl)

theorem setTime_reckons (m : Machine σ ρ φ ν ε) (now : Binary64) : Reckons g m (m.setTime now) := by
  have hdue : Reckons g m { m with ready := m.ready ++ (takeDue now (dropCancelled m.timers.size m.timers).size
      (dropCancelled m.timers.size m.timers) []).2 } := by
    refine .append fun h hh => ?_
    rcases mem_takeDue.2 h hh with hh | ⟨i, -, -, rfl⟩
    · cases hh
    · rfl
  exact hdue.trans (.of_eq rfl rfl rfl)

/-- The turn of an entry that is none of the group's. -/
theorem handle_reckons [Inhabited ν] {h : Handle ν ε} (hh : h.isTally g = false) : Reckons g m (m.handle h) := by
  cases h with
  | start t =>
    change Reckons g m (m.startTask t)
    unfold startTask
    split
    · exact .refl m
    · split
      · exact .of_eq rfl rfl rfl
      · split <;> exact .of_eq rfl rfl rfl
  | notify c f =>
    cases c with
    | wake t =>
      change Reckons g m (m.resumeTask t _)
      unfold resumeTask
      split <;> exact .of_eq rfl rfl rfl
    | release w => exact .settle m w _
    | tally g' =>
      have hne : g' ≠ g := by simpa [Handle.isTally] using hh
      change Reckons g m (m.tally g' f)
      unfold Machine.tally
      cases hget : m.groups[g']? with
      | none => exact .refl m
      | some i =>
        have hset : Reckons g m { m with groups := m.groups.set g' { i with left := i.left - 1 } } := by
          refine ⟨rfl, id, .inl, id, List.getElem?_set_ne hne, ?_, Nat.le_refl _⟩
          rw [List.map_set]
          refine List.ext_getElem? fun j => ?_
          rw [List.getElem?_set]
          split
          · next heq => subst heq; split <;> simp_all
          · rfl
        have hsettle : ∀ o, Reckons g m
            (({ m with groups := m.groups.set g' { i with left := i.left - 1 } } : Machine σ ρ φ ν ε).settle i.outer o) :=
          fun o => hset.trans (.settle _ _ o)
        dsimp only
        split
        · split
          · exact hsettle _
          · exact hset
        · exact hsettle _
        · exact hset
  | expire w => exact .settle m w _
  | deliver f o => exact .settle m f o

/-! ## The end of the whole -/

/-- No callback, timer or entry is to settle a future. -/
structure Unnamed (w : FutureId) (m : Machine σ ρ φ ν ε) : Prop where
  ready : ∀ {h : Handle ν ε}, h ∈ m.ready → h.target? ≠ some w
  callbacks : ∀ {f : FutureId}, .release w ∉ m.callbacksOf f
  timers : ∀ {i : Timer}, i ∈ m.timers → i.waiter ≠ w

/-- What is not there is not named. -/
theorem Sound.unnamed (hs : m.Sound T) (hw : m.futures.size ≤ w) : Unnamed w m where
  ready hmem ht := Nat.not_lt_of_le hw (hs.targets.ready hmem ht).1.lt_size
  callbacks hmem := Nat.not_lt_of_le hw (hs.targets.callbacks hmem rfl).1.lt_size
  timers hmem heq := Nat.not_lt_of_le hw (heq ▸ (hs.targets.timers hmem).1.lt_size)

theorem Unnamed.avoids (h : Unnamed w m) (ha : Avoids w m m') : Unnamed w m' where
  ready {h'} hmem ht := by
    obtain ⟨more, hready, hmore⟩ := ha.ready
    rcases List.mem_append.mp (hready ▸ hmem) with hmem | hmem
    · exact h.ready hmem ht
    · obtain ⟨f, -, hf, -⟩ := hmore h' hmem ht
      exact h.callbacks hf
  callbacks hmem := h.callbacks (ha.callbacks hmem)
  timers hmem hw := by
    obtain ⟨j, hj, hjw, -⟩ := ha.timers hmem hw
    exact h.timers hj hjw

/-- A group takes note of members, and settles a future that nobody else settles: each member is still to be noted, or has
ended with a value, or the future is settled; and it has no value before all members have ended with one. -/
structure Gathers (g : Nat) (w : FutureId) (members : List FutureId) (m : Machine σ ρ φ ν ε) : Prop where
  there : w < m.futures.size
  group : ∃ left, m.groups[g]? = some { outer := w, left } ∧ m.tallies g ≤ left
  sole : ∀ {i : Nat}, (m.groups.map (·.outer))[i]? = some w → i = g
  unnamed : Unnamed w m
  ready : ∀ {f : FutureId}, .notify (.tally g) f ∈ m.ready → m.isSettled f = true
  noted : ∀ f ∈ members, m.Outstanding g f ∨ ∃ o, m.outcome? f = some o ∧ (o.isValue = true ∨ m.isSettled w = true)
  complete : ∀ v, m.outcome? w = some (.value v) → ∀ f ∈ members, ∃ v', m.outcome? f = some (.value v')

namespace Gathers

/-- What leaves the future and the group alone keeps it. -/
theorem keeps (h : Gathers g w members m) (hr : Reckons g m m') (ha : Avoids w m m') : Gathers g w members m' where
  there := Nat.lt_of_lt_of_le h.there hr.room
  group := by
    obtain ⟨left, hleft, hle⟩ := h.group
    exact ⟨left, hr.group.trans hleft, hr.tallies ▸ hle⟩
  sole hi := h.sole (hr.outers ▸ hi)
  unnamed := h.unnamed.avoids ha
  ready hf := (hr.ready hf).elim (fun hf => hr.isSettled (h.ready hf)) id
  noted f hf := by
    rcases h.noted f hf with hout | ⟨o, ho, hval | hset⟩
    · exact .inl (hr.outstanding hout)
    · exact .inr ⟨o, hr.outcome ho, .inl hval⟩
    · exact .inr ⟨o, hr.outcome ho, .inr (hr.isSettled hset)⟩
  complete v hv f hf := by
    obtain ⟨v', hv'⟩ := h.complete v (ha.outcome.symm.trans hv) f hf
    exact ⟨v', hr.outcome hv'⟩

/-- The future is settled, with a value only when all members have ended with one. -/
theorem settle (h : Gathers g w members m) (o : Outcome ν ε)
    (ho : ∀ v, o = .value v → m.isSettled w = false → ∀ f ∈ members, ∃ v', m.outcome? f = some (.value v')) :
    Gathers g w members (m.settle w o) := by
  have hr : Reckons g m (m.settle w o) := .settle m w o
  cases hset : m.isSettled w with
  | true => rwa [settle_of_isSettled hset]
  | false =>
    obtain ⟨left, hleft, hle⟩ := h.group
    refine ⟨Nat.lt_of_lt_of_le h.there hr.room, ⟨left, hr.group.trans hleft, hr.tallies ▸ hle⟩, fun hi => h.sole (hr.outers ▸ hi), ⟨fun {k} hk ht => ?_,
      fun hmem => h.unnamed.callbacks (mem_callbacksOf_settle hmem), fun hi => h.unnamed.timers (settle_timers ▸ hi)⟩,
      fun hf => (hr.ready hf).elim (fun hf => hr.isSettled (h.ready hf)) id, fun f hf => ?_, fun v hv f hf => ?_⟩
    · rw [ready_settle hset] at hk
      rcases List.mem_append.mp hk with hk | hk
      · exact h.unnamed.ready hk ht
      · obtain ⟨c, hc, rfl⟩ := List.mem_map.mp hk
        cases c with
        | release w' =>
          cases ht
          exact h.unnamed.callbacks hc
        | _ => cases ht
    · rcases h.noted f hf with hout | ⟨o', ho', hval | hset'⟩
      · exact .inl (hr.outstanding hout)
      · exact .inr ⟨o', hr.outcome ho', .inl hval⟩
      · exact .inr ⟨o', hr.outcome ho', .inr (hr.isSettled hset')⟩
    · rcases outcome?_settle_self hv with hold | rfl
      · cases (isSettled_eq_false.mp hset).symm.trans hold
      · obtain ⟨v', hv'⟩ := ho v rfl hset f hf
        exact ⟨v', hr.outcome hv'⟩

/-- The end of a member is noted that ended with a value, or after which the future is settled. -/
theorem note (h : Gathers g w members m) {rest : List (Handle ν ε)} {left : Nat} (hready : m.ready = .notify (.tally g) f :: rest)
    (hleft : m.groups[g]? = some { outer := w, left }) (hf : ∃ o, m.outcome? f = some o ∧ (o.isValue = true ∨ m.isSettled w = true)) :
    Gathers g w members { m with ready := rest, groups := m.groups.set g { outer := w, left := left - 1 } } ∧
      tallies { m with ready := rest, groups := m.groups.set g { outer := w, left := left - 1 } } g ≤ left - 1 := by
  obtain ⟨left', hleft', hle⟩ := h.group
  cases hleft.symm.trans hleft'
  have htallies : tallies { m with ready := rest, groups := m.groups.set g { outer := w, left := left - 1 } } g + 1 =
      m.tallies g := by
    have hself : Handle.isTally g (.notify (.tally g) f : Handle ν ε) = true := by simp [Handle.isTally]
    simp only [tallies, hready, List.countP_cons, hself, if_true]
    exact Nat.add_assoc _ _ _
  have hlt := (List.getElem?_eq_some_iff.mp hleft).1
  have hsub : ∀ {k : Handle ν ε}, k ∈ rest → k ∈ m.ready := fun hk => hready ▸ List.mem_cons_of_mem _ hk
  refine ⟨⟨h.there, ⟨left - 1, List.getElem?_set_self hlt, by omega⟩, fun {i} hi => ?_, ⟨fun hk => h.unnamed.ready (hsub hk),
    h.unnamed.callbacks, h.unnamed.timers⟩, fun hk => h.ready (hsub hk), fun f' hf' => ?_, h.complete⟩, by omega⟩
  · rw [List.map_set, List.getElem?_set] at hi
    split at hi
    · next heq => exact heq.symm
    · exact h.sole hi
  · rcases h.noted f' hf' with hout | hdone
    · by_cases heq : f' = f
      · subst heq
        exact .inr hf
      · refine .inl (hout.imp_right fun hmem => ?_)
        rw [hready] at hmem
        rcases List.mem_cons.mp hmem with hmem | hmem
        · cases hmem
          exact absurd rfl heq
        · exact hmem
    · exact .inr hdone

/-- **A group settles its future with a value only when all members have ended with one.** -/
theorem tally [Inhabited ν] (h : Gathers g w members m) {rest : List (Handle ν ε)}
    (hready : m.ready = .notify (.tally g) f :: rest) :
    Gathers g w members (({ m with ready := rest } : Machine σ ρ φ ν ε).tally g f) := by
  obtain ⟨left, hleft, -⟩ := h.group
  obtain ⟨o, ho⟩ := isSettled_iff.mp (h.ready (f := f) (by rw [hready]; exact List.mem_cons_self))
  have houtcome : ∀ groups, outcome? { m with ready := rest, groups } f = some o := fun _ => ho
  unfold Machine.tally
  simp only [hleft, houtcome]
  -- what is not a value settles the future at once
  have hfails : o.isValue = false → Gathers g w members
      (Machine.settle { m with ready := rest, groups := m.groups.set g { outer := w, left := left - 1 } } w o) := by
    intro hval
    have hsettle := h.settle o fun v hv => by rw [hv] at hval; cases hval
    obtain ⟨more, hmore⟩ : ∃ more, (m.settle w o).ready = .notify (.tally g) f :: (rest ++ more) ∧
        Machine.settle { m with ready := rest, groups := m.groups.set g { outer := w, left := left - 1 } } w o =
          { m.settle w o with ready := rest ++ more, groups := (m.settle w o).groups.set g { outer := w, left := left - 1 } } := by
      unfold Machine.settle
      dsimp only
      split
      · exact ⟨[], by rw [hready, List.append_nil], by rw [List.append_nil]⟩
      · next future _ =>
        split
        · exact ⟨[], by rw [hready, List.append_nil], by rw [List.append_nil]⟩
        · exact ⟨future.callbacks.map fun c => .notify c w, by rw [hready]; rfl, rfl⟩
    rw [hmore.2]
    exact (hsettle.note hmore.1 (settle_groups.symm ▸ hleft)
      ⟨o, outcome?_settle_of_some ho, .inr (isSettled_settle_self h.there)⟩).1
  cases o with
  | value v =>
    obtain ⟨hnote, hle⟩ := h.note hready hleft ⟨_, ho, .inl rfl⟩
    dsimp only
    split
    · next hzero =>
      refine hnote.settle _ fun _ _ hun f' hf' => ?_
      rcases hnote.noted f' hf' with hout | ⟨o', ho', hval | hset⟩
      · exact absurd hout.tallies_pos (by omega)
      · cases o' with
        | value v' => exact ⟨v', ho'⟩
        | _ => cases hval
      · rw [hun] at hset
        cases hset
    · exact hnote
  | failed e => exact hfails rfl
  | cancelled => exact hfails rfl

/-- The turn of an entry keeps it. -/
theorem turn [Inhabited ν] (h : Gathers g w members m) {k : Handle ν ε} {rest : List (Handle ν ε)} (hready : m.ready = k :: rest) :
    Gathers g w members (({ m with ready := rest } : Machine σ ρ φ ν ε).handle k) := by
  cases hk : k.isTally g with
  | true =>
    cases k with
    | notify c f =>
      cases of_decide_eq_true hk
      exact h.tally hready
    | _ => cases hk
  | false =>
    have hdrop : Reckons g m { m with ready := rest } := .drop hready hk
    have hsub : ∀ {k' : Handle ν ε}, k' ∈ rest → k' ∈ m.ready := fun hmem => hready ▸ List.mem_cons_of_mem _ hmem
    have hrest : Gathers g w members { m with ready := rest } := by
      obtain ⟨left, hleft, hle⟩ := h.group
      exact ⟨h.there, ⟨left, hleft, hdrop.tallies.symm ▸ hle⟩, h.sole,
        ⟨fun hmem => h.unnamed.ready (hsub hmem), h.unnamed.callbacks, h.unnamed.timers⟩, fun hf => h.ready (hsub hf),
        fun f hf => (h.noted f hf).imp_left hdrop.outstanding, h.complete⟩
    refine hrest.keeps (handle_reckons hk) (handle_avoids (h.unnamed.ready (by rw [hready]; exact List.mem_cons_self)) ?_)
    rintro g' f i rfl hget rfl
    have hsole : g' = g := h.sole (by rw [List.getElem?_map, hget]; rfl)
    simp [Handle.isTally, hsole] at hk

/-- So does the passing of time. -/
theorem setTime (h : Gathers g w members m) (now : Binary64) : Gathers g w members (m.setTime now) := by
  refine h.keeps (setTime_reckons m now) ⟨⟨_, rfl, fun k hk hw => ?_⟩, id, fun hi hw => ?_, fun hi hw => ⟨_, hi, hw⟩, rfl, id⟩
  · rcases mem_takeDue.2 k hk with hk | ⟨i, hi, -, rfl⟩
    · cases hk
    · exact absurd (Option.some.inj hw) (h.unnamed.timers (mem_dropCancelled hi))
  · exact ⟨_, mem_dropCancelled (mem_takeDue.1 _ hi), hw, rfl⟩

end Gathers

/-! ## A new group -/

/-- A group is to take note of some more futures. -/
structure Enrols (g : Nat) (fs : List FutureId) (m m' : Machine σ ρ φ ν ε) : Prop where
  tallies : m'.tallies g = m.tallies g + fs.length
  outstanding : ∀ {f : FutureId}, m.Outstanding g f ∨ f ∈ fs → m'.Outstanding g f
  ready : ∀ {f : FutureId}, .notify (.tally g) f ∈ m'.ready → .notify (.tally g) f ∈ m.ready ∨ m'.isSettled f = true
  outcome : ∀ f, m'.outcome? f = m.outcome? f
  groups : m'.groups = m.groups
  tasks : m'.tasks = m.tasks
  room : m'.futures.size = m.futures.size

namespace Enrols

theorem refl (m : Machine σ ρ φ ν ε) : Enrols g [] m m :=
  ⟨rfl, fun h => h.resolve_right List.not_mem_nil, .inl, fun _ => rfl, rfl, rfl, rfl⟩

theorem trans {fs fs' : List FutureId} (h : Enrols g fs m m') (h' : Enrols g fs' m' m'') : Enrols g (fs ++ fs') m m'' where
  tallies := by rw [h'.tallies, h.tallies, List.length_append, Nat.add_assoc]
  outstanding {f} hf := by
    refine h'.outstanding ?_
    rcases hf with hf | hf
    · exact .inl (h.outstanding (.inl hf))
    · exact (List.mem_append.mp hf).imp (fun hf => h.outstanding (.inr hf)) id
  ready {f} hf := by
    rcases h'.ready hf with hf | hf
    · refine (h.ready hf).imp_right fun hset => ?_
      rwa [isSettled, h'.outcome]
    · exact .inr hf
  outcome f := (h'.outcome f).trans (h.outcome f)
  groups := h'.groups.trans h.groups
  tasks := h'.tasks.trans h.tasks
  room := h'.room.trans h.room

/-- One future gets a callback of the group. -/
theorem one (hf : f < m.futures.size) : Enrols g [f] m (m.addCallback f (.tally g)) := by
  unfold Machine.addCallback
  split
  · next hset =>
    refine ⟨?_, fun {f'} h => ?_, fun {f'} h => ?_, fun _ => rfl, rfl, rfl, rfl⟩
    · have hself : Handle.isTally g (.notify (.tally g) f : Handle ν ε) = true := by simp [Handle.isTally]
      simp only [Machine.tallies, Machine.enqueue, List.countP_append, List.countP_singleton, hself, if_true, List.length_singleton]
      exact (Nat.add_assoc _ _ _).symm
    · rcases h with h | h
      · exact h.imp_right (List.mem_append_left _)
      · exact .inr (List.mem_append_right _ (by rw [List.mem_singleton.mp h]; exact List.mem_singleton_self _))
    · rcases List.mem_append.mp h with h | h
      · exact .inl h
      · cases List.mem_singleton.mp h
        exact .inr hset
  · change Enrols g [f] m (m.mapCallbacks f (· ++ [.tally g]))
    have hcall := callbacksOf_mapCallbacks (k := (· ++ [.tally g])) hf
    refine ⟨?_, fun {f'} h => ?_, .inl, outcome?_mapCallbacks, rfl, rfl, size_futures_mapCallbacks⟩
    · have hsum := sum_add_eq (a := fun i => (m.callbacksOf i).count (.tally g))
        (b := fun i => ((m.mapCallbacks f (· ++ [.tally g])).callbacksOf i).count (.tally g))
        (fun i hi => by simp only [hcall, if_neg hi]) hf
      have hself : ((m.mapCallbacks f (· ++ [.tally g])).callbacksOf f).count (.tally g) = (m.callbacksOf f).count (.tally g) + 1 := by
        rw [hcall, if_pos rfl, List.count_append, List.count_singleton_self]
      have hready : (m.mapCallbacks f (· ++ [.tally g])).ready = m.ready := rfl
      simp only [hself] at hsum
      simp only [Machine.tallies, size_futures_mapCallbacks, hready, List.length_singleton]
      omega
    · rw [Outstanding, hcall]
      rcases h with h | h
      · refine h.imp_left fun h => ?_
        split
        · next heq => exact List.mem_append_left _ (heq ▸ h)
        · exact h
      · rw [if_pos (List.mem_singleton.mp h)]
        exact .inl (List.mem_append_right _ (List.mem_singleton_self _))

/-- The members of a group get callbacks. -/
theorem all {members : List TaskId} (hm : ∀ t ∈ members, m.futureOf t < m.futures.size) :
    Enrols g (members.map m.futureOf) m (m.noteAll g members) := by
  induction members generalizing m with
  | nil => exact refl m
  | cons t members ih =>
    obtain ⟨ht, hrest⟩ := List.forall_mem_cons.mp hm
    have hone := one (g := g) ht
    have hfuture := futureOf_congr hone.tasks
    have hall := ih (m := m.addCallback (m.futureOf t) (.tally g)) fun u hu => by
      rw [hfuture, hone.room]
      exact hrest u hu
    rw [hfuture] at hall
    exact hone.trans hall

end Enrols

theorem Reckons.spawnAll (m : Machine σ ρ φ ν ε) (routines : List ρ) : Reckons g m (m.spawnAll routines) := by
  induction routines generalizing m with
  | nil => exact .refl m
  | cons r routines ih => exact (Reckons.spawn m r).trans (ih _)

/-- A group that is put down gathers the futures it is to take note of. -/
theorem addGroup_gathers [Inhabited ν] (hs : m.Sound T) (fs : List FutureId) (ht : m.tallies m.groups.length ≤ fs.length)
    (hr : ∀ {f}, .notify (.tally m.groups.length) f ∈ m.ready → m.isSettled f = true)
    (hout : ∀ f ∈ fs, m.Outstanding m.groups.length f) :
    Gathers m.groups.length m.futures.size fs (m.addGroup fs.length) := by
  let put : Machine σ ρ φ ν ε := { m.newFuture.1 with groups := m.groups ++ [{ outer := m.futures.size, left := fs.length }] }
  have hpush : Reckons m.groups.length m m.newFuture.1 := .push rfl rfl
  have hnone : put.outcome? m.futures.size = none := by
    refine (outcome?_push rfl _).trans ?_
    rw [outcome?, Array.getElem?_eq_none (Nat.le_refl _)]
    rfl
  have hunnamed : Unnamed m.futures.size m.newFuture.1 := (hs.unnamed (Nat.le_refl _)).avoids (push_avoids rfl rfl)
  have hput : Gathers m.groups.length m.futures.size fs put := by
    refine ⟨Nat.lt_of_lt_of_eq (Nat.lt_succ_self _) (Array.size_push _).symm, ⟨fs.length, List.getElem?_concat_length, ?_⟩,
      fun {i} hi => ?_, ⟨hunnamed.ready, hunnamed.callbacks, hunnamed.timers⟩, fun hf => ?_,
      fun f hf => .inl (hpush.outstanding (hout f hf)), fun v hv => ?_⟩
    · exact Nat.le_trans (Nat.le_of_eq hpush.tallies) ht
    · refine Decidable.byContradiction fun hne => ?_
      rw [List.map_append, List.getElem?_append] at hi
      split at hi
      · obtain ⟨group, hgroup, heq⟩ := List.mem_map.mp (List.mem_of_getElem? hi)
        exact Nat.lt_irrefl _ (heq ▸ (hs.targets.groups hgroup).1.lt_size)
      · next hge =>
        have hlt := (List.getElem?_eq_some_iff.mp hi).1
        simp only [List.length_map, List.map_cons, List.map_nil, List.length_singleton] at hge hlt
        omega
    · exact hpush.isSettled (hr hf)
    · cases hnone.symm.trans hv
  unfold addGroup
  dsimp only
  split
  · next hzero =>
    refine hput.settle _ fun _ _ _ f hf => ?_
    rw [List.length_eq_zero_iff.mp hzero] at hf
    cases hf
  · exact hput

/-- **A new group gathers its members.** -/
theorem spawnGroup_gathers [Inhabited ν] (hs : m.Sound T) (hn : m.tallies m.groups.length = 0) (routines : List ρ) :
    Gathers m.groups.length (m.spawnGroup routines).2.1
      ((m.spawnGroup routines).2.2.map (m.spawnGroup routines).1.futureOf) (m.spawnGroup routines).1 := by
  let all : Licence ρ := { target := T, wake := fun _ => False, cancel := fun _ => False, spawn := fun _ => True, gather := True }
  let spawned := m.spawnAll routines
  let members := List.range' m.tasks.size routines.length
  have hmembers : ∀ t ∈ members, spawned.futureOf t < spawned.futures.size := by
    intro t ht
    obtain ⟨i, hi, rfl⟩ := List.mem_range'.mp ht
    have htask := getElem?_spawnAll (m := m) (List.getElem?_eq_getElem hi)
    rw [Nat.one_mul, futureOf, htask, size_futures_spawnAll]
    exact Nat.add_lt_add_left hi _
  have hspawn : Reckons m.groups.length m spawned := .spawnAll m routines
  have hnote := Enrols.all (g := m.groups.length) hmembers
  have heff : Effect all m (spawned.noteAll m.groups.length members) :=
    (spawnAll_effect fun _ _ => trivial).trans (noteAll_effect trivial _ _)
  have hsound := heff.sound id hs
  have hgroups : (spawned.noteAll m.groups.length members).groups.length = m.groups.length := by
    have hlength := congrArg List.length hspawn.outers
    rw [hnote.groups]
    simpa using hlength
  have hfutures := (futureOf_congr (spawnGroup_tasks m routines)).trans (futureOf_congr hnote.tasks).symm
  have hlength : (members.map spawned.futureOf).length = routines.length := by simp [members]
  have hgathers := addGroup_gathers hsound (members.map spawned.futureOf) (by
      rw [hgroups, hnote.tallies, hspawn.tallies, hn, Nat.zero_add]) (fun {f} hf => ?_) fun f hf => ?_
  · rw [hgroups, hlength] at hgathers
    rw [hfutures, futureOf_congr hnote.tasks, spawnGroup_eq]
    exact hgathers
  · rw [hgroups] at hf
    rcases hnote.ready hf with hf | hset
    · rcases hspawn.ready hf with hf | hset
      · exact absurd (Outstanding.tallies_pos (.inr hf)) (by omega)
      · rwa [isSettled, hnote.outcome]
    · exact hset
  · rw [hgroups]
    exact hnote.outstanding (.inr hf)

end Machine

end Async

end DiagnosticsClient
