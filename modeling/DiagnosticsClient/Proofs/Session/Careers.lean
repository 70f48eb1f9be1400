import DiagnosticsClient.Proofs.Session.Ties
/-
The career of a transport.

A transport is not built, tied to a task, current, or done with: it failed to start,
or it is gone. At every moment of a run it has a `Stage`, which is read off the ties
of tasks and the current transport (`Shows`), and a step takes it to the `Next`.
What happened to it so far is a function of its stage (`Past`): so it is started
once, and stopped once if it was current and is no more (`transport_calls`).
-/
namespace DiagnosticsClient

open Async Async.Machine

/-- How far a transport has got. -/
inductive Stage where
  | unbuilt
  | tied (k : Tie)
  | failed
  | current
  | gone
deriving DecidableEq

namespace Stage

/-- A transport does not get out of this stage at once. -/
def lasts : Stage → Bool
  | tied k => k.lasts
  | _ => true

/-- Its start was called. -/
def wasCalled : Stage → Bool
  | unbuilt => false
  | _ => true

/-- Its stop was called. -/
def wasStopped : Stage → Bool
  | tied .stopping => true
  | gone => true
  | _ => false

/-- It was the current transport, and is no more. -/
def hasLeft : Stage → Bool
  | tied .lapsed => true
  | tied .stopping => true
  | gone => true
  | _ => false

/-- It was the current transport, or is. -/
def wasCurrent : Stage → Bool
  | current => true
  | x => x.hasLeft

/-- Its start returned. -/
def wasStarted : Stage → Bool
  | tied .started => true
  | x => x.wasCurrent

/-- The stages after a stage. -/
inductive Next : Stage → Stage → Prop
  | stays {x : Stage} (h : x.lasts = true) : Next x x
  | builds : Next .unbuilt (.tied .calling)
  | waits : Next (.tied .calling) (.tied .starting)
  | returns {k : Tie} (hk : k = .calling ∨ k = .starting) : Next (.tied k) (.tied .started)
  | installs : Next (.tied .started) .current
  | fails : Next (.tied .starting) .failed
  | lapses : Next .current (.tied .lapsed)
  | dismisses : Next .current (.tied .stopping)
  | comes : Next (.tied .lapsed) (.tied .stopping)
  | goes : Next (.tied .stopping) .gone

end Stage

/-- The stage of a transport shows in the ties of tasks and the current transport. -/
structure Shows (p : TaskId → Option (TransportId × Tie)) (s : State) (t : TransportId) (x : Stage) : Prop where
  built : t < s.transports.length ↔ x.wasCalled = true
  current : s.current = some t ↔ x = .current
  tied : ∀ {u k}, p u = some (t, k) → x = .tied k
  alone : ∀ {u v k k'}, p u = some (t, k) → p v = some (t, k') → u = v
  task : ∀ {k}, x = .tied k → ∃ u, p u = some (t, k)

namespace Shows

variable {p p' : TaskId → Option (TransportId × Tie)} {s s' : State} {t : TransportId} {x y : Stage} {u : TaskId} {k : Tie}

/-- A transport that no tie and nothing else of a step is about keeps its stage. -/
theorem same (h : Shows p s t x) (hp : ∀ u k, p' u = some (t, k) ↔ p u = some (t, k))
    (hb : t < s'.transports.length ↔ t < s.transports.length) (hc : s'.current = some t ↔ s.current = some t) :
    Shows p' s' t x where
  built := hb.trans h.built
  current := hc.trans h.current
  tied hu := h.tied ((hp _ _).mp hu)
  alone hu hv := h.alone ((hp _ _).mp hu) ((hp _ _).mp hv)
  task hx := by
    obtain ⟨u, hu⟩ := h.task hx
    exact ⟨u, (hp _ _).mpr hu⟩

/-- A transport comes to be tied to a task. -/
theorem tie (hu : p' u = some (t, k)) (hp : ∀ {v k'}, v ≠ u → p' v ≠ some (t, k')) (hb : t < s'.transports.length)
    (hc : s'.current ≠ some t) : Shows p' s' t (.tied k) where
  built := ⟨fun _ => rfl, fun _ => hb⟩
  current := ⟨fun h => absurd h hc, fun h => by cases h⟩
  tied {v k'} hv := by
    by_cases hvu : v = u
    · subst hvu
      rw [hu] at hv
      cases hv
      rfl
    · exact absurd hv (hp hvu)
  alone {v w k' k''} hv hw := by
    have heq : ∀ {v k'}, p' v = some (t, k') → v = u := fun {v k'} hv =>
      Decidable.byContradiction fun hne => hp hne hv
    exact (heq hv).trans (heq hw).symm
  task hx := by
    cases hx
    exact ⟨u, hu⟩

/-- No task is tied to a transport any more. -/
theorem loose (hp : ∀ {v k}, p' v ≠ some (t, k)) (hx : ∀ k, x ≠ .tied k) (hb : t < s'.transports.length ↔ x.wasCalled = true)
    (hc : s'.current = some t ↔ x = .current) : Shows p' s' t x where
  built := hb
  current := hc
  tied h := absurd h hp
  alone h := absurd h hp
  task h := absurd h (hx _)

/-- The stage of a transport that no task is tied to lasts. -/
theorem lasts (h : Shows p s t x) (hl : ∀ {u k}, p u = some (t, k) → k.lasts = true) : x.lasts = true := by
  cases x with
  | tied k =>
    obtain ⟨u, hu⟩ := h.task rfl
    exact hl hu
  | _ => rfl

/-- Ties drift: the current transport stays where it is, or lapses. -/
theorem drift (h : Shows p s t x) (hl : ∀ {u k}, p u = some (t, k) → k.lasts = true)
    (hb : s'.transports.length = s.transports.length) (hd : Drift p p' s s') : ∃ y, Shows p' s' t y ∧ x.Next y := by
  have hstays : Stage.Next x x := .stays (h.lasts hl)
  cases hd with
  | stays hp hc => exact ⟨x, h.same (fun u k => by rw [hp]) (by rw [hb]) (by rw [hc]), hstays⟩
  | @lapses u t' hc hc' hu hu' hp =>
    by_cases ht : t' = t
    · subst ht
      have hx := h.current.mp hc
      subst hx
      refine ⟨_, .tie hu' (fun hv heq => ?_) (hb ▸ h.built.mpr rfl) (by rw [hc']; exact fun h => by cases h), .lapses⟩
      rw [hp hv] at heq
      cases h.tied heq
    · refine ⟨x, h.same (fun v k => ?_) (by rw [hb]) ?_, hstays⟩
      · by_cases hv : v = u
        · subst hv
          rw [hu, hu']
          exact ⟨fun heq => by cases heq; exact absurd rfl ht, fun heq => by cases heq⟩
        · rw [hp hv]
      · rw [hc, hc']
        exact ⟨fun heq => (by cases heq), fun heq => absurd (Option.some.inj heq) ht⟩

/-- The task that a transport is tied to goes on with it. -/
theorem proceeds {k' : Tie} (h : Shows p s t x) (hu : p u = some (t, k)) (hu' : p' u = some (t, k'))
    (hp : ∀ {v}, v ≠ u → p' v = p v) (hb : s'.transports.length = s.transports.length) (hc : s'.current = s.current) :
    Shows p' s' t (.tied k') := by
  have hx := h.tied hu
  subst hx
  refine .tie hu' (fun hv heq => hv (h.alone (hp hv ▸ heq) hu)) (hb ▸ h.built.mpr rfl) fun heq => ?_
  cases h.current.mp (hc ▸ heq)

/-- The task that a transport is tied to has done with it. -/
theorem parts (h : Shows p s t x) (hu : p u = some (t, k)) (hu' : p' u = none) (hp : ∀ {v}, v ≠ u → p' v = p v)
    (hy : ∀ k, y ≠ .tied k) (hy' : y ≠ .unbuilt) (hb : s'.transports.length = s.transports.length)
    (hc : s'.current = some t ↔ y = .current) : Shows p' s' t y := by
  have hx := h.tied hu
  subst hx
  have hcalled : y.wasCalled = true := by
    cases y with
    | unbuilt => exact absurd rfl hy'
    | _ => rfl
  refine .loose (fun {v k'} heq => ?_) hy ⟨fun _ => hcalled, fun _ => hb ▸ h.built.mpr rfl⟩ hc
  by_cases hv : v = u
  · subst hv
    rw [hu'] at heq
    cases heq
  · exact hv (h.alone (hp hv ▸ heq) hu)

/-- An errand takes a transport to its next stage. -/
theorem errand (h : Shows p s t x) (hl : ∀ {v k}, v ≠ u → p v = some (t, k) → k.lasts = true)
    (hp : ∀ {v}, v ≠ u → p' v = p v) (he : Errand s s' (p u) (p' u)) : ∃ y, Shows p' s' t y ∧ x.Next y := by
  -- an errand for another transport
  have hother : (∀ k, p u ≠ some (t, k)) → (∀ k, p' u ≠ some (t, k)) →
      (t < s'.transports.length ↔ t < s.transports.length) → (s'.current = some t ↔ s.current = some t) →
      ∃ y, Shows p' s' t y ∧ x.Next y := by
    intro hu hu' hb hc
    refine ⟨x, h.same (fun v k => ?_) hb hc, .stays (h.lasts fun {v k} hv => hl ?_ hv)⟩
    · by_cases hvu : v = u
      · subst hvu
        exact ⟨fun heq => absurd heq (hu' k), fun heq => absurd heq (hu k)⟩
      · rw [hp hvu]
    · rintro rfl
      exact hu k hv
  have hne : ∀ {t' : TransportId} {k' : Tie} {q : Option (TransportId × Tie)}, q = some (t', k') → t' ≠ t →
      ∀ k, q ≠ some (t, k) := by
    rintro t' k' _ rfl ht k heq
    cases heq
    exact ht rfl
  have hno : ∀ {q : Option (TransportId × Tie)}, q = none → ∀ k, q ≠ some (t, k) := by
    rintro _ rfl k heq
    cases heq
  generalize hq : p u = q, hq' : p' u = q' at he
  cases he with
  | builds hb hc hc' =>
    by_cases hn : s.transports.length = t
    · subst hn
      have hx : x = .unbuilt := by
        cases x with
        | unbuilt => rfl
        | _ => exact absurd (h.built.mpr rfl) (Nat.lt_irrefl _)
      subst hx
      refine ⟨_, .tie hq' (fun hv heq => ?_) (hb ▸ Nat.lt_succ_self _) (by rw [hc']; exact fun h => by cases h), .builds⟩
      rw [hp hv] at heq
      cases h.tied heq
    · refine hother (hno hq) (hne hq' hn) ?_ (by rw [hc, hc'])
      rw [hb, Nat.lt_succ_iff_lt_or_eq]
      exact or_iff_left (Ne.symm hn)
  | @proceeds t' k k' hk hb hc =>
    by_cases ht : t' = t
    · subst ht
      refine ⟨_, h.proceeds hq hq' hp hb hc, ?_⟩
      have hx := h.tied hq
      subst hx
      cases hk with
      | waits hk =>
        rcases hk with rfl | rfl
        · exact .waits
        · exact .stays rfl
      | returns hk => exact .returns hk
      | comes => exact .comes
    · exact hother (hne hq ht) (hne hq' ht) (by rw [hb]) (by rw [hc])
  | @installs t' hb hc hc' =>
    by_cases ht : t' = t
    · subst ht
      have hx := h.tied hq
      subst hx
      exact ⟨.current, h.parts hq hq' hp (fun k heq => by cases heq) (fun heq => by cases heq) hb
        ⟨fun _ => rfl, fun _ => hc'⟩, .installs⟩
    · refine hother (hne hq ht) (hno hq') (by rw [hb]) ?_
      rw [hc, hc']
      exact ⟨fun heq => absurd (Option.some.inj heq) ht, fun heq => by cases heq⟩
  | @dismisses t' hb hc hc' =>
    by_cases ht : t' = t
    · subst ht
      have hx := h.current.mp hc
      subst hx
      refine ⟨_, .tie hq' (fun hv heq => ?_) (hb ▸ h.built.mpr rfl) (by rw [hc']; exact fun h => by cases h), .dismisses⟩
      rw [hp hv] at heq
      cases h.tied heq
    · refine hother (hno hq) (hne hq' ht) (by rw [hb]) ?_
      rw [hc, hc']
      exact ⟨fun heq => (by cases heq), fun heq => absurd (Option.some.inj heq) ht⟩
  | @quits t' k hk hb hc =>
    by_cases ht : t' = t
    · subst ht
      have hx := h.tied hq
      subst hx
      have hgone : ∀ y, (∀ k, y ≠ .tied k) → y ≠ .unbuilt → y ≠ .current → Shows p' s' t' y := by
        intro y hy hy' hy''
        refine h.parts hq hq' hp hy hy' hb ⟨fun heq => ?_, fun heq => absurd heq hy''⟩
        cases h.current.mp (hc ▸ heq)
      rcases hk with rfl | rfl
      · exact ⟨.failed, hgone .failed (fun _ h => by cases h) (fun h => by cases h) (fun h => by cases h), .fails⟩
      · exact ⟨.gone, hgone .gone (fun _ h => by cases h) (fun h => by cases h) (fun h => by cases h), .goes⟩
    · exact hother (hne hq ht) (hno hq') (by rw [hb]) (by rw [hc])

/-- **A step takes a transport to its next stage.** -/
theorem step (h : Shows p s t x) (ht : Traffic p p' s s') : ∃ y, Shows p' s' t y ∧ x.Next y := by
  cases ht with
  | drifts hl hb hd => exact h.drift hl hb hd
  | acts hl hp he => exact h.errand hl hp he

end Shows

/-! ## What happened so far -/

namespace Stage.Next

variable {x y : Stage}

theorem wasCalled (h : x.Next y) :
    (if y.wasCalled then 1 else 0) = (if x.wasCalled then 1 else 0) + if y = .tied .calling then 1 else 0 := by
  cases h with
  | stays hx => cases x with
    | tied k => cases k <;> first | rfl | cases hx
    | _ => rfl
  | returns hk => rcases hk with rfl | rfl <;> rfl
  | _ => rfl

theorem wasStopped (h : x.Next y) :
    (if y.wasStopped then 1 else 0) = (if x.wasStopped then 1 else 0) + if y = .tied .stopping then 1 else 0 := by
  cases h with
  | stays hx => cases x with
    | tied k => cases k <;> first | rfl | cases hx
    | _ => rfl
  | returns hk => rcases hk with rfl | rfl <;> rfl
  | _ => rfl

theorem wasStarted (h : x.Next y) : y.wasStarted = true ↔ y = .tied .started ∨ x.wasStarted = true := by
  cases h with
  | stays hx => cases x with
    | tied k => cases k <;> decide
    | _ => decide
  | returns hk => rcases hk with rfl | rfl <;> decide
  | _ => decide

theorem wasCurrent (h : x.Next y) : y.wasCurrent = true ↔ y = .current ∨ x.wasCurrent = true := by
  cases h with
  | stays hx => cases x with
    | tied k => cases k <;> decide
    | _ => decide
  | returns hk => rcases hk with rfl | rfl <;> decide
  | _ => decide

theorem hasLeft (h : x.Next y) (hx : x.hasLeft = true) : y.hasLeft = true := by
  cases h with
  | stays => exact hx
  | comes => rfl
  | goes => rfl
  | returns hk => rcases hk with rfl | rfl <;> cases hx
  | _ => cases hx

end Stage.Next

theorem Stage.hasLeft_of_wasCurrent {x : Stage} (h : x.wasCurrent = true) (hx : x ≠ .current) : x.hasLeft = true := by
  cases x with
  | current => exact absurd rfl hx
  | _ => exact h

namespace Moment

/-- The start of a transport is called. -/
def starts (t : TransportId) (a : Moment) : Bool :=
  match a.loop.running with
  | some (.begin _ (.start t') _) => t' = t
  | _ => false

/-- The stop of a transport is called. -/
def stops (t : TransportId) (a : Moment) : Bool :=
  match a.loop.running with
  | some (.begin _ (.stop t') _) => t' = t
  | _ => false

/-- The start of a transport has returned. -/
def started (t : TransportId) (a : Moment) : Bool :=
  match a.loop.running with
  | some (.resume _ (.value _) (.starting _ t' :: _)) => t' = t
  | _ => false

/-- A transport is the current one. -/
def uses (t : TransportId) (a : Moment) : Bool := a.loop.state.current = some t

variable {a : Moment} {t : TransportId} {x : Stage}

theorem starts_iff : a.starts t = true ↔ ∃ u, a.loop.view Thread.tie u = some (t, .calling) := by
  unfold starts
  constructor
  · intro h
    split at h
    · next u t' stack hr =>
      obtain rfl := of_decide_eq_true h
      exact ⟨u, Loop.view_tie (thread?_of_running hr)⟩
    · cases h
  · rintro ⟨u, h⟩
    obtain ⟨th, hth, htie⟩ := Option.bind_eq_some_iff.mp h
    have htop := Thread.tie_eq_calling.mp htie
    obtain ⟨x, hx, -, hthread⟩ := running_of_thread? hth (by rw [htop]; rfl)
    rw [hx]
    cases x <;> subst hthread <;> cases htop
    exact decide_eq_true rfl

theorem stops_iff : a.stops t = true ↔ ∃ u, a.loop.view Thread.tie u = some (t, .stopping) := by
  unfold stops
  constructor
  · intro h
    split at h
    · next u t' stack hr =>
      obtain rfl := of_decide_eq_true h
      exact ⟨u, Loop.view_tie (thread?_of_running hr)⟩
    · cases h
  · rintro ⟨u, h⟩
    obtain ⟨th, hth, htie⟩ := Option.bind_eq_some_iff.mp h
    have htop := Thread.tie_eq_stopping.mp htie
    obtain ⟨x, hx, -, hthread⟩ := running_of_thread? hth (by rw [htop]; rfl)
    rw [hx]
    cases x <;> subst hthread <;> cases htop
    exact decide_eq_true rfl

theorem started_iff : a.started t = true ↔ ∃ u, a.loop.view Thread.tie u = some (t, .started) := by
  unfold started
  constructor
  · intro h
    split at h
    · next u v l t' rest hr =>
      obtain rfl := of_decide_eq_true h
      exact ⟨u, Loop.view_tie (thread?_of_running hr)⟩
    · cases h
  · rintro ⟨u, h⟩
    obtain ⟨th, hth, htie⟩ := Option.bind_eq_some_iff.mp h
    obtain ⟨v, l, rest, rfl⟩ := Thread.tie_eq_started.mp htie
    obtain ⟨x, hx, -, hthread⟩ := running_of_thread? hth rfl
    rw [hx]
    cases x <;> cases hthread
    exact decide_eq_true rfl

/-- A transport is at a stage. -/
abbrev Shows (a : Moment) (t : TransportId) (x : Stage) : Prop :=
  DiagnosticsClient.Shows (a.loop.view Thread.tie) a.loop.state t x

theorem Shows.tied_iff {k : Tie} (h : a.Shows t x) : (∃ u, a.loop.view Thread.tie u = some (t, k)) ↔ x = .tied k :=
  ⟨fun ⟨_, hu⟩ => h.tied hu, h.task⟩

theorem Shows.starts (h : a.Shows t x) : a.starts t = true ↔ x = .tied .calling := starts_iff.trans h.tied_iff

theorem Shows.stops (h : a.Shows t x) : a.stops t = true ↔ x = .tied .stopping := stops_iff.trans h.tied_iff

theorem Shows.started (h : a.Shows t x) : a.started t = true ↔ x = .tied .started := started_iff.trans h.tied_iff

theorem Shows.uses (h : a.Shows t x) : a.uses t = true ↔ x = .current := decide_eq_true_iff.trans h.current

end Moment

/-- What happened to a transport in some moments, the newest of which it is at a stage in. -/
structure Past (t : TransportId) (x : Stage) (moments : List Moment) : Prop where
  starts : moments.countP (·.starts t) = if x.wasCalled then 1 else 0
  stops : moments.countP (·.stops t) = if x.wasStopped then 1 else 0
  started : (∃ a ∈ moments, a.started t = true) ↔ x.wasStarted = true
  current : (∃ a ∈ moments, a.uses t = true) ↔ x.wasCurrent = true
  left : ∀ {newer b older}, moments = newer ++ b :: older → b.uses t = false → (∃ a ∈ older, a.uses t = true) →
    x.hasLeft = true

section past

variable {a b : Moment} {past newer older moments : List Moment} {t : TransportId} {x y : Stage}

theorem Past.step (h : Past t x moments) (hn : x.Next y) (hb : b.Shows t y) : Past t y (b :: moments) where
  starts := by
    rw [List.countP_cons, h.starts, hn.wasCalled]
    simp only [hb.starts]
  stops := by
    rw [List.countP_cons, h.stops, hn.wasStopped]
    simp only [hb.stops]
  started := by rw [hn.wasStarted, ← h.started, ← hb.started]; simp only [List.mem_cons, exists_eq_or_imp]
  current := by rw [hn.wasCurrent, ← h.current, ← hb.uses]; simp only [List.mem_cons, exists_eq_or_imp]
  left {newer c older} heq hc hused := by
    cases newer with
    | nil =>
      obtain ⟨rfl, rfl⟩ := List.cons_eq_cons.mp heq
      refine Stage.hasLeft_of_wasCurrent (hn.wasCurrent.mpr (.inr (h.current.mp hused))) fun hy => ?_
      rw [hb.uses.mpr hy] at hc
      cases hc
    | cons d newer => exact hn.hasLeft (h.left (List.cons_eq_cons.mp heq).2 hc hused)

theorem Loop.IsNew.shows {m : Loop} (h : m.IsNew) (t : TransportId) : Moment.Shows { loop := m } t .unbuilt := by
  have hnone : ∀ {u k}, m.view Thread.tie u ≠ some (t, k) := fun {u k} hu => by
    rw [Machine.view, h.isEmpty.thread?] at hu
    cases hu
  obtain ⟨s, rfl⟩ := h
  exact .loose hnone (fun _ hk => by cases hk) ⟨fun hlt => absurd hlt (Nat.not_lt_zero t), fun hx => by cases hx⟩
    ⟨fun hc => (by cases hc), fun hx => (by cases hx)⟩

theorem Past.new (h : a.Shows t .unbuilt) : Past t .unbuilt [a] where
  starts := by simp [Stage.wasCalled, h.starts]
  stops := by simp [Stage.wasStopped, h.stops]
  started := by simp [Stage.wasStarted, Stage.wasCurrent, Stage.hasLeft, h.started]
  current := by simp [Stage.wasCurrent, Stage.hasLeft, h.uses]
  left {newer b older} heq _ hused := by
    cases newer with
    | nil =>
      obtain ⟨-, rfl⟩ := List.cons_eq_cons.mp heq
      obtain ⟨_, hmem, -⟩ := hused
      cases hmem
    | cons _ newer => cases newer <;> cases (List.cons_eq_cons.mp heq).2

/-- **At every moment of a run a transport has a stage**, and its past is what the stage says. -/
theorem IsRun.career (h : IsRun (a :: past)) (t : TransportId) : ∃ x, a.Shows t x ∧ Past t x (a :: past) := by
  refine (h.induction (P := fun a past => a.loop.SparesStops ∧ ∃ x, a.Shows t x ∧ Past t x (a :: past)) (fun hm => ?_)
    fun ha hb hg ⟨hs, x, hx, hpast⟩ => ?_).2.2
  · exact ⟨hm.sparesStops, .unbuilt, hm.shows t, .new (hm.shows t)⟩
  · obtain ⟨y, hy, hnext⟩ := hx.step (hg.traffic ha hb hs)
    exact ⟨hg.sparesStops ha hs, y, hy, hpast.step hnext hy⟩

/-- A transport that was started and is not current is gone, once nothing can go on by itself. -/
theorem Moment.Shows.gone {role : FutureId → Role} (h : a.Shows t x) (hf : Loop.Fits role a.loop) (hq : a.loop.isQuiet = true)
    (hs : x.wasStarted = true) (hc : x ≠ .current) : x = .gone := by
  simp only [isQuiet, Bool.and_eq_true, Option.isNone_iff_eq_none, List.isEmpty_iff] at hq
  have hlasts : x.lasts = true := h.lasts fun hu => Loop.lasts_of_idle hu fun y hy => by rw [hq.1] at hy; cases hy
  cases x with
  | gone => rfl
  | current => exact absurd rfl hc
  | tied k =>
    cases k with
    | lapsed =>
      -- the turn of the task that is to stop it has not come
      obtain ⟨u, hu⟩ := h.task rfl
      obtain ⟨th, hth, htie⟩ := Option.bind_eq_some_iff.mp hu
      have htop := Thread.tie_eq_lapsed.mp htie
      obtain ⟨root, -, hfits⟩ := hf.threads hth
      have hfresh : th = ⟨.fresh (.stop t), []⟩ := by
        cases hfits <;> cases htop
        rfl
      have hmem := hf.tidy.sound.woken.start.mpr ⟨_, hth.trans (congrArg some hfresh)⟩
      rw [hq.2] at hmem
      cases hmem
    | _ => first | (cases hlasts; done) | cases hs
  | _ => cases hs

/-- **Every transport is started once and stopped at most once.** Its stop is called only after its start returned and
after it was the current one; a transport whose start returned and that is not current has been stopped as soon as
nothing can go on by itself, whatever it ceased to be current by; and it is never current again. -/
theorem transport_calls (h : IsRun (a :: past)) (t : TransportId) :
    (a :: past).countP (·.starts t) = (if t < a.loop.state.transports.length then 1 else 0) ∧
    (a :: past).countP (·.stops t) ≤ 1 ∧
    (∀ newer b older, a :: past = newer ++ b :: older → b.stops t = true →
      (∃ c ∈ older, c.started t = true) ∧ (∃ c ∈ older, c.uses t = true) ∧ b.uses t = false) ∧
    (a.loop.isQuiet = true → (∃ b ∈ a :: past, b.started t = true) → a.uses t = false →
      (a :: past).countP (·.stops t) = 1) ∧
    ∀ newer b older, a :: past = newer ++ b :: older → (∃ c ∈ older, c.uses t = true) → b.uses t = false →
      ∀ d ∈ newer, d.uses t = false := by
  obtain ⟨x, hx, hpast⟩ := h.career t
  refine ⟨?_, ?_, fun newer b older heq hstops => ?_, fun hq hstarted huses => ?_,
    fun newer b older heq hused hfree d hd => ?_⟩
  · rw [hpast.starts]
    simp only [hx.built]
  · rw [hpast.stops]
    split <;> omega
  · rw [heq] at h
    obtain ⟨y, hy, hpast'⟩ := h.upTo.career t
    have hstage := hy.stops.mp hstops
    have hnot : ∀ {z : Stage}, z ≠ .tied .stopping → y ≠ z := fun hne heq => hne (heq.symm.trans hstage)
    have huses : b.uses t = false := Bool.eq_false_iff.mpr fun hb => hnot (by decide) (hy.uses.mp hb)
    subst hstage
    obtain ⟨c, hc, hcs⟩ := hpast'.started.mpr rfl
    obtain ⟨c', hc', hcu⟩ := hpast'.current.mpr rfl
    refine ⟨⟨c, (List.mem_cons.mp hc).resolve_left ?_, hcs⟩, ⟨c', (List.mem_cons.mp hc').resolve_left ?_, hcu⟩, huses⟩
    · rintro rfl
      cases hy.started.mp hcs
    · rintro rfl
      cases hy.uses.mp hcu
  · obtain ⟨role, hholds⟩ := h.holds
    have hgone := hx.gone hholds.fits hq (hpast.started.mp hstarted) fun hcur => by
      rw [hx.uses.mpr hcur] at huses
      cases huses
    rw [hpast.stops, hgone]
    rfl
  · -- the run up to the moment in question, which is newer than the one in which the transport is not current
    obtain ⟨newer', older', rfl⟩ := List.append_of_mem hd
    rw [heq, List.append_assoc] at h
    obtain ⟨y, hy, hpast'⟩ := h.upTo.career t
    have hleft := hpast'.left List.cons_append.symm hfree hused
    refine Bool.eq_false_iff.mpr fun hdu => ?_
    rw [hy.uses.mp hdu] at hleft
    cases hleft

end past

/-- A session over rehearsed transports in which somebody has opened a listener. -/
def openedSession : Loop :=
  (Loop.stimulate 20 (Loop.stimulate 0 { state := { medium := .rehearsals } } .listen).1 (.ask (.openListener 0))).1

/-- The same session when the transport's stop is called, as the listener is closed. -/
def stoppingSession : Loop := (Loop.stimulate 4 openedSession (.ask (.closeListener 0))).1

/-- The transport of the session was started once, and was current, before it is stopped. -/
theorem calls_while_stopping : ∃ a past, IsRun (a :: past) ∧ a.loop = stoppingSession ∧ a.stops 0 = true ∧
    (a :: past).countP (·.starts 0) = 1 ∧ (∃ b ∈ past, b.started 0 = true) ∧ (∃ b ∈ past, b.uses 0 = true) ∧
    a.uses 0 = false := by
  obtain ⟨past, hlisten⟩ := (IsRun.new (m := { state := { medium := .rehearsals } }) ⟨{ medium := .rehearsals }, rfl⟩).stimulate
    (s := .listen) rfl trivial 0
  obtain ⟨past', hopen⟩ := hlisten.stimulate (s := .ask (.openListener 0)) (by rfl)
    ⟨rfl, fun l hl => by cases hl; exact List.mem_singleton.mpr rfl⟩ 20
  obtain ⟨past'', hclose⟩ := hopen.stimulate (s := .ask (.closeListener 0)) (by rfl)
    ⟨rfl, fun l hl => by cases hl; exact List.mem_singleton.mpr rfl⟩ 4
  have hbuilt : 0 < stoppingSession.state.transports.length := by decide +kernel
  obtain ⟨hstarts, -, hstops, -⟩ := transport_calls hclose 0
  have hcalled := hstops [] _ _ rfl (by rfl)
  exact ⟨_, past'', hclose, rfl, by rfl, hstarts.trans (if_pos hbuilt), hcalled⟩

end DiagnosticsClient
