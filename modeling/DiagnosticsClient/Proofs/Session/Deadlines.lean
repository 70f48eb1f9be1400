import DiagnosticsClient.Proofs.Session.Guards
/-
Setting a limit, and waiting for the end of a task.

Whoever limits the time of a routine makes a task for it and waits for a future of his own,
which a timer or the end of that task settles (`Limits`). The new task is started before
the timer has its turn. Whoever cancels a task and waits for its end waits for a future
that only this end settles (`Deed.awaitsEnd`).
-/
namespace DiagnosticsClient

open Async Async.Machine

namespace Loop

variable {role role' : FutureId → Role} {usage : Usage} {m m' : Loop} {t u v : TaskId} {w f : FutureId} {root called : Routine}
  {stack : List Frame} {limit : Seconds} {inner : Routine} {time d : Binary64} {P : Prop}

/-- A task has begun to limit the time of a new one, up to a time `d`. -/
structure Limits (m m' : Loop) (u : TaskId) (inner : Routine) (stack : List Frame) (d : Binary64) : Prop where
  thread : m'.thread? u = some ⟨.waits (m.futures.size + 1), .timing m.tasks.size (m.futures.size + 1) :: stack⟩
  made : m'.routine? m.tasks.size = some inner
  owner : m'.owner? m.futures.size = some (some m.tasks.size)
  timed : ∀ {P : Prop}, (isDue m.now d = true → P) → (m'.isSettled m.futures.size = true → P) →
    Timed (m.futures.size + 1) m.futures.size d P m'
  starts : m'.Precedes (.start m.tasks.size) (m.futures.size + 1)
  ready : ∃ more, m'.ready = m.ready ++ .start m.tasks.size :: more ∧ ∀ k ∈ more, k = .expire (m.futures.size + 1)

/-- What a task does next wakes nobody. -/
theorem Deed.ready {s : Loop × Move} {x : Running Routine Frame Value Failure}
    (hd : Deed role role' m t root called stack s usage) (hr : m.running = some x) (hx : x.task = t) :
    (s.1.perform t stack s.2).ready = s.1.ready := by
  subst hx
  obtain ⟨m₁, a⟩ := s
  have hlt := hd.lt_size
  cases a with
  | await f F =>
    unfold Machine.perform
    dsimp only
    split
    · rfl
    · next ho =>
      exact (suspend_parks hd.does.tidy.sound (hd.does.effect.extends.running.trans hr) (hlt f F rfl) (isSettled_eq_false.mpr ho)
        (F :: stack)).ready
  | _ => rfl

/-- Whoever's turn it is runs. -/
theorem Fits.runs_of_task {h : Handle Value Failure} {rest : List (Handle Value Failure)} (hf : Fits role m usage)
    (hr : m.running = none) (hready : m.ready = h :: rest) (hh : h.task? = some v) :
    ∃ x, (({ m with ready := rest } : Loop).handle h).running = some x ∧ x.task = v := by
  cases h with
  | start t =>
    cases hh
    obtain ⟨r, -, ⟨-, hclaims⟩ | ⟨-, hclaims⟩⟩ := startTask_claims hf.tidy.sound hr hready
    · exact ⟨_, hclaims.runs, rfl⟩
    · exact ⟨_, hclaims.runs, rfl⟩
  | notify c f =>
    cases c <;> cases hh
    obtain ⟨stack, o, -, -, hclaims⟩ := resumeTask_claims hf.tidy.sound hr hready (.value default)
    exact ⟨_, hclaims.runs, rfl⟩
  | expire w => cases hh
  | deliver f o => cases hh

/-- The end of a task is seen from its future. -/
theorem hasEnded_of_owner (ho : m.Owned) (hf : m.owner? f = some (some v)) (hset : m.isSettled f = true) :
    m.hasEnded v = true := by
  obtain ⟨task, htask, rfl⟩ := ho.task hf
  rw [hasEnded, taskOutcome?, htask]
  exact hset

theorem routine?_size (m : Loop) : m.routine? m.tasks.size = none := by
  rw [routine?, Array.getElem?_eq_none (Nat.le_refl _)]
  rfl

theorem outcome?_of_ge (h : m.futures.size ≤ f) : m.outcome? f = none := by
  rw [outcome?, Array.getElem?_eq_none h]
  rfl

/-- **A limit is set**, if there is time at all and the clock can count it. -/
theorem Deed.limits (hf : Fits role m usage) (hr : m.running = some (.begin u (.within limit inner) stack))
    (hd : Deed role role' m u root called stack (begin (.within limit inner) m) usage)
    (hover : limit.isOver = false) (htime : limit.toBinary? = some time) :
    Limits m ((begin (.within limit inner) m).1.perform u stack (begin (.within limit inner) m).2) u inner stack (m.now.add time) := by
  let w := m.futures.size + 1
  let m₀ := (m.spawn inner).1
  let m₁ := m₀.newFuture.1.addTimer (m.now.add time) m₀.futures.size
  have hsize : m₀.futures.size = w := by simp [m₀, w, Machine.spawn]
  have htasks : m₁.tasks = m₀.tasks := by
    unfold m₁ Machine.addTimer
    split <;> rfl
  have hfutures : m₁.futures = m₀.newFuture.1.futures := by
    unfold m₁ Machine.addTimer
    split <;> rfl
  have howner₀ : m₁.futureOf m.tasks.size = m.futures.size := by
    simp only [futureOf, htasks, m₀, getElem?_spawn, if_true]
    rfl
  have hnone : ∀ {f}, m.futures.size ≤ f → m₁.outcome? f = none := fun hge => by
    rw [outcome?, hfutures, ← outcome?, newFuture, outcome?_push rfl, outcome?_spawn, outcome?_of_ge hge]
  have hun : m₁.isSettled m.futures.size = false := isSettled_eq_false.mpr (hnone (Nat.le_refl _))
  let m₂ := m₁.addCallback m.futures.size (.release m₀.futures.size)
  have hm₂ : m₂ = m₁.mapCallbacks m.futures.size (· ++ [.release m₀.futures.size]) := by
    unfold m₂ Machine.addCallback
    rw [if_neg (by rw [hun]; exact Bool.false_ne_true)]
    rfl
  have hwithin : begin (.within limit inner) m = (m₂, .await w (.timing m.tasks.size w)) := by
    rw [show begin (.within limit inner) m = within limit inner m from rfl, ← hsize]
    unfold m₂
    rw [← howner₀]
    simp only [within, hover, htime, Bool.false_eq_true, if_false]
    rfl
  have hlt := hd.lt_size
  rw [hwithin] at hd hlt ⊢
  obtain ⟨hspawn, -⟩ := Aside.spawn (K := fun _ => True) (S := fun _ => True) hf.tidy (r := inner) trivial
  have hroot : m₂.routine? m.tasks.size = some inner := by
    have hroutine := routine?_of_within (m := m) (v := m.tasks.size) (.inr ⟨_, _, congrArg Prod.snd hwithin⟩)
    rwa [show within limit inner m = _ from hwithin] at hroutine
  have howner : m₂.owner? m.futures.size = some (some m.tasks.size) := by
    have hnew : m₀.owner? m.futures.size = some (some m.tasks.size) := by rw [owner?_spawn, if_pos rfl]
    exact (Aside.timed (K := fun _ => True) (S := fun _ => True) hspawn.tidy _ m.futures.size).1.effect.extends.owner hnew
  have havoids : Avoids w m₂ (m₂.perform u stack (.await w (.timing m.tasks.size w))) :=
    perform_avoids hd.does.tidy.sound (hd.does.effect.extends.running.trans hr) stack _ hlt
  have hnew : Timed w m.futures.size (m.now.add time) (isDue m.now (m.now.add time) = true) m₂ := by
    rw [← hsize]
    exact ((Timed.new hspawn.tidy.sound _ _ _).addTimer id).addCallback fun hset => by cases hun.symm.trans hset
  have hnone₂ : m₂.outcome? w = none := by
    rw [hm₂, outcome?_mapCallbacks]
    exact hnone (Nat.le_succ _)
  have hready : ∃ more, m₂.ready = m.ready ++ .start m.tasks.size :: more ∧ ∀ k ∈ more, k = .expire w := by
    rw [hm₂]
    change ∃ more, m₁.ready = _ ∧ _
    unfold m₁ Machine.addTimer
    split
    · refine ⟨[.expire m₀.futures.size], by simp [m₀, newFuture, Machine.spawn, Machine.enqueue], fun k hk => ?_⟩
      rw [List.mem_singleton.mp hk, hsize]
    · exact ⟨[], by simp [m₀, newFuture, Machine.spawn], fun k hk => by cases hk⟩
  refine ⟨?_, (hd.switch.routine _).trans hroot, (hd.switch.owner _).trans howner,
    fun hp hset => hnew.avoids havoids hp hset, Precedes.avoids ?_ havoids, ?_⟩
  · rw [hd.switch.self]
    simp only [nextThread, hnone₂]
    rfl
  · -- whatever is ready before the start of the new task was ready before, and is not about the new future
    refine ⟨isSettled_eq_false.mpr hnone₂, m.ready, m₂.ready.drop (m.ready.length + 1), ?_, fun h hh hw => ?_⟩
    · obtain ⟨more, hready, -⟩ := hready
      rw [hready, List.drop_append]
      simp
    · have hltw := (hf.tidy.sound.targets.ready hh hw).1.lt_size
      exact absurd hltw (Nat.not_lt_of_le (Nat.le_succ _))
  · rwa [hd.ready hr rfl]

/-- Cancelling a task settles nobody, but it cancels a future that is waited for. -/
def hush (K : TaskId → Prop) : Licence Routine :=
  { target := fun _ => False, wake := fun _ => False, cancel := K, spawn := fun _ => False }

/-- **Whoever cancels a task and waits for its end** waits for a future that its end settles, or he is cancelled. -/
theorem Deed.awaitsEnd (hf : Fits role m usage) (hr : m.running = some (.begin u (.cancelAndWait v) stack))
    (hd : Deed role role' m u root called stack (begin (.cancelAndWait v) m) usage) (d : Binary64)
    (hm : m' = (begin (.cancelAndWait v) m).1.perform u stack (begin (.cancelAndWait v) m).2) :
    Timed m.futures.size (m.futureOf v) d True m' ∨ m'.outcome? m.futures.size = some .cancelled := by
  obtain ⟨root', hroot, hfits⟩ := hf.threads (thread?_of_running hr)
  cases hfits with
  | begins hv hstands hstacked =>
    have hx : m.Executes (.cancelAndWait v) := by
      cases hstands
      exact ⟨u, _, root', stack, hr, .refl _, hroot, hstacked⟩
    have hspares : m.SparesReaders := hx.sparesReaders rfl fun c hc => by cases hc
    let m₁ := m.newFuture.1.addCallback (m.futureOf v) (.release m.futures.size)
    obtain ⟨hnew, hrole⟩ := Aside.future (K := m.Cancellable) (S := fun _ => True) hf.tidy
    have hcall := hnew.trans (Aside.addCallback (K := m.Cancellable) (S := fun _ => True) hnew.tidy hrole (m.futureOf v))
    have hext := hcall.effect.extends
    have htimed : Timed m.futures.size (m.futureOf v) d True m₁ := (Timed.new hf.tidy.sound _ d True).addCallback fun _ => trivial
    -- the cancellation leaves the new future alone, unless it cancels it
    have hcancels : m₁.Cancels (hush m.Cancellable) := by
      intro t f ht hw
      rcases (hf.cancels hspares.cancellable : m.Cancels (hush m.Cancellable)) ht (hext.waitsFor? hw) with hplain | ⟨t', ht', hown⟩
      · exact .inl (hext.owner hplain)
      · exact .inr ⟨t', ht', hext.owner hown⟩
    have hcan := hx.cancellable hf hv
    obtain ⟨r, hr', -⟩ := hcan.1
    obtain ⟨task, htask, -⟩ := Option.map_eq_some_iff.mp (hext.routine? hr')
    have heff : Effect (hush m.Cancellable) m₁ (m₁.cancelTask v).1 :=
      cancelTask_effect hcall.tidy.sound.owned hcancels (fun ht r hr => ht.2 r (hext.running ▸ hr)) hcan
        (Array.getElem?_eq_some_iff.mp htask).1
    have hperform : Avoids m.futures.size (m₁.cancelTask v).1 m' := by
      rw [hm]
      exact perform_avoids hd.does.tidy.sound (hd.does.effect.extends.running.trans hr) stack _ hd.lt_size
    rcases heff.avoids_or_cancelled id id with havoids | hcancelled
    · exact .inl ((htimed.avoids havoids id fun _ => trivial).avoids hperform id fun _ => trivial)
    · exact .inr (hperform.outcome.trans hcancelled)

end Loop

end DiagnosticsClient
