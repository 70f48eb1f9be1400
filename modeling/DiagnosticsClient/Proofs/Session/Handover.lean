import DiagnosticsClient.Proofs.Session.Invariants
import DiagnosticsClient.Proofs.Session.Launching
/-
The lock is handed over.

Whoever is in the queue of the lock is a task that waits, and while the lock is
free the first of them has been woken (`Prompt`). A step that frees the lock wakes
him, and so does one who leaves the queue while the lock is free. So nobody is in
the queue when nothing can go on by itself and the lock is free
(`IsRun.nobody_queues`).
-/
namespace DiagnosticsClient

open Async Async.Machine

namespace Async.Machine

variable {σ ρ φ ν ε : Type} {m : Machine σ ρ φ ν ε} {t : TaskId} {T : FutureId → Prop} {th : Thread ρ φ ν ε}

/-- When nothing can go on, whoever has not ended waits for a future that is not settled. -/
theorem Sound.waits_of_quiet (hs : m.Sound T) (hq : m.isQuiet = true) (hth : m.thread? t = some th) :
    ∃ f stack, th = ⟨.waits f, stack⟩ ∧ m.isSettled f = false := by
  simp only [isQuiet, Bool.and_eq_true, Option.isNone_iff_eq_none, List.isEmpty_iff] at hq
  obtain ⟨top, stack⟩ := th
  have hidle : top.isIdle = false → False := fun hbusy => by
    obtain ⟨x, hx, -⟩ := running_of_thread? hth hbusy
    cases hq.1.symm.trans hx
  cases top with
  | fresh r =>
    obtain ⟨task, -, -, ⟨-, heq⟩ | ⟨_, _, -, -, heq⟩⟩ := exists_task_of_thread? hq.1 hth
    · cases heq
      have hmem := hs.woken.start.mpr ⟨_, hth⟩
      rw [hq.2] at hmem
      cases hmem
    · cases heq
  | waits f =>
    refine ⟨f, stack, rfl, Bool.eq_false_iff.mpr fun hset => ?_⟩
    have hmem := hs.woken.notify.mpr ⟨hset, stack, hth⟩
    rw [hq.2] at hmem
    cases hmem
  | begins r => exact (hidle rfl).elim
  | resumes o => exact (hidle rfl).elim

end Async.Machine

namespace Loop

variable {role role' : FutureId → Role} {m m' : Loop} {t u : TaskId} {w : FutureId} {root called r : Routine} {F : Frame}
  {stack : List Frame} {o : Ending} {s : Loop × Move} {held : List ListenerId}

/-- Whoever is in the queue of the lock is a task that waits; while the lock is free, the first has been woken. -/
structure Prompt (m : Loop) : Prop where
  manned : ∀ w ∈ m.state.lock.waiters, ∃ t, m.view Thread.station t = some (.queued w)
  woken : m.state.lock.held = false → ∀ w, m.state.lock.waiters.head? = some w → m.isSettled w = true

/-- Only a frame that waits for the lock stands in its queue. -/
theorem eq_locking_of_station {top : Top Routine Value Failure} (h : Thread.station ⟨top, F :: stack⟩ = some (.queued w)) :
    F = .locking w := by
  rw [station_cons] at h
  have hrest : holdOf stack ≠ some (.queued w) := fun h => by
    obtain ⟨G, -, hG⟩ := exists_of_holdOf h
    cases G <;> cases hG
  cases F with
  | locking v =>
    cases h
    rfl
  | registering l => simp only [Frame.station] at h; split at h <;> first | cases h | exact absurd h hrest
  | leaving l => simp only [Frame.station] at h; split at h <;> first | cases h | exact absurd h hrest
  | closing => simp only [Frame.station] at h; split at h <;> first | cases h | exact absurd h hrest
  | starting l t => cases h
  | releasing => cases h
  | _ => exact absurd h hrest

/-- The running task is in the queue of the lock only if its wait is over. -/
theorem Fits.resumes_of_queued (hf : Fits role m) {x : Running Routine Frame Value Failure} (hr : m.running = some x)
    (hp : m.view Thread.station x.task = some (.queued w)) : ∃ o stack, x = .resume x.task o (.locking w :: stack) := by
  have hth := thread?_of_running hr
  rw [view_station hth] at hp
  obtain ⟨root, -, hfits⟩ := hf.threads hth
  cases x with
  | begin t r stack =>
    cases hfits with
    | begins _ _ hstack =>
      have hhold : holdOf stack = some (.queued w) := hstack.station_begins.symm.trans hp
      obtain ⟨F, -, hF⟩ := exists_of_holdOf hhold
      cases F <;> cases hF
  | resume t o stack =>
    cases stack with
    | nil => cases hp
    | cons F stack =>
      obtain rfl := eq_locking_of_station hp
      exact ⟨o, stack, rfl⟩

namespace Prompt

/-- Nobody enters or leaves the queue; if the lock is free, the first has been woken. -/
theorem keep (h : m.Prompt) (hl : m'.state.lock.waiters = m.state.lock.waiters)
    (hp : ∀ t w, m.view Thread.station t = some (.queued w) → m'.view Thread.station t = some (.queued w))
    (hw : m'.state.lock.held = false → ∀ w, m.state.lock.waiters.head? = some w → m'.isSettled w = true) : m'.Prompt where
  manned w hmem := by
    obtain ⟨t, ht⟩ := h.manned w (hl ▸ hmem)
    exact ⟨t, hp t w ht⟩
  woken hfree w hhead := hw hfree w (hl ▸ hhead)

/-- The lock stays as it was, and so does whoever waits for it. -/
theorem stay (h : m.Prompt) (hl : m'.state.lock = m.state.lock)
    (hp : ∀ t w, m.view Thread.station t = some (.queued w) → m'.view Thread.station t = some (.queued w))
    (hs : ∀ w ∈ m.state.lock.waiters, m.isSettled w = true → m'.isSettled w = true) : m'.Prompt :=
  h.keep (by rw [hl]) hp fun hfree w hhead => hs w (List.mem_of_head? hhead) (h.woken (hl ▸ hfree) w hhead)

end Prompt

theorem Deed.isSettled (hd : Deed role role' m t root called stack s) (hw : m.IsPlain w) :
    Machine.isSettled (s.1.perform t stack s.2) w = s.1.isSettled w := by
  unfold Machine.isSettled
  rw [hd.switch.outcome (hd.does.effect.extends.owner hw)]

/-- The running task is not in the queue, and leaves the queue as it is. -/
theorem Deed.prompt {x : Running Routine Frame Value Failure} (hd : Deed role role' m t root called stack s) (h : m.Prompt)
    (hf : Fits role m) (hr : m.running = some x) (hx : x.task = t)
    (hn : ∀ w o stack, x ≠ .resume t o (.locking w :: stack)) (hl : s.1.state.lock.waiters = m.state.lock.waiters)
    (hw : s.1.state.lock.held = false → ∀ w, m.state.lock.waiters.head? = some w → s.1.isSettled w = true) :
    Prompt (s.1.perform t stack s.2) := by
  refine h.keep (by rw [hd.state, hl]) (fun u w hu => ?_) fun hfree w hhead => ?_
  · have hne : u ≠ t := by
      rintro rfl
      rw [← hx] at hu
      obtain ⟨o, stack', heq⟩ := hf.resumes_of_queued hr hu
      exact hn w o stack' (by rw [hx] at heq; exact heq)
    rwa [hd.view_other hf (fun _ => rfl) hne]
  · rw [hd.isSettled (hf.tidy.names.lock w (List.mem_of_head? hhead)).1]
    rw [hd.state] at hfree
    exact hw hfree w hhead

/-- And the lock as well. -/
theorem Deed.prompt_of_lock {x : Running Routine Frame Value Failure} (hd : Deed role role' m t root called stack s)
    (h : m.Prompt) (hf : Fits role m) (hr : m.running = some x) (hx : x.task = t)
    (hn : ∀ w o stack, x ≠ .resume t o (.locking w :: stack)) (hl : s.1.state.lock = m.state.lock) :
    Prompt (s.1.perform t stack s.2) :=
  hd.prompt h hf hr hx hn (by rw [hl]) fun hfree w hhead => settled_of_effect hd.does.effect (h.woken (hl ▸ hfree) w hhead)

/-! ## Waking -/

theorem isSettled_wakeLock (hhead : m.state.lock.waiters.head? = some w) (hw : m.IsPlain w) : m.wakeLock.isSettled w = true := by
  unfold wakeLock
  cases hq : m.state.lock.waiters with
  | nil => rw [hq] at hhead; cases hhead
  | cons f rest =>
    rw [hq] at hhead
    cases hhead
    dsimp only
    cases hset : m.isSettled w with
    | true => rwa [settle_of_isSettled hset]
    | false =>
      rw [isSettled_settle hw.lt_size hset]
      simp

/-- Whoever frees the lock wakes the first who waits for it. -/
theorem Deed.prompt_of_release {x : Running Routine Frame Value Failure} {n : Loop}
    (hd : Deed role role' m t root called stack s) (h : m.Prompt) (hf : Fits role m) (hr : m.running = some x)
    (hx : x.task = t) (hn : ∀ w o stack, x ≠ .resume t o (.locking w :: stack)) (hs : s.1 = n.releaseLock)
    (hl : n.state.lock = m.state.lock) : Prompt (s.1.perform t stack s.2) := by
  have hwaiters : s.1.state.lock.waiters = m.state.lock.waiters := by rw [hs, releaseLock_state, hl]
  refine hd.prompt h hf hr hx hn hwaiters fun _ w hhead => ?_
  have hplain := hd.does.effect.extends.owner (hf.tidy.names.lock w (List.mem_of_head? hhead)).1
  rw [hs] at hplain ⊢
  have howner : (n.modifyLock fun lock => { lock with held := false }).wakeLock.owner? w = some none := hplain
  have hsame : ∀ m : Loop, m.wakeLock.owner? w = m.owner? w := fun m => by
    unfold wakeLock
    split
    · rfl
    · exact owner?_settle
  rw [hsame] at howner
  exact isSettled_wakeLock (show n.state.lock.waiters.head? = some w from hl ▸ hhead) howner

/-- What a holder of the lock does leaves the lock alone or frees it. -/
theorem resume_desk_lock (hf : Fits role m) (hF : F.isDesk = true) (o : Ending) :
    (resume F o m).1.state.lock = m.state.lock ∨ ∃ n : Loop, (resume F o m).1 = n.releaseLock ∧ n.state.lock = m.state.lock := by
  have hdesk := Works.modifyDesk (K := fun _ => True) (S := fun _ => True) hf.tidy
  cases F with
  | registering l =>
    have hadd := (Aside.addTransport (K := fun _ => True) (S := fun _ => True) (hdesk (· ++ [l]) id).tidy).core
    simp only [resume, registerLocked]
    split
    · split
      · exact .inr ⟨_, rfl, rfl⟩
      · exact .inl (congrArg Core.lock hadd)
    · exact .inl rfl
  | starting l t =>
    simp only [resume, startResumed]
    split <;> exact .inr ⟨_, rfl, rfl⟩
  | leaving l =>
    simp only [resume, leaveLocked]
    split
    · split
      · split
        · exact .inl rfl
        · exact .inr ⟨_, rfl, rfl⟩
      · exact .inr ⟨m, rfl, rfl⟩
    · exact .inl rfl
  | closing =>
    have hall := (detachAll_delivers (K := fun _ => True) (S := fun _ => True) hf.tidy none).lock
    simp only [resume, closeLocked]
    split
    · split
      · exact .inl hall
      · exact .inr ⟨_, rfl, hall⟩
    · exact .inl rfl
  | _ => cases hF

/-! ## Entering and leaving the queue -/

/-- Who asks for the lock takes it, or queues behind those who wait already. -/
theorem Prompt.of_acquire (h : m.Prompt) (hf : Fits role m) (hr : m.running = some (.begin t .acquireLock stack))
    (hd : Deed role role' m t root .acquireLock stack (begin .acquireLock m)) :
    Prompt ((begin .acquireLock m).1.perform t stack (begin .acquireLock m).2) := by
  cases hfree : m.lockIsFree with
  | true =>
    have hbegin : begin .acquireLock m = (m.takeLock, nothing) := by simp only [begin, acquire, hfree, if_true]
    refine hd.prompt h hf hr rfl (fun _ _ _ h => by cases h) (by rw [hbegin]; rfl) fun hno => ?_
    rw [hbegin] at hno
    cases hno
  | false =>
    have hbegin : begin .acquireLock m = (m.future.1.modifyLock fun lock =>
        { lock with waiters := lock.waiters ++ [m.futures.size] }, .await m.futures.size (.locking m.futures.size)) := by
      simp only [begin, acquire, hfree, Bool.false_eq_true, if_false]
      rfl
    rw [hbegin] at hd ⊢
    have hwaiters : (m.future.1.modifyLock fun lock => { lock with waiters := lock.waiters ++ [m.futures.size] }).state.lock =
        { m.state.lock with waiters := m.state.lock.waiters ++ [m.futures.size] } := rfl
    refine ⟨fun w hmem => ?_, fun hheld w hhead => ?_⟩
    · rw [hd.state, hwaiters] at hmem
      rcases List.mem_append.mp hmem with hmem | hmem
      · obtain ⟨u, hu⟩ := h.manned w hmem
        have hne : u ≠ t := by
          rintro rfl
          obtain ⟨_, _, heq⟩ := hf.resumes_of_queued hr hu
          cases heq
        exact ⟨u, (hd.view_other hf (fun _ => rfl) hne).trans hu⟩
      · obtain rfl := List.mem_singleton.mp hmem
        refine ⟨t, hd.view_self.trans ?_⟩
        unfold nextThread
        dsimp only
        split <;> rfl
    · -- the lock is free and yet cannot be taken: somebody waits for it
      rw [hd.state, hwaiters] at hheld hhead
      have hne : m.state.lock.waiters ≠ [] := by
        intro hnil
        simp [lockIsFree, show m.state.lock.held = false from hheld, hnil] at hfree
      obtain ⟨v, hv⟩ := Option.ne_none_iff_exists'.mp (mt List.head?_eq_none_iff.mp hne)
      rw [List.head?_append, hv] at hhead
      cases hhead
      rw [hd.isSettled (hf.tidy.names.lock w (List.mem_of_head? hv)).1]
      exact settled_of_effect hd.does.effect (h.woken hheld w hv)

/-- Who waited for the lock leaves the queue. If he leaves the lock free, he wakes the next. -/
theorem Prompt.of_locking (h : m.Prompt) (hf : Fits role m) (hc : m.Coherent)
    (hr : m.running = some (.resume t o (.locking w :: stack)))
    (hd : Deed role role' m t root .acquireLock stack (resume (.locking w) o m)) :
    Prompt ((resume (.locking w) o m).1.perform t stack (resume (.locking w) o m).2) := by
  have hp : m.view Thread.station t = some (.queued w) := view_station (thread?_of_running hr)
  let n : Loop := m.modifyLock fun lock => { lock with waiters := lock.waiters.erase w }
  have hwaiters : (resume (.locking w) o m).1.state.lock.waiters = m.state.lock.waiters.erase w := by
    simp only [resume, acquireResumed]
    split
    · rfl
    · dsimp only
      split
      · rfl
      · rw [wakeLock_state]
        rfl
  refine ⟨fun v hmem => ?_, fun hheld v hhead => ?_⟩
  · rw [hd.state, hwaiters] at hmem
    obtain ⟨u, hu⟩ := h.manned v (List.mem_of_mem_erase hmem)
    have hne : u ≠ t := by
      rintro rfl
      cases hp.symm.trans hu
      exact List.Nodup.not_mem_erase hc.nodup hmem
    exact ⟨u, (hd.view_other hf (fun _ => rfl) hne).trans hu⟩
  · rw [hd.state] at hheld hhead
    rw [hwaiters] at hhead
    have hplain := (hf.tidy.names.lock v (List.mem_of_mem_erase (List.mem_of_head? hhead))).1
    rw [hd.isSettled hplain]
    cases o with
    | value x => cases hheld
    | _ =>
      simp only [resume, acquireResumed] at hheld ⊢
      split at hheld
      · next hlock => cases hlock.symm.trans hheld
      · next hlock =>
        rw [if_neg hlock]
        exact isSettled_wakeLock (m := n) hhead hplain

/-! ## All steps -/

/-- **A step keeps the lock prompt.** -/
theorem Prompt.tick (h : m.Prompt) (hf : Fits role m) (hc : m.Coherent) (ht : Tick role m role' m') (hf' : Fits role' m') :
    m'.Prompt := by
  cases ht with
  | @awakes _ t th th' idle hth how switch =>
    refine h.stay (by rw [switch.state]) (fun u w hu => ?_) fun w hmem hset => ?_
    · by_cases hut : u = t
      · subst hut
        rw [view_station hth] at hu
        rw [switch.view_self]
        obtain ⟨root, -, hfits⟩ := hf.threads hth
        cases how with
        | begins => cases hu
        | dropped => cases hu
        | resumes =>
          cases hfits with
          | waits => exact eq_locking_of_station hu ▸ rfl
        | interrupted =>
          cases hfits with
          | waits => exact eq_locking_of_station hu ▸ rfl
      · exact (switch.view_other hut).trans hu
    · unfold Machine.isSettled at hset ⊢
      rwa [switch.outcome (hf.tidy.names.lock w hmem).1]
  | passes idle he hstate =>
    refine h.stay (by rw [hstate]) (fun u w hu => ?_) fun w _ hset => ?_
    · exact (he.view hf.tidy.sound hf'.tidy.sound (fun _ => rfl) u).trans hu
    · obtain ⟨o, ho⟩ := isSettled_iff.mp hset
      exact isSettled_iff.mpr ⟨o, he.outcome ho⟩
  | @ends _ t o runs switch outcome =>
    refine h.stay (by rw [switch.state]) (fun u w hu => ?_) fun w hmem hset => ?_
    · have hne : u ≠ t := by
        rintro rfl
        obtain ⟨_, _, heq⟩ := hf.resumes_of_queued runs hu
        cases heq
      exact (switch.view_other hne).trans hu
    · unfold Machine.isSettled at hset ⊢
      rwa [switch.outcome (hf.tidy.names.lock w hmem).1]
  | begins runs valid stands how deed =>
    cases how with
    | minor _ _ hheard => exact deed.prompt_of_lock h hf runs rfl (fun _ _ _ h => by cases h) hheard.lock
    | mild _ _ _ hmild => exact deed.prompt_of_lock h hf runs rfl (fun _ _ _ h => by cases h) hmild.lock
    | acquire => exact h.of_acquire hf runs deed
    | take l =>
      refine deed.prompt_of_lock h hf runs rfl (fun _ _ _ h => by cases h) ?_
      simp only [begin, Loop.take]
      split <;> rfl
  | @resumes t o F called root stack runs serves gets woke how deed =>
    by_cases hlocking : ∃ w, F = .locking w
    · obtain ⟨w, rfl⟩ := hlocking
      cases serves with
      | locking => exact h.of_locking hf hc runs deed
    · have hn : ∀ w o' stack', (.resume t o (F :: stack) : Running Routine Frame Value Failure) ≠
          .resume t o' (.locking w :: stack') := by
        rintro w o' stack' heq
        cases heq
        exact hlocking ⟨w, rfl⟩
      have hdesk : F.isDesk = true → Prompt ((resume F o m).1.perform t stack (resume F o m).2) := fun hF => by
        rcases resume_desk_lock hf hF o with hl | ⟨n, hs, hl⟩
        · exact deed.prompt_of_lock h hf runs rfl hn hl
        · exact deed.prompt_of_release h hf runs rfl hn hs hl
      cases how with
      | minor _ _ hheard => exact deed.prompt_of_lock h hf runs rfl hn hheard.lock
      | mild _ _ hmild => exact deed.prompt_of_lock h hf runs rfl hn hmild.lock
      | locking w => exact absurd ⟨w, rfl⟩ hlocking
      | releasing => exact deed.prompt_of_release h hf runs rfl hn (n := m) rfl rfl
      | getting _ _ hcalm => exact deed.prompt_of_lock h hf runs rfl hn hcalm.lock
      | _ => exact hdesk rfl

/-- **What reaches a session from outside keeps its lock prompt.** -/
theorem Prompt.after {i : Stimulus} (h : m.Prompt) (hf : Fits role m) (hr : m.running = none) (ha : i.Admissible held m) :
    (m.apply i).1.Prompt := by
  have hstay : ∀ {may : Licence Routine} {T : FutureId → Prop} {m' : Loop}, m.Extends may m' → m'.Sound T →
      m'.state.lock = m.state.lock → m'.Prompt := fun he hs hlock => by
    refine h.stay hlock (fun u w hu => (he.view hf.tidy.sound hs (fun _ => rfl) u).trans hu) fun w _ hset => ?_
    obtain ⟨o, ho⟩ := isSettled_iff.mp hset
    exact isSettled_iff.mpr ⟨o, he.outcome ho⟩
  exact apply_cases (P := Loop.Prompt) hf hr ha (h.stay rfl (fun _ _ hu => hu) fun _ _ hset => hset)
    (h.stay rfl (fun _ _ hu => hu) fun _ _ hset => hset) (fun hset => hstay hset.extends_ hset.sound (congrArg State.lock hset.state))
    fun hears => hstay hears.effect.extends hears.tidy.sound hears.lock

theorem IsNew.prompt (h : m.IsNew) : m.Prompt := by
  obtain ⟨s, rfl⟩ := h
  refine ⟨fun w hw => ?_, fun _ w hw => ?_⟩ <;> cases hw

end Loop

variable {a : Moment} {past : List Moment}

theorem IsRun.prompt (h : IsRun (a :: past)) : a.loop.Prompt := by
  refine (h.induction (P := fun a _ => a.loop.Prompt) (fun hm => hm.prompt) fun {_ _ a b _} ha hb hg hp => ?_).2
  cases hg with
  | tick hq ht => exact hp.tick ha.fits ha.coherent ht hb.fits
  | stimulus hr hs => exact hp.after ha.fits hr hs

/-- **Nobody waits for a free lock**: when nothing can go on by itself and the lock is free, its queue is empty. -/
theorem IsRun.nobody_queues (h : IsRun (a :: past)) (hq : a.loop.isQuiet = true) (hfree : a.loop.state.lock.held = false) :
    a.loop.state.lock.waiters = [] := by
  obtain ⟨role, hholds⟩ := h.holds
  have hp := h.prompt
  cases hw : a.loop.state.lock.waiters with
  | nil => rfl
  | cons w rest =>
    have hset := hp.woken hfree w (by rw [hw]; rfl)
    obtain ⟨t, ht⟩ := hp.manned w (by rw [hw]; exact List.mem_cons_self)
    obtain ⟨th, hth, hstation⟩ := Option.bind_eq_some_iff.mp ht
    obtain ⟨f, stack, rfl, hun⟩ := hholds.fits.tidy.sound.waits_of_quiet hq hth
    obtain ⟨root, -, hfits⟩ := hholds.fits.threads hth
    cases hfits with
    | waits _ hawaits =>
      obtain rfl := Loop.eq_locking_of_station hstation
      cases hawaits
      rw [hset] at hun
      cases hun

end DiagnosticsClient
