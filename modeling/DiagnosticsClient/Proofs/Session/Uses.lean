import DiagnosticsClient.Proofs.Session.Runs
/-
Which listeners a thread has to do with.

A caller who listens by himself works with a listener he was given, and whoever
asks for diagnostics works with one of his own that nobody else knows
(`Known`). A routine is about the listener that its caller is about, but for
those that make a new one.
-/
namespace DiagnosticsClient

open Async Async.Machine

/-- The listener that a frame is about. -/
def Frame.about : Frame → Option ListenerId
  | .opening l => some l
  | .registering l => some l
  | .starting l _ => some l
  | .leaving l => some l
  | .receiving l => some l
  | .getting l _ => some l
  | .collecting l _ => some l
  | .visiting l _ => some l
  | .visited l _ _ => some l
  | .introducing l _ _ => some l
  | .expecting l _ => some l
  | _ => none

/-- What is done next has to do with a listener. -/
def Move.Uses (l : ListenerId) : Move → Prop
  | .done _ => False
  | .await _ F => F.about = some l
  | .call r F => r.about = some l ∨ F.about = some l
  | .become r => r.about = some l

/-- A thread has to do with a listener. -/
def Thread.Uses (th : Thread Routine Frame Value Failure) (l : ListenerId) : Prop :=
  (∃ r, (th.top = .fresh r ∨ th.top = .begins r) ∧ r.about = some l) ∨ ∃ F ∈ th.stack, F.about = some l

namespace Loop

variable {role role' : FutureId → Role} {m m' : Loop} {t u : TaskId} {l : ListenerId} {root called r : Routine} {F : Frame}
  {stack : List Frame} {o : Ending} {th : Thread Routine Frame Value Failure} {held : List ListenerId}

theorem uses_begins : Thread.Uses ⟨.begins r, stack⟩ l ↔ r.about = some l ∨ ∃ F ∈ stack, F.about = some l := by
  simp [Thread.Uses]

theorem uses_resumes : Thread.Uses ⟨.resumes o, stack⟩ l ↔ ∃ F ∈ stack, F.about = some l := by
  simp [Thread.Uses]

/-- What a thread has to do with next. -/
theorem uses_nextThread {a : Move} (h : Thread.Uses (m.nextThread stack a) l) :
    a.Uses l ∨ ∃ F ∈ stack, F.about = some l := by
  cases a with
  | done o => exact .inr (uses_resumes.mp h)
  | call r F =>
    rcases uses_begins.mp h with hr | ⟨G, hG, hl⟩
    · exact .inl (.inl hr)
    · rcases List.mem_cons.mp hG with rfl | hG
      · exact .inl (.inr hl)
      · exact .inr ⟨G, hG, hl⟩
  | become r => exact (uses_begins.mp h).imp_left id
  | await f F =>
    have hstack : ∃ G ∈ F :: stack, G.about = some l := by
      unfold nextThread at h
      dsimp only at h
      split at h
      · exact uses_resumes.mp h
      · rcases h with ⟨r, h | h, -⟩ | h
        · cases h
        · cases h
        · exact h
    obtain ⟨G, hG, hl⟩ := hstack
    rcases List.mem_cons.mp hG with rfl | hG
    · exact .inl hl
    · exact .inr ⟨G, hG, hl⟩

theorem Routine.about_of_isDriving (hd : r.isDriving = true) : r.about = none := by
  cases r <;> first | rfl | cases hd

/-- What drives transports has to do with no listener. -/
theorem MoveFits.not_uses {n : Nat} {a : Move} (h : MoveFits role m n called a) (hd : called.isDriving = true) :
    ¬ a.Uses l := by
  have hframe : ∀ {F : Frame} {roots : TaskId → Option Routine}, F.Serves roots called → F.about = none ∧
      ∀ r, F.Calls r → r.about = none := by
    intro F roots hs
    cases hs with
    | finishing hx => cases hx <;> cases hd
    | introducing hx => cases hx <;> cases hd
    | expecting hx => cases hx <;> cases hd
    | _ => first | (cases hd; done) | exact ⟨rfl, fun r hc => by cases hc <;> rfl⟩
  cases h with
  | done => exact id
  | call hc hs =>
    obtain ⟨hF, hr⟩ := hframe hs
    rintro (h | h)
    · rw [hr _ hc] at h
      cases h
    · rw [hF] at h
      cases h
  | become hr hv =>
    intro h
    cases hr with
    | refl =>
      rw [Move.Uses, Routine.about_of_isDriving hd] at h
      cases h
    | exchange => cases hd
    | endTasks => simp [Move.Uses, Routine.about] at h
  | await hs ha =>
    intro h
    rw [Move.Uses, (hframe hs).1] at h
    cases h

/-- What makes a listener of its own does so for a task that is about none. -/
theorem about_of_listens (h : Stacked m.routine? root called stack)
    (hc : called.about = none) (hd : called.isDriving = false) (ha : called ≠ .acquireLock) : root.about = none := by
  induction h with
  | nil => exact hc
  | @cons F called r stack hcall hs _ _ ih =>
    have hserved : r.about = none ∧ r.isDriving = false ∧ r ≠ .acquireLock := by
      cases hcall with
      | answered => cases hs; exact ⟨rfl, rfl, fun h => by cases h⟩
      | finishingCheck =>
        cases hs with
        | finishing hx => cases hx <;> exact ⟨rfl, rfl, fun h => by cases h⟩
        | _ => exact ⟨rfl, rfl, fun h => by cases h⟩
      | _ => first | (cases hc; done) | (cases hd; done) | exact absurd rfl ha
    exact ih hserved.1 hserved.2.1 hserved.2.2

/-- A new listener was made. -/
def Enlists (m m' : Loop) (l : ListenerId) : Prop :=
  l = m.state.listeners.length ∧ m'.state.listeners.length = m.state.listeners.length + 1

theorem begin_uses (hr : r.StandsFor called) (hd : called.isDriving = false) (h : (begin r m).2.Uses l) :
    r.about = some l ∨ called.about = none ∧ called ≠ .acquireLock ∧ m.Enlists (begin r m).1 l := by
  cases r with
  | acquireLock =>
    simp only [begin, acquire] at h
    split at h
    · exact h.elim
    · cases h
  | openListener l' =>
    simp only [begin, openListener] at h
    split at h
    · exact h.elim
    · exact .inl (h.elim id id)
  | register l' => exact .inl (h.elim (fun h => by cases h) id)
  | closeListener l' => exact .inl (h.elim (fun h => by cases h) id)
  | closeSession => exact h.elim (fun h => by cases h) fun h => by cases h
  | next l' =>
    simp only [begin, next] at h
    split at h
    · exact h.elim
    · split at h
      · exact h.elim
      · exact .inl (h.elim id id)
  | take l' =>
    simp only [begin, take] at h
    split at h
    · exact h.elim
    · exact .inl h
  | collect l' => exact .inl (h.elim id id)
  | visit count =>
    cases hr
    refine .inr ⟨rfl, fun h => (by cases h), ?_, ?_⟩
    · exact (h.elim Option.some.inj Option.some.inj).symm
    · exact List.length_append
  | request file limit =>
    cases limit with
    | none => cases h
    | some limit => exact h.elim (fun h => by cases h) fun h => by cases h
  | exchange opening asking =>
    refine .inr ⟨?_, ?_, ?_, ?_⟩
    · cases hr <;> rfl
    · rintro rfl
      cases hr
    · exact (h.elim Option.some.inj Option.some.inj).symm
    · exact List.length_append
  | checkFile => exact h.elim (fun h => by cases h) fun h => by cases h
  | checkFiles => cases h
  | _ => cases hr <;> cases hd

theorem resume_uses (hs : F.Serves m.routine? called) (hd : called.isDriving = false) (h : (resume F o m).2.Uses l) :
    F.about = some l := by
  cases hs with
  | locking w =>
    simp only [resume, acquireResumed] at h
    split at h <;> exact h.elim
  | opening l' =>
    simp only [resume, openResumed] at h
    split at h <;> exact h.elim
  | registering l' =>
    simp only [resume, registerLocked] at h
    split at h
    · split at h
      · exact h.elim
      · exact h.elim (fun h => by cases h) id
    · exact h.elim
  | starting l' t =>
    simp only [resume, startResumed] at h
    split at h <;> exact h.elim
  | leaving l' =>
    simp only [resume, leaveLocked] at h
    split at h
    · split at h
      · split at h
        · exact h.elim (fun h => by cases h) fun h => by cases h
        · exact h.elim
      · exact h.elim
    · exact h.elim
  | closing =>
    simp only [resume, closeLocked] at h
    split at h
    · split at h
      · exact h.elim (fun h => by cases h) fun h => by cases h
      · exact h.elim
    · exact h.elim
  | releasingListener l' =>
    simp only [resume, stopResumed] at h
    split at h <;> exact h.elim
  | releasingSession =>
    simp only [resume, stopResumed] at h
    split at h <;> exact h.elim
  | receiving l' =>
    simp only [resume, nextResumed] at h
    split at h <;> exact h.elim
  | getting l' g =>
    simp only [resume, takeResumed] at h
    split at h
    · exact h
    · exact h.elim
  | collecting l' taken =>
    simp only [resume, collectResumed] at h
    split at h
    · exact h.elim id id
    · exact h.elim
    · exact h.elim
  | visiting l' count total =>
    simp only [resume, visitOpened, visitOn] at h
    split at h
    · split at h
      · exact h.elim id fun h => by cases h
      · exact h.elim id id
    · exact h.elim
  | visited l' count total taken =>
    simp only [resume, visitResumed, visitOn] at h
    split at h
    · split at h
      · exact h.elim id fun h => by cases h
      · exact h.elim id id
    · exact h.elim id fun h => by cases h
  | finishingVisit e total =>
    simp only [resume, cleanedUp] at h
    split at h <;> exact h.elim
  | finishing hx =>
    simp only [resume, cleanedUp] at h
    split at h <;> exact h.elim
  | requesting file seq limit =>
    simp only [resume, requestResumed] at h
    split at h <;> exact h.elim
  | introducing hx =>
    simp only [resume, exchangeOpened] at h
    split at h
    · split at h
      · exact h.elim id id
      · exact h.elim id fun h => by cases h
    · exact h.elim
  | expecting hx =>
    simp only [resume, exchangeResumed] at h
    split at h
    · split at h
      · exact h.elim id fun h => by cases h
      · exact h.elim id id
    · exact h.elim id id
    · exact h.elim id fun h => by cases h
    · exact h.elim id fun h => by cases h
  | answered file context limit =>
    simp only [resume, answerResumed] at h
    split at h
    · split at h
      · exact h.elim
      · cases h
    · exact h.elim
  | readSource file context limit diagnostics =>
    simp only [resume, sourceResumed] at h
    split at h <;> exact h.elim
  | gathered members files context limit => exact h.elim (fun h => by cases h) fun h => by cases h
  | finishingCheck e files context limit =>
    simp only [resume, cleanedUp] at h
    split at h <;> exact h.elim
  | _ => cases hd

/-! ## The number of listeners -/

theorem Begins.length (h : Begins role m r called) : m.state.listeners.length ≤ (begin r m).1.state.listeners.length := by
  cases h with
  | minor _ _ h => exact Nat.le_of_eq h.length.symm
  | mild _ _ _ h => exact h.length
  | acquire =>
    simp only [begin, Loop.acquire]
    split <;> exact Nat.le_refl _
  | take l =>
    simp only [begin, Loop.take]
    split <;> exact Nat.le_of_eq (List.length_modify _ _ _).symm

theorem Resumes.length (h : Resumes role m o F called) (ht : m.Tidy role) :
    m.state.listeners.length ≤ (resume F o m).1.state.listeners.length := by
  cases h with
  | minor _ _ h => exact Nat.le_of_eq h.length.symm
  | mild _ _ h => exact h.length
  | locking _ h => exact Nat.le_of_eq (congrArg List.length h.listeners).symm
  | registering _ h => exact Nat.le_of_eq (congrArg List.length h.listeners).symm
  | starting _ _ h => exact Nat.le_of_eq (congrArg List.length h.listeners).symm
  | leaving _ h => exact Nat.le_of_eq (congrArg List.length h.listeners).symm
  | closing =>
    have hlength := (detachAll_delivers (K := fun _ => True) (S := fun _ => True) ht none).length
    simp only [resume, closeLocked]
    split
    · split
      · exact Nat.le_of_eq hlength.symm
      · rw [releaseLock_state]
        exact Nat.le_of_eq hlength.symm
    · exact Nat.le_refl _
  | releasing _ h => exact Nat.le_of_eq (congrArg List.length h.listeners).symm
  | getting l g h => exact h.length

/-! ## Listeners of one's own -/

/-- Threads have to do with listeners that are there: with those that callers hold, or with one that nobody else has to
do with. -/
structure Known (m : Loop) (held : List ListenerId) : Prop where
  listed : ∀ {l : ListenerId}, l ∈ held → l < m.state.listeners.length
  there : ∀ {t : TaskId} {th : Thread Routine Frame Value Failure} {l : ListenerId}, m.thread? t = some th →
    Thread.Uses th l → l < m.state.listeners.length
  alone : ∀ {t u : TaskId} {th th' : Thread Routine Frame Value Failure} {l : ListenerId}, m.thread? t = some th →
    m.thread? u = some th' → Thread.Uses th l → Thread.Uses th' l → l ∉ held → t = u
  kind : ∀ {t : TaskId} {th : Thread Routine Frame Value Failure} {l : ListenerId} {root : Routine},
    m.thread? t = some th → m.routine? t = some root → Thread.Uses th l → (l ∈ held ↔ root.about.isSome = true)

/-- What threads have to do with stays known, if one of them takes to a new listener of its own, or others to listeners
that callers hold. -/
theorem Known.mono (hk : Known m held) (hf : Fits role m) (hkeeps : m.Keeps m') (t : TaskId)
    (hlen : m.state.listeners.length ≤ m'.state.listeners.length)
    (hu : ∀ {u th' l}, m'.thread? u = some th' → Thread.Uses th' l → (∃ th, m.thread? u = some th ∧ Thread.Uses th l) ∨
      (u = t ∧ (∃ root, m.routine? u = some root ∧ root.about = none) ∧ m.Enlists m' l) ∨
      (l ∈ held ∧ ∃ root, m'.routine? u = some root ∧ root.about.isSome = true)) : Known m' held where
  listed hl := Nat.lt_of_lt_of_le (hk.listed hl) hlen
  there hth hl := by
    rcases hu hth hl with ⟨th, hth, hl⟩ | ⟨-, -, rfl, hnew⟩ | ⟨hl, -⟩
    · exact Nat.lt_of_lt_of_le (hk.there hth hl) hlen
    · rw [hnew]
      exact Nat.lt_succ_self _
    · exact Nat.lt_of_lt_of_le (hk.listed hl) hlen
  alone hth hth' hl hl' hne := by
    rcases hu hth hl with ⟨th, hth, hl⟩ | ⟨rfl, -, rfl, -⟩ | ⟨hl, -⟩ <;>
      rcases hu hth' hl' with ⟨th', hth', hl'⟩ | ⟨rfl, -, hnew, -⟩ | ⟨hl', -⟩ <;> first | exact absurd hl' hne | skip
    · exact hk.alone hth hth' hl hl' hne
    · exact absurd (hk.there hth hl) (by rw [hnew]; exact Nat.lt_irrefl _)
    · exact absurd (hk.there hth' hl') (Nat.lt_irrefl _)
    · rfl
    · exact absurd hl hne
    · exact absurd hl hne
  kind hth hroot hl := by
    rcases hu hth hl with ⟨th, hth, hl⟩ | ⟨rfl, ⟨root, hroot', hnone⟩, rfl, -⟩ | ⟨hl, root, hroot', hsome⟩
    · obtain ⟨root', hroot', -⟩ := hf.threads hth
      rw [hkeeps.routine hroot'] at hroot
      cases hroot
      exact hk.kind hth hroot' hl
    · rw [hkeeps.routine hroot'] at hroot
      cases hroot
      rw [hnone]
      exact iff_of_false (fun hmem => absurd (hk.listed hmem) (Nat.lt_irrefl _)) (by simp)
    · rw [hroot'] at hroot
      cases hroot
      exact iff_of_true hl hsome

/-- A fresh task of the session has to do with no listener. -/
theorem not_uses_fresh (hr : r.isSpawned = true) : ¬ Thread.Uses ⟨.fresh r, []⟩ l := by
  rintro (⟨r', h | h, hl⟩ | ⟨F, hF, -⟩)
  · cases h
    cases r <;> first | (cases hl; done) | cases hr
  · cases h
  · cases hF

theorem Known.awakes (hk : Known m held) (hf : Fits role m) {th' : Thread Routine Frame Value Failure}
    (hth : m.thread? t = some th) (ha : m.Awakes t th th') (hs : m.Switch t (some th') m') : Known m' held := by
  refine hk.mono hf (keeps_of_switch hs) t (Nat.le_of_eq (by rw [hs.state])) fun {u th₁ l} hth₁ hl => .inl ?_
  by_cases hu : u = t
  · subst hu
    rw [hs.self] at hth₁
    cases hth₁
    refine ⟨th, hth, ?_⟩
    cases ha with
    | begins =>
      rcases uses_begins.mp hl with hl | ⟨F, hF, -⟩
      · exact .inl ⟨_, .inl rfl, hl⟩
      · cases hF
    | dropped =>
      obtain ⟨F, hF, -⟩ := uses_resumes.mp hl
      cases hF
    | resumes => exact .inr (uses_resumes.mp hl)
    | interrupted => exact .inr (uses_resumes.mp hl)
  · rw [hs.other hu] at hth₁
    exact ⟨th₁, hth₁, hl⟩

/-- What threads have to do with stays known while the running task acts. -/
theorem Known.acts (hk : Known m held) (hf : Fits role m) {x : Running Routine Frame Value Failure} {s : Loop × Move}
    (hr : m.running = some x) (hd : Deed role role' m x.task root called stack s)
    (hlen : m.state.listeners.length ≤ s.1.state.listeners.length) (hstack : ∀ F ∈ stack, F ∈ x.thread.stack)
    (hmove : ∀ l, s.2.Uses l → Thread.Uses x.thread l ∨ root.about = none ∧ m.Enlists s.1 l) :
    Known (s.1.perform x.task stack s.2) held := by
  refine hk.mono hf hd.keeps x.task (by rwa [hd.state]) fun {u th l} hth hl => ?_
  by_cases hu : u = x.task
  · subst hu
    rw [hd.switch.self] at hth
    cases hth
    rcases uses_nextThread hl with hl | ⟨F, hF, hl⟩
    · rcases hmove l hl with hl | ⟨hnone, hnew, hlen⟩
      · exact .inl ⟨_, thread?_of_running hr, hl⟩
      · exact .inr (.inl ⟨rfl, ⟨root, hd.made, hnone⟩, hnew, by rwa [hd.state]⟩)
    · exact .inl ⟨_, thread?_of_running hr, .inr ⟨F, hstack F hF, hl⟩⟩
  · rcases hd.thread_other hf hu hth with hold | ⟨r, hr, -, rfl⟩
    · exact .inl ⟨th, hold, hl⟩
    · exact absurd hl (not_uses_fresh hr.isSpawned)

/-- **What threads have to do with stays known.** -/
theorem Known.tick (hk : Known m held) (hf : Fits role m) (ht : Tick role m role' m') (hf' : Fits role' m') :
    Known m' held := by
  cases ht with
  | awakes idle hth how switch => exact hk.awakes hf hth how switch
  | passes idle he hstate =>
    refine hk.mono hf (keeps_of_extends he) 0 (Nat.le_of_eq (by rw [hstate])) fun hth hl => .inl ⟨_, ?_, hl⟩
    rcases he.thread?_cases hf.tidy.sound hf'.tidy.sound hth with hold | ⟨r, hr, -⟩
    · exact hold
    · exact hr.elim
  | @ends _ t _ runs switch outcome =>
    refine hk.mono hf (keeps_of_switch switch) 0 (Nat.le_of_eq (by rw [switch.state])) fun {u th l} hth hl => .inl ⟨th, ?_, hl⟩
    by_cases hu : u = t
    · subst hu
      rw [switch.self] at hth
      cases hth
    · rwa [switch.other hu] at hth
  | @begins _ t r called root stack runs valid stands how deed =>
    refine hk.acts hf runs deed how.length (fun F hF => hF) fun l hl => ?_
    cases hd : called.isDriving with
    | true => exact absurd hl (deed.does.move.not_uses hd)
    | false =>
      rcases begin_uses stands hd hl with hl | ⟨hnone, hne, hnew⟩
      · exact .inl (uses_begins.mpr (.inl hl))
      · exact .inr ⟨about_of_listens deed.stacked hnone hd hne, hnew⟩
  | @resumes t o F called root stack runs serves gets woke how deed =>
    refine hk.acts hf runs deed (how.length hf.tidy) (fun G hG => List.mem_cons_of_mem _ hG) fun l hl => .inl ?_
    cases hd : called.isDriving with
    | true => exact absurd hl (deed.does.move.not_uses hd)
    | false => exact uses_resumes.mpr ⟨F, List.mem_cons_self, resume_uses serves hd hl⟩

/-- A caller is given a listener that nobody has to do with yet. -/
theorem Known.listen (hk : Known m held) : Known m.listen.1 (held ++ [m.listen.2]) := by
  have hlen : m.listen.1.state.listeners.length = m.state.listeners.length + 1 := List.length_append
  have hth : ∀ t, m.listen.1.thread? t = m.thread? t := fun _ => rfl
  have hold : ∀ {l}, l < m.state.listeners.length → (l ∈ held ++ [m.listen.2] ↔ l ∈ held) := by
    intro l hl
    have hne : l ≠ m.listen.2 := Nat.ne_of_lt hl
    simp [hne]
  refine ⟨fun {l} hl => ?_, fun ht hl => ?_, fun ht hu hl hl' hne => ?_, fun ht hroot hl => ?_⟩
  · rw [hlen]
    rcases List.mem_append.mp hl with hl | hl
    · exact Nat.lt_succ_of_lt (hk.listed hl)
    · rw [List.mem_singleton.mp hl]
      exact Nat.lt_succ_self _
  · rw [hlen]
    exact Nat.lt_succ_of_lt (hk.there ht hl)
  · exact hk.alone ht hu hl hl' fun hmem => hne (List.mem_append_left _ hmem)
  · rw [hold (hk.there ht hl)]
    exact hk.kind ht hroot hl

/-- What reaches the session takes no listener away. -/
theorem apply_length {s : Stimulus} (hf : Fits role m) (hr : m.running = none) (ha : s.Admissible held m) :
    m.state.listeners.length ≤ (m.apply s).1.state.listeners.length := by
  have hlisten : m.listen.1.state.listeners.length = m.state.listeners.length + 1 := List.length_append
  exact apply_cases (P := fun m' => m.state.listeners.length ≤ m'.state.listeners.length) hf hr ha
    (hlisten ▸ Nat.le_succ _) (Nat.le_refl _) (fun hset => Nat.le_of_eq (by rw [hset.state]))
    fun hears => Nat.le_of_eq hears.length.symm

/-- What threads have to do with stays known when something reaches the session. -/
theorem Known.after {a : Moment} {s : Stimulus} (hk : Known a.loop a.held) (hf : Fits role a.loop) (hr : a.loop.running = none)
    (ha : s.Admissible a.held a.loop) : Known (a.after s).loop (a.after s).held := by
  by_cases hl : s = .listen
  · subst hl
    exact hk.listen
  · have hheld : (a.after s).held = a.held := by
      cases s <;> first | rfl | exact absurd rfl hl
    have hw := apply_arrives hf hr ha
    have he := hw.extends_
    have hlen : a.loop.state.listeners.length ≤ (a.after s).loop.state.listeners.length := apply_length hf hr ha
    rw [hheld]
    refine hk.mono hf (keeps_of_extends he) 0 hlen fun {u th l} hth huses => ?_
    rcases he.thread?_cases hf.tidy.sound hw.tidy.sound hth with hold | ⟨r, hspawn | hspawn, -, hroot, rfl⟩
    · exact .inl ⟨th, hold, huses⟩
    · subst hspawn
      rcases huses with ⟨r', h | h, habout⟩ | ⟨F, hF, -⟩
      · cases h
        exact .inr (.inr ⟨ha.2 l habout, r, hroot, by rw [habout]; rfl⟩)
      · cases h
      · cases hF
    · exact absurd huses (not_uses_fresh (Routine.isSpawned_of_isOwn hspawn))

theorem IsNew.known (h : m.IsNew) : Known m [] where
  listed hl := by cases hl
  there hth := by rw [h.isEmpty.thread?] at hth; cases hth
  alone hth := by rw [h.isEmpty.thread?] at hth; cases hth
  kind hth := by rw [h.isEmpty.thread?] at hth; cases hth

end Loop

end DiagnosticsClient
