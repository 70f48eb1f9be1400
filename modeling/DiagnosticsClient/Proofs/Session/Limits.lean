import DiagnosticsClient.Proofs.Session.Drives
/-
Cancelling a task, and what waits for its end.

The session cancels tasks of its own only: those that read from a child, and
those whose time is limited. The running task is never one of them
(`Executes.cancellable_of_reads`, `Executes.cancellable_of_minds`), and whoever
is cancelled waits for a plain future or for another such task (`Fits.cancels`);
so a cancellation is an effect, and all that is done with it is `Beside`.
-/
namespace DiagnosticsClient

open Async Async.Machine

namespace Loop

variable {role : FutureId → Role} {usage : Usage} {K : TaskId → Prop} {S : Routine → Prop} {m m' : Loop} {u : TaskId} {f : FutureId}
  {root called : Routine} {stack : List Frame} {s : Loop × Move}

/-- The running task begins what `called` is to give. -/
def Executes (m : Loop) (called : Routine) : Prop :=
  ∃ t r root stack, m.running = some (.begin t r stack) ∧ r.StandsFor called ∧ m.routine? t = some root ∧
    Stacked m.routine? root called stack

/-- No task that reads from a child runs. -/
def SparesReaders (m : Loop) : Prop := ∀ x, m.running = some x → ¬ m.IsReader x.task

theorem Executes.sparesReaders (h : m.Executes called) (hr : called.reads = false) (hc : ∀ c, called ≠ .awaitExit c) :
    m.SparesReaders := by
  obtain ⟨x, _, root, stack, hrun, -, hroot, hstack⟩ := h
  rintro y hy ⟨r, hr', hreads⟩
  rw [hrun] at hy
  cases hy
  cases hroot.symm.trans hr'
  rcases hstack.called_of_reads hreads with rfl | ⟨c, rfl⟩
  · rw [hreads] at hr
    cases hr
  · exact hc c rfl

/-- A task that reads may be cancelled, while none of them runs. -/
theorem SparesReaders.cancellable (h : m.SparesReaders) (hu : m.IsReader u) : m.Cancellable u := by
  obtain ⟨r, hroot, hreads⟩ := id hu
  refine ⟨⟨r, hroot, Routine.isInner_of_reads hreads, .inl hreads⟩, ?_⟩
  rintro x hx rfl
  exact h x hx hu

/-- **A cancellation goes no further than to readers.** Whoever waits does so for a plain future or for a task that
reads. -/
theorem Fits.cancels {may : Licence Routine} (hf : Fits role m usage) (hm : ∀ {u}, m.IsReader u → may.cancel u) :
    m.Cancels may := by
  intro t f _ hw
  obtain ⟨task, htask, hwait⟩ := Option.bind_eq_some_iff.mp hw
  obtain ⟨stack, hth⟩ := hf.tidy.sound.waiting htask hwait
  obtain ⟨root, -, hfits⟩ := hf.threads hth
  cases hfits with
  | waits hs ha h =>
    cases ha with
    | ending t tasks hown hu => exact .inr ⟨_, hm hu, hown⟩
    | locking h => exact .inl h.1
    | getting l h => exact .inl h.1
    | timing u h => exact .inl h.1
    | cancelWaiting u w h => exact .inl h.1
    | gated t call fails w h => exact .inl h.1
    | exiting h => exact .inl h.1
    | reading t c decoder h => exact .inl h.1
    | draining c h => exact .inl h.1
    | readSource file context diagnostics h => exact .inl h.1
    | gathered members h => exact .inl h.1

/-- Cancelling a task of the session is aside. -/
theorem Fits.cancelTask (hf : Fits role m usage) (hn : m.SparesReaders) (ha : Aside role m.Cancellable S m m')
    (hu : m.Cancellable u) : Aside role m.Cancellable S m' (m'.cancelTask u).1 := by
  have hext := ha.effect.extends
  obtain ⟨r, hroot, -⟩ := hu.1
  obtain ⟨task, htask, -⟩ := Option.map_eq_some_iff.mp (hext.routine? hroot)
  have hcancels : m'.Cancels (licence role m'.state.IsDead m.Cancellable S) := by
    intro t f ht hw
    rcases (hf.cancels hn.cancellable : m.Cancels (licence role m'.state.IsDead m.Cancellable S)) ht (hext.waitsFor? hw) with
      hplain | ⟨v, hv, hown⟩
    · exact .inl (hext.owner hplain)
    · exact .inr ⟨v, hv, hext.owner hown⟩
  have heff := cancelTask_effect ha.tidy.sound.owned hcancels (fun ht r hr => ht.2 r (hext.running ▸ hr)) hu
    (Array.getElem?_eq_some_iff.mp htask).1
  exact .of_effect ha.tidy heff (cancelTask_state _ u)

/-! ## Stopping a transport -/

theorem stopRehearsed_beside (h : m.Tidy role) (t : TransportId) (rehearsal : Rehearsal) :
    Beside role K S (.stop t) m (stopRehearsed t rehearsal m) := by
  have hcalled := Aside.record (K := K) (S := S) h (e := .called t .stop) rfl
  exact .after hcalled (rehearse_beside hcalled.tidy t .stop _)

theorem not_minds (h : ∀ u, called ≠ .cancelAndWait u) {roots : TaskId → Option Routine} : called.Minds roots root :=
  fun u hu => absurd hu (h u)

theorem endTasks_beside (hf : Fits role m usage) (hn : m.SparesReaders) (t : TransportId) {tasks : List TaskId}
    (hv : ∀ u ∈ tasks, m.IsReader u) :
    Beside role m.Cancellable S (.stop t) m (endTasks t tasks m) := by
  have h := hf.tidy
  induction tasks with
  | nil =>
    have hcleared := Aside.modifyTransport (K := m.Cancellable) (S := S) h t
      (k := fun transport => { transport with reader := none, drain := none }) (fun _ _ hu => by cases hu)
      fun _ _ hu => by cases hu
    unfold endTasks
    dsimp only
    split
    · exact .done hcleared fun _ _ => trivial
    · next c _ =>
      have hleft := hcleared.trans (.modifyTransport hcleared.tidy t
        (k := fun transport => { transport with child := none }) (fun _ _ hu => .inl hu) fun _ _ hu => .inl hu)
      have hclosed := hleft.trans (.modifyChild hleft.tidy c
        (k := fun child => { child with inputClosed := true }) (fun _ => id) fun _ hchild => ⟨hchild.exits, hchild.output, hchild.errors⟩)
      split
      · exact ⟨hclosed.trans (.signal hclosed.tidy c .terminate), fun n =>
          .call (.terminating c _) (.terminating c t) (not_minds fun u hu => by cases hu) rfl⟩
      · exact .done hclosed fun _ _ => trivial
  | cons u rest ih =>
    obtain ⟨hu, hrest⟩ := List.forall_mem_cons.mp hv
    unfold endTasks
    split
    · exact ih hrest
    · have hcancel := hf.cancelTask (S := S) hn (.refl h) (hn.cancellable hu)
      have hext := hcancel.effect.extends
      have hkeeps := keeps_of_extends hext
      obtain ⟨r, hroot, -⟩ := id hu
      obtain ⟨task, htask, -⟩ := Option.map_eq_some_iff.mp hroot
      have hfuture : m.futureOf u = task.future := by simp [futureOf, htask]
      have hown : m.owner? (m.futureOf u) = some (some u) := hfuture ▸ h.sound.owned.future htask
      refine ⟨hcancel, fun n => .await (.ending fun v hv => (hrest v hv).keeps hkeeps)
        (.ending t rest (hkeeps.owner hown) (hu.keeps hkeeps)) fun hne => ?_⟩
      exact absurd (h.role_of_owner hown) hne

theorem Tidy.reader (h : m.Tidy role) {t : TransportId}
    (hu : u ∈ (m.state.childTransport t).reader.toList ++ (m.state.childTransport t).drain.toList) : m.IsReader u := by
  unfold State.childTransport at hu
  split at hu
  · next c hc =>
    have hnames := h.names.transports _ (List.mem_of_getElem? hc)
    rcases List.mem_append.mp hu with hu | hu
    · exact hnames.1 u (Option.mem_toList.mp hu)
    · exact hnames.2 u (Option.mem_toList.mp hu)
  · simp at hu

theorem stopChild_beside (h : m.Tidy role) (t : TransportId) : Beside role K S (.stop t) m (stopChild t m) := by
  have hphase := Aside.setPhase (K := K) (S := S) h t .stopped
  unfold stopChild
  dsimp only
  split
  · exact .done hphase fun _ _ => trivial
  · exact ⟨hphase, fun n => .become (.endTasks t _) fun u hu => (h.reader hu).keeps (keeps_of_extends hphase.effect.extends)⟩

theorem stop_beside (h : m.Tidy role) (t : TransportId) : Beside role K S (.stop t) m (stop t m) := by
  unfold stop
  split
  · exact stopRehearsed_beside h t _
  · exact stopChild_beside h t

theorem endResumed_beside (h : m.Tidy role) (t : TransportId) {rest : List TaskId} (hv : ∀ u ∈ rest, m.IsReader u)
    (o : Ending) : Beside role K S (.stop t) m (endResumed t rest o m) := by
  unfold endResumed
  split
  · exact .done (.refl h) fun _ _ => trivial
  · exact ⟨.refl h, fun n => .become (.endTasks t rest) hv⟩

theorem terminateResumed_beside (h : m.Tidy role) (t : TransportId) (c : ChildId) (o : Ending) :
    Beside role K S (.stop t) m (terminateResumed c o m) := by
  unfold terminateResumed
  split
  · exact .done (.note h _ _) fun _ _ => trivial
  · exact ⟨.signal h c .kill, fun n => .call (.killing c) (.killing c t) (not_minds fun u hu => by cases hu) trivial⟩
  · exact .done (.refl h) fun _ _ => trivial

theorem killResumed_beside (h : m.Tidy role) (t : TransportId) (c : ChildId) (o : Ending) :
    Beside role K S (.stop t) m (killResumed c o m) := by
  unfold killResumed
  split
  · exact .done (.note h _ _) fun _ _ => trivial
  · exact .done (.refl h) fun _ _ => trivial

/-! ## Limits -/

theorem Aside.addCallback (h : m.Tidy role) (hf : m.HasRole role .other f) (g : FutureId) :
    Aside role K S m (m.addCallback g (.release f)) := by
  have heff : Effect (licence role m.state.IsDead K S) m (m.addCallback g (.release f)) :=
    .single (.addCallback g hf.1 hf.2)
  refine .of_effect h heff ?_
  unfold Machine.addCallback
  split <;> rfl

theorem Aside.removeCallback (h : m.Tidy role) (g f : FutureId) : Aside role K S m (m.removeCallback g (.release f)) :=
  .of_effect h (.single (.removeCallback m g f)) rfl

theorem Aside.addTimer (h : m.Tidy role) (hf : m.HasRole role .other f) (time : Binary64) :
    Aside role K S m (m.addTimer time f) := by
  have heff : Effect (licence role m.state.IsDead K S) m (m.addTimer time f) := addTimer_effect hf.1 hf.2 time
  refine .of_effect h heff ?_
  unfold Machine.addTimer
  split <;> rfl

theorem Aside.cancelTimer (h : m.Tidy role) (f : FutureId) : Aside role K S m (m.cancelTimer f) :=
  .of_effect h (cancelTimer_effect m f) rfl

/-- A new future, to be settled when its time comes or when another one is. -/
theorem Aside.timed (h : m.Tidy role) (time : Binary64) (g : FutureId) :
    Aside role K S m ((m.future.1.addTimer time m.future.2).addCallback g (.release m.future.2)) ∧
      HasRole role .other ((m.future.1.addTimer time m.future.2).addCallback g (.release m.future.2)) m.future.2 := by
  obtain ⟨hnew, hrole⟩ := Aside.future (K := K) (S := S) h
  have htimer := Aside.addTimer (K := K) (S := S) hnew.tidy hrole time
  have hrole' := hrole.extends htimer.effect.extends
  have hcall := Aside.addCallback (K := K) (S := S) htimer.tidy hrole' g
  exact ⟨(hnew.trans htimer).trans hcall, hrole'.extends hcall.effect.extends⟩

theorem minds_within {roots : TaskId → Option Routine} {limit : Seconds} {inner : Routine} (hu : roots u = some inner) :
    (Routine.cancelAndWait u).Minds roots (.within limit inner) := by
  intro v hv
  cases hv
  exact ⟨limit, inner, rfl, hu⟩

/-- A limit on time begins aside. -/
theorem within_aside (h : m.Tidy role) {inner : Routine} (hi : inner.isInner = true) (limit : Seconds) :
    Aside role K (Routine.within limit inner).Spawns m (within limit inner m).1 := by
  obtain ⟨hspawn, -⟩ := Aside.spawn (K := K) (S := (Routine.within limit inner).Spawns) h (.inr (.inl ⟨hi, limit, rfl⟩))
  unfold within
  split
  · exact hspawn
  · split
    · exact .refl h
    · exact hspawn.trans (Aside.timed hspawn.tidy ((m.spawn inner).1.now.add _) _).1

/-- A limit on time reserves a future for its end. -/
theorem within_does (h : m.Tidy role) (limit : Seconds) {inner : Routine} (hi : inner.isInner = true) :
    ∃ role', Does role role' m (.within limit inner) (within limit inner m) := by
  have haside := within_aside (K := m.Cancellable) h hi limit
  obtain ⟨hspawn, hroot⟩ :=
    Aside.spawn (K := m.Cancellable) (S := (Routine.within limit inner).Spawns) h (.inr (.inl ⟨hi, limit, rfl⟩))
  unfold within at haside ⊢
  split
  · next hover =>
    rw [if_pos hover] at haside
    exact ⟨role, .of_spawns haside.works (.call (.overdue _) (.overdue limit hroot) (minds_within hroot) ⟨inner, hroot, hi⟩)⟩
  · next hover =>
    rw [if_neg hover] at haside
    split
    · next hlimit =>
      simp only [hlimit] at haside
      exact ⟨role, .of_spawns haside.works (.done fun v hv => by cases hv)⟩
    · next time hlimit =>
      simp only [hlimit] at haside
      obtain ⟨htimed, hrole⟩ := Aside.timed (K := m.Cancellable) (S := (Routine.within limit inner).Spawns) hspawn.tidy
        ((m.spawn inner).1.now.add time) _
      have hkeeps := keeps_of_extends haside.effect.extends
      have hge : m.futures.size ≤ (m.spawn inner).1.futures.size := hspawn.effect.extends.room
      have htidy := h.reserve haside.tidy hkeeps ?_ hge hrole.1
      · refine ⟨_, haside.works.effect.mono grant_covers, haside.dead, htidy, agrees_assign _ hge, haside.works.receiver, ?_⟩
        exact .await (.timing _ limit (htimed.effect.extends.routine? hroot) hi) (.timing _ ⟨hrole.1, if_pos rfl⟩) fun _ => hge
      · unfold Machine.addCallback Machine.addTimer
        split <;> split <;> rfl

/-- The outcome of a task whose time is limited is one that its routine may give. -/
theorem Fits.gives_taskEnding (hf : Fits role m usage) {inner : Routine} (hu : m.routine? u = some inner) {v : Value}
    (hv : m.taskEnding u = .value v) : inner.Gives m.state v := by
  unfold taskEnding at hv
  cases hout : m.taskOutcome? u with
  | none => rw [hout] at hv; cases hv
  | some o =>
    rw [hout] at hv
    cases hv
    exact hf.gave hu hout

theorem Fits.gives_lateEnding (hf : Fits role m usage) {inner : Routine} (hu : m.routine? u = some inner) {v : Value}
    (hv : m.lateEnding u = .value v) : inner.Gives m.state v := by
  unfold lateEnding at hv
  split at hv
  · cases hv
  · exact hf.gives_taskEnding hu hv

theorem timeResumed_beside (hf : Fits role m usage) {limit : Seconds} {inner : Routine} (hu : m.routine? u = some inner)
    (hi : inner.isInner = true) (w : FutureId) (o : Ending) :
    Beside role K S (.within limit inner) m (timeResumed u w o m) := by
  have h := hf.tidy
  unfold timeResumed
  split
  · exact .done (.cancelTimer h w) fun v => hf.gives_taskEnding hu
  · have hfree := Aside.removeCallback (K := K) (S := S) h (m.futureOf u) w
    have hroot := hfree.effect.extends.routine? hu
    dsimp only
    split
    · exact ⟨hfree, fun n => .call (.lapsed u w) (.lapsed w limit hroot) (minds_within hroot) ⟨inner, hroot, hi⟩⟩
    · exact ⟨hfree, fun n => .call (.abandoned u w) (.abandoned w limit inner) (minds_within hroot) ⟨inner, hroot, hi⟩⟩

theorem overdueResumed_beside (hf : Fits role m usage) {limit : Seconds} {inner : Routine} (hu : m.routine? u = some inner)
    (o : Ending) : Beside role K S (.within limit inner) m (overdueResumed u o m) := by
  unfold overdueResumed
  split
  · exact .done (.refl hf.tidy) fun v => hf.gives_lateEnding hu
  · next hne => exact .done (.refl hf.tidy) fun v hv => absurd hv (hne v)

theorem lapsedResumed_beside (hf : Fits role m usage) {limit : Seconds} {inner : Routine} (hu : m.routine? u = some inner)
    (w : FutureId) (o : Ending) : Beside role K S (.within limit inner) m (lapsedResumed u w o m) := by
  unfold lapsedResumed
  split
  · exact .done (.cancelTimer hf.tidy w) fun v => hf.gives_lateEnding hu
  · next hne => exact .done (.cancelTimer hf.tidy w) fun v hv => absurd hv (hne v)

theorem abandonedResumed_beside (h : m.Tidy role) (limit : Seconds) (inner : Routine) (w : FutureId) (o : Ending) :
    Beside role K S (.within limit inner) m (abandonedResumed w o m) := by
  unfold abandonedResumed
  split
  · exact .done (.cancelTimer h w) fun v hv => by cases hv
  · next hne => exact .done (.cancelTimer h w) fun v hv => absurd hv (hne v)

/-! ## Cancelling -/

/-- The task that is cancelled and waited for is not the one that runs. -/
theorem Executes.cancellable (hf : Fits role m usage) (h : m.Executes (.cancelAndWait u))
    (hv : (Routine.cancelAndWait u).Valid m.routine?) : m.Cancellable u := by
  obtain ⟨x, r, root, stack, hrun, hstands, hroot, hstack⟩ := h
  obtain ⟨inner, hinner, hi⟩ := hv
  cases hstands
  refine ⟨⟨inner, hinner, hi, .inr ⟨x, stack, hrun⟩⟩, ?_⟩
  intro y hy heq
  rw [hrun] at hy
  cases hy
  obtain rfl : x = u := heq
  cases hroot.symm.trans hinner
  cases hstack with
  | nil => cases usage <;> cases hf.roots hroot
  | cons hc hs hu hstack =>
    obtain ⟨limit, inner, rfl, hinner⟩ := hu _ rfl
    rw [hroot] at hinner
    cases hinner
    exact hstack.root_ne_of_within rfl

/-- A cancellation begins aside; the future that is waited for is new. -/
theorem cancelAndWait_aside (hf : Fits role m usage) (hx : m.Executes (.cancelAndWait u))
    (hv : (Routine.cancelAndWait u).Valid m.routine?) :
    Aside role m.Cancellable S m (cancelAndWait u m).1 ∧ HasRole role .other (cancelAndWait u m).1 m.futures.size := by
  have hn : m.SparesReaders := hx.sparesReaders rfl fun c hc => by cases hc
  obtain ⟨hnew, hrole⟩ := Aside.future (K := m.Cancellable) (S := S) hf.tidy
  have hcall := Aside.addCallback (K := m.Cancellable) (S := S) hnew.tidy hrole (m.future.1.futureOf u)
  have hboth := hnew.trans hcall
  have hcancel := hf.cancelTask hn hboth (hx.cancellable hf hv)
  exact ⟨hboth.trans hcancel, hrole.extends (hcall.trans hcancel).effect.extends⟩

/-- A cancellation reserves a future for the end of the task. -/
theorem cancelAndWait_does (hf : Fits role m usage) (hx : m.Executes (.cancelAndWait u))
    (hv : (Routine.cancelAndWait u).Valid m.routine?) :
    ∃ role', Does role role' m (.cancelAndWait u) (cancelAndWait u m) := by
  obtain ⟨haside, hrole⟩ := cancelAndWait_aside (S := (Routine.cancelAndWait u).Spawns) hf hx hv
  have hkeeps := keeps_of_extends haside.effect.extends
  have hstate : (cancelAndWait u m).1.state = m.state := (cancelTask_state _ u).trans (by unfold Machine.addCallback; split <;> rfl)
  have htidy := hf.tidy.reserve haside.tidy hkeeps hstate (Nat.le_refl _) hrole.1
  exact ⟨_, haside.works.effect.mono grant_covers, haside.dead, htidy, agrees_assign _ (Nat.le_refl _), haside.works.receiver,
    .await (.cancelWaiting u _) (.cancelWaiting u _ ⟨hrole.1, if_pos rfl⟩) fun _ => Nat.le_refl _⟩

theorem cancelResumed_beside (h : m.Tidy role) (u : TaskId) (w : FutureId) (o : Ending) :
    Beside role K S (.cancelAndWait u) m (cancelResumed u w o m) :=
  .done (.removeCallback h _ w) fun _ _ => trivial

end Loop

end DiagnosticsClient
