import DiagnosticsClient.Proofs.Session.Deadlines
import DiagnosticsClient.Proofs.Transport.Waiting
/-
What it means that a child did not end in time.

A stop that has asked a child to end waits for a future of its own, which is settled by
a timer or by the end of a task that waits for the child (`Clocked`). The timer comes too
late for a child that has ended: whoever waits for it was woken before, and ends first
(`Over`). So time is up for a child only if it lived at a moment when its time had come.
-/
namespace DiagnosticsClient

open Async Async.Machine

/-- A transport sent its first signal at a time. -/
def AskedAt (d : Watch) (moments : List Watch) : Prop :=
  ∃ older, d :: older <:+ moments ∧ d.loop.state.signals ≠ [] ∧ ∀ e ∈ older, e.loop.state.signals = []

/-- A time has come since a transport sent its first signal. -/
def HasCome (time : Binary64) (moments : List Watch) : Prop :=
  ∃ e ∈ moments, e.loop.state.signals ≠ [] ∧ isDue e.loop.now time = true

/-- When a time had come since a transport sent its first signal, the child had not ended. -/
def Late (c : ChildId) (time : Binary64) (moments : List Watch) : Prop :=
  ∃ e older, e :: older <:+ moments ∧ HasCome time (e :: older) ∧ ¬ e.loop.state.IsDead c

/-- A task is woken before whatever settles a future that is not. -/
def Loop.Soon (v : TaskId) (w : FutureId) (m : Loop) : Prop := ∃ k, k.task? = some v ∧ m.Precedes k w

/-- The wait for a child is over, or its time is up: for a reason, or before whoever waits goes on with what he was woken
for. -/
def Over (v : TaskId) (w : FutureId) (c : ChildId) (d : Binary64) (a : Watch) (past : List Watch) : Prop :=
  a.loop.hasEnded v = true ∨ Late c d (a :: past) ∨
    HasCome d (a :: past) ∧ ((∃ x, a.loop.running = some x ∧ x.task = v) ∨ a.loop.Soon v w)

/-- A future is settled by a timer for one time and by the end of one other future, or whoever waits for it is cancelled. -/
def Loop.Tended (w f : FutureId) (d : Binary64) (P : Prop) (m : Loop) : Prop := Timed w f d P m ∨ m.outcome? w = some .cancelled

/-- The wait for a child is limited by a future. -/
structure Clocked (v : TaskId) (w : FutureId) (c : ChildId) (d : Binary64) (a : Watch) (past : List Watch) : Prop where
  made : a.loop.routine? v = some (.awaitExit c)
  built : Built v c (a :: past)
  tended : ∃ f, a.loop.owner? f = some (some v) ∧ Loop.Tended w f d (Over v w c d a past) a.loop

section goes

variable {role role' : FutureId → Role} {a b d : Watch} {past : List Watch} {u v : TaskId} {c : ChildId} {w f : FutureId}
  {time : Binary64} {th : Thread Routine Frame Value Failure} {root : Routine} {stack : List Frame} {o : Ending} {P P' : Prop}

open Loop

/-! ## Moments -/

theorem AskedAt.cons (h : AskedAt d past) : AskedAt d (a :: past) := by
  obtain ⟨older, hsuffix, h⟩ := h
  exact ⟨older, hsuffix.trans (List.suffix_cons _ _), h⟩

theorem HasCome.cons (h : HasCome time past) : HasCome time (a :: past) := by
  obtain ⟨e, he, h⟩ := h
  exact ⟨e, List.mem_cons_of_mem _ he, h⟩

theorem Late.cons (h : Late c time past) : Late c time (a :: past) := by
  obtain ⟨e, older, hsuffix, h⟩ := h
  exact ⟨e, older, hsuffix.trans (List.suffix_cons _ _), h⟩

theorem Late.now (h : HasCome time (a :: past)) (hlive : ¬ a.loop.state.IsDead c) : Late c time (a :: past) :=
  ⟨a, past, List.suffix_refl _, h, hlive⟩

/-! ## What leaves a future alone -/

theorem Loop.Tended.not_failed {m : Loop} (h : Tended w f time P m) (ho : m.outcome? w = some o) : ∀ e, o ≠ .failed e := by
  rintro e rfl
  rcases h with h | h
  · cases (h.outcome ho).1
  · cases h.symm.trans ho

/-- **A step leaves a reserved future alone** while a task waits for it that is not to be cancelled by the transport, or that
is cancelled, or it is the turn of an entry, or time passes. -/
theorem Watch.Goes.avoids (hg : Watch.Goes role a role' b) (hf : Fits role a.loop .transport) (hw : role w = .reserved)
    (hth : a.loop.thread? u = some ⟨.waits w, stack⟩) (hroot : a.loop.routine? u = some root) (hinner : root.isInner = false) :
    Avoids w a.loop b.loop ∨ b.loop.outcome? w = some .cancelled ∨ a.loop.running = none ∧
      ((∃ h rest, a.loop.ready = h :: rest ∧ b.loop = ({ a.loop with ready := rest } : Loop).handle h) ∨
        ∃ now, b.loop = a.loop.setTime now) := by
  cases hg with
  | tick hq hs =>
    cases hr : a.loop.running with
    | some x => exact .inl (hs.avoids hf hr hw hth (not_cancellable hroot hinner))
    | none => exact .inr (.inr ⟨rfl, .inl (tick_of_idle hr hq)⟩)
  | @stimulus s hr hd =>
    by_cases htime : ∃ time, s = .advance time
    · obtain ⟨time, rfl⟩ := htime
      exact .inr (.inr ⟨hr, .inr ⟨_, rfl⟩⟩)
    · have haside := hf.aside hr hd fun time h => htime ⟨time, h⟩
      exact (haside.works.effect.avoids_or_cancelled (fun h => by cases hw.symm.trans h) fun h => ne_reserved_of_wake h hw).imp_right .inl

/-- A future stays tended while somebody waits for it, if what it is settled for goes on to hold. -/
theorem Watch.Goes.tended (hg : Watch.Goes role a role' b) (hf : Fits role a.loop .transport) (hw : role w = .reserved)
    (hth : a.loop.thread? u = some ⟨.waits w, stack⟩) (hroot : a.loop.routine? u = some root) (hinner : root.isInner = false)
    (h : Tended w f time P a.loop)
    (havoids : Avoids w a.loop b.loop → P → P')
    (hturn : ∀ h rest, a.loop.running = none → a.loop.ready = h :: rest → b.loop = ({ a.loop with ready := rest } : Loop).handle h →
      (∀ {i : Group}, i ∈ a.loop.groups → i.outer ≠ w) → P → P')
    (htime : ∀ now, a.loop.running = none → b.loop = a.loop.setTime now → Timed w f time P a.loop → (P → P') ∧ (isDue now time = true → P'))
    (hend : b.loop.isSettled f = true → P') : Tended w f time P' b.loop := by
  rcases h with h | h
  · rcases hg.avoids hf hw hth hroot hinner with hleft | hcancelled | ⟨hr, ⟨k, rest, hready, hloop⟩ | ⟨now, hloop⟩⟩
    · exact .inl (h.avoids hleft (havoids hleft) hend)
    · exact .inr hcancelled
    · have hp := hturn k rest hr hready hloop h.groups
      rw [hloop] at hend ⊢
      exact .inl (h.turn hready hp hend)
    · obtain ⟨hp, hdue⟩ := htime now hr hloop h
      rw [hloop]
      exact .inl (h.setTime now hp hdue)
  · exact .inr ((hg.keeps hf).outcome (hf.tidy.special (by rw [hw]; exact Role.noConfusion)) h)

/-! ## Whoever waits for the child comes first -/

theorem Loop.Soon.avoids {m m' : Loop} (h : m.Soon v w) (ha : Avoids w m m') : m'.Soon v w :=
  h.imp fun _ h => h.imp_right (·.avoids ha)

theorem Loop.Soon.setTime {m : Loop} (h : m.Soon v w) (now : Binary64) : Loop.Soon v w (m.setTime now) :=
  h.imp fun _ h => h.imp_right (·.setTime now)

/-- The turn of an entry is that of the task, or the task stays ahead. -/
theorem Loop.Soon.turn {m : Loop} {h : Handle Value Failure} {rest : List (Handle Value Failure)} {usage : Usage}
    (hs : m.Soon v w) (hf : Fits role m usage) (hr : m.running = none) (hready : m.ready = h :: rest)
    (hg : ∀ {i : Group}, i ∈ m.groups → i.outer ≠ w) :
    (∃ x, (({ m with ready := rest } : Loop).handle h).running = some x ∧ x.task = v) ∨
      Loop.Soon v w (({ m with ready := rest } : Loop).handle h) := by
  obtain ⟨k, hk, hs⟩ := hs
  rcases hs.turn hready hg with rfl | hahead
  · exact .inl (hf.runs_of_task hr hready hk)
  · exact .inr ⟨k, hk, hahead⟩

/-- When the time of a child has come, whoever waits for it has ended, or is about to go on, or the child lives. -/
theorem Over.of_idle (hrun : IsWatched (a :: past)) (hmade : a.loop.routine? v = some (.awaitExit c)) (hbuilt : Built v c (a :: past))
    (hcome : HasCome time (a :: past)) (hne : ∀ x, a.loop.running = some x → x.task ≠ v)
    (hready : ∀ k ∈ a.loop.ready, k.task? = some v → Over v w c time a past) : Over v w c time a past := by
  obtain ⟨role, hf⟩ := hrun.fits
  have hwoken := hf.tidy.sound.woken
  rcases hrun.awaitsExit hmade hbuilt with ⟨th, hth, hawaits⟩ | ⟨o, ho, -⟩
  · have hidle := isIdle_of_ne hth hne
    cases hawaits with
    | fresh => exact hready _ (hwoken.start.mpr ⟨_, hth⟩) rfl
    | @waits f hmem ho =>
      cases hset : a.loop.isSettled f with
      | true => exact hready _ (hwoken.notify.mpr ⟨hset, _, hth⟩) rfl
      | false => exact .inr (.inl (.now hcome (hrun.alive_of_waits hset (.waits hmem ho))))
    | _ => cases hidle
  · exact .inl (by rw [hasEnded, ho]; rfl)

/-- **Time that is up for a child stays so.** -/
theorem Over.step (h : Over v w c time a past) (hrun : IsWatched (b :: a :: past)) (hg : Watch.Goes role a role' b)
    (hf : Fits role a.loop .transport) (hf' : Fits role' b.loop .transport) (hmade : a.loop.routine? v = some (.awaitExit c))
    (hbuilt : Built v c (b :: a :: past))
    (hsoon : a.loop.Soon v w → (∃ x, b.loop.running = some x ∧ x.task = v) ∨ b.loop.Soon v w) : Over v w c time b (a :: past) := by
  rcases h with hended | hlate | ⟨hcome, hor⟩
  · obtain ⟨o, ho⟩ := Option.isSome_iff_exists.mp hended
    exact .inl (by rw [hasEnded, hg.ended hf hf' ho]; rfl)
  · exact .inr (.inl hlate.cons)
  · rcases hor with ⟨x, hx, rfl⟩ | hahead
    · by_cases hrunning : ∃ y, b.loop.running = some y ∧ y.task = x.task
      · exact .inr (.inr ⟨hcome.cons, .inl hrunning⟩)
      · have hmade' := (hg.keeps hf).routine hmade
        refine .of_idle hrun hmade' hbuilt hcome.cons (fun y hy heq => hrunning ⟨y, hy, heq⟩) fun k hk hkv => ?_
        refine absurd hkv ((hg.course hf hf' (thread?_of_running hx)).not_ready hf' x.thread_isIdle (fun {f stack} hth => ?_) hk)
        have hunfinished := hf'.tidy.sound.taskOutcome?_of_thread? hth
        obtain ⟨th, hth', hawaits⟩ : ∃ th, b.loop.thread? x.task = some th ∧ AwaitsExit c b.loop th := by
          refine (hrun.awaitsExit hmade' hbuilt).resolve_right ?_
          rintro ⟨o, ho, -⟩
          cases hunfinished.symm.trans ho
        cases hth'.symm.trans hth
        cases hawaits with
        | waits =>
          obtain ⟨_, -, hfits⟩ := hf'.threads hth
          cases hfits with
          | waits _ hawaits _ => cases hawaits with | exiting h => exact h.1
    · exact .inr (.inr ⟨hcome.cons, hsoon hahead⟩)

/-- **Whoever limits the wait for a child goes on to do so.** -/
theorem Clocked.step (h : Clocked v w c time a past) (hrun : IsWatched (b :: a :: past)) (hg : Watch.Goes role a role' b)
    (hf : Fits role a.loop .transport) (hf' : Fits role' b.loop .transport) (hw : role w = .reserved)
    (hth : a.loop.thread? u = some ⟨.waits w, stack⟩) (hroot : a.loop.routine? u = some root) (hinner : root.isInner = false)
    (hlt : c < b.loop.state.children.length) (hasked : b.loop.state.signals ≠ []) : Clocked v w c time b (a :: past) := by
  have hkeeps := hg.keeps hf
  have hmade := hkeeps.routine h.made
  have hbuilt : Built v c (b :: a :: past) := by
    intro d hd hr
    rcases List.mem_cons.mp hd with rfl | hd
    · exact hlt
    · exact h.built d hd hr
  obtain ⟨f, hown, htended⟩ := h.tended
  have hown' := hkeeps.owner hown
  have hstep : Over v w c time a past → (a.loop.Soon v w → (∃ x, b.loop.running = some x ∧ x.task = v) ∨ b.loop.Soon v w) →
      Over v w c time b (a :: past) := fun hover => hover.step hrun hg hf hf' h.made hbuilt
  refine ⟨hmade, hbuilt, f, hown', hg.tended hf hw hth hroot hinner htended ?_ ?_ ?_ ?_⟩
  · exact fun havoids hover => hstep hover fun hsoon => .inr (hsoon.avoids havoids)
  · intro k rest hr hready hloop hgroups hover
    refine hstep hover fun hsoon => ?_
    rw [hloop]
    exact hsoon.turn hf hr hready hgroups
  · intro now hr hloop htimed
    have hover : Over v w c time a past → Over v w c time b (a :: past) := fun hover =>
      hstep hover fun hsoon => .inr (by rw [hloop]; exact hsoon.setTime now)
    refine ⟨hover, fun hdue => ?_⟩
    by_cases hbefore : Over v w c time a past
    · exact hover hbefore
    · have hcome : HasCome time (b :: a :: past) := ⟨b, List.mem_cons_self, hasked, by rw [hloop]; exact hdue⟩
      refine .of_idle hrun hmade hbuilt hcome (fun x hx => ?_) fun k hk hkv => ?_
      · rw [hloop] at hx
        cases hr.symm.trans hx
      · -- it was woken before the timer was due
        have hbefore' : k ∈ a.loop.ready := by
          rw [hloop] at hk
          refine (mem_ready_setTime hk).resolve_right ?_
          rintro ⟨w', rfl⟩
          cases hkv
        have hun : a.loop.isSettled w = false := by
          cases hset : a.loop.isSettled w with
          | false => rfl
          | true =>
            obtain ⟨o, ho⟩ := isSettled_iff.mp hset
            exact absurd (htimed.outcome ho).2 hbefore
        have hsoon : a.loop.Soon v w := ⟨k, hkv, .of_mem hun (fun k hk hkw => hbefore (htimed.ready hk hkw).2) hbefore'⟩
        exact .inr (.inr ⟨hcome, .inr (by rw [hloop]; exact hsoon.setTime now)⟩)
  · exact fun hset => .inl (hasEnded_of_owner hf'.tidy.sound.owned hown' hset)

end goes

end DiagnosticsClient
