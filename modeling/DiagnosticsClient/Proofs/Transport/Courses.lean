import DiagnosticsClient.Proofs.Session.Dealings
import DiagnosticsClient.Proofs.Session.Tasks
import DiagnosticsClient.Proofs.Transport.Trace
/-
One task of a transport in a run.

A step of a run is part of the course of every task (`Watch.Goes.course`), so a fact about
the thread of one task is proved by `IsWatched.follow`: it has to hold of the fresh thread,
and each step of its course has to keep it.
-/
namespace DiagnosticsClient

open Async Async.Machine

namespace Loop

variable {role : FutureId → Role} {m m' : Loop} {F : Frame} {called : Routine}

/-- What serves the tasks of a transport does not change who is registered. -/
theorem isDesk_of_duty {roots : TaskId → Option Routine} (hs : F.Serves roots called) (hd : called.IsDuty) :
    F.isDesk = false := by
  cases hs with
  | registering => cases hd with | chore h => cases h
  | starting => cases hd with | chore h => cases h
  | leaving => cases hd with | chore h => cases h
  | closing => cases hd with | chore h => cases h
  | _ => rfl

end Loop

section goes

variable {role role' : FutureId → Role} {x : ChildTransport} {a b : Watch} {past : List Watch} {u : TaskId} {root : Routine} {o : Ending}
  {th : Thread Routine Frame Value Failure} {s : Stimulus}

open Loop

/-- From one moment to the next the tasks stay and the settings are the same. -/
theorem Watch.Step.endures (hs : a.Step b) (ho : Orderly x a.loop) (hf : Fits role a.loop .transport) :
    Endures a.loop b.loop := by
  cases hs with
  | tick hq =>
    obtain ⟨role', hstride, -⟩ := hf.stride hq
    generalize a.loop.tick program = m' at hstride
    dsimp only
    cases hstride with
    | awakes _ _ _ hswitch => exact .of_state hswitch.state fun hr => (hswitch.routine _).trans hr
    | passes _ he hstate => exact .of_state hstate he.routine?
    | ends _ hswitch => exact .of_state hswitch.state fun hr => (hswitch.routine _).trans hr
    | begins _ hv _ hd =>
      exact (begin_ages hv).toEndures.trans (.of_state hd.switch.state fun hr => (hd.switch.routine _).trans hr)
    | resumes _ hserves _ _ hd =>
      have hdesk := isDesk_of_duty hserves (hd.stacked.duty (ho.chores hd.made))
      exact (resume_lasts _ hdesk).toEndures.trans (.of_state hd.switch.state fun hr => (hd.switch.routine _).trans hr)
  | @stimulus s _ hd =>
    have hrest : Stimulus.Admissible [] a.loop s → Endures a.loop (a.loop.apply s).1 := fun ha => (apply_lasts ha).toEndures
    cases s with
    | ask r => exact .of_state rfl (routine?_spawn_of_some a.loop r)
    | cancel u => exact (Lasts.cancelTask a.loop u).toEndures
    | _ => exact hrest trivial

/-- What leads from one moment of a run to the next. -/
inductive Watch.Goes (role : FutureId → Role) (a : Watch) : (FutureId → Role) → Watch → Prop
  | tick {role' : FutureId → Role} (hq : a.loop.isQuiet = false) (hs : Stride .transport role a.loop role' (a.loop.tick program)) :
      Goes role a role' { a with loop := a.loop.tick program }
  | stimulus {s : Stimulus} (hr : a.loop.running = none) (hd : s.Drives a.loop) : Goes role a role (a.after s)

/-- A run goes from its last moment but one to its last. -/
theorem IsWatched.lastStep (h : IsWatched (b :: a :: past)) : IsWatched (a :: past) ∧ a.Step b ∧ ∃ role role',
    Fits role a.loop .transport ∧ Fits role' b.loop .transport ∧ Watch.Goes role a role' b := by
  cases h with
  | step h hs =>
    obtain ⟨role, hf⟩ := h.fits
    refine ⟨h, hs, role, ?_⟩
    cases hs with
    | tick hq =>
      obtain ⟨role', hstride, hf'⟩ := hf.stride hq
      exact ⟨role', hf, hf', .tick hq hstride⟩
    | stimulus hr hd => exact ⟨role, hf, hf.driven hr hd, .stimulus hr hd⟩

/-- What reaches a transport extends its loop. -/
theorem Loop.Fits.extends_apply {m : Loop} (hf : Fits role m .transport) (hr : m.running = none) (hd : s.Drives m) :
    ∃ may : Licence Routine, m.Extends may (m.apply s).1 := by
  by_cases ht : ∃ time, s = .advance time
  · obtain ⟨time, rfl⟩ := ht
    have hset : Settled (bare role) m (m.apply (.advance time)).1 := .setTime hf.tidy.sound _
    exact ⟨_, hset.extends_⟩
  · exact ⟨_, (hf.aside hr hd fun time h => ht ⟨time, h⟩).effect.extends⟩

namespace Watch.Goes

/-- **A step is part of the course of a task.** -/
theorem course (hg : Goes role a role' b) (hf : Fits role a.loop .transport) (hf' : Fits role' b.loop .transport)
    (hth : a.loop.thread? u = some th) : Loop.Course .transport role a.loop u th role' b.loop := by
  cases hg with
  | tick hq hs => exact hs.course hf hf' hth
  | stimulus hr hd =>
    have hne : ∀ x, a.loop.running = some x → x.task ≠ u := fun x hx => by rw [hr] at hx; cases hx
    obtain ⟨may, he⟩ := hf.extends_apply hr hd
    exact .rests (isIdle_of_ne hth hne) hne
      ((he.thread? hf'.tidy.sound.owned (lt_size_of_thread? hf.tidy.sound hth)).trans hth)

theorem keeps (hg : Goes role a role' b) (hf : Fits role a.loop .transport) : a.loop.Keeps b.loop := by
  cases hg with
  | tick hq hs => exact hs.keeps
  | stimulus hr hd =>
    obtain ⟨may, he⟩ := hf.extends_apply hr hd
    exact keeps_of_extends he

theorem fresh (hg : Goes role a role' b) (hf : Fits role a.loop .transport) (hf' : Fits role' b.loop .transport)
    (hn : a.loop.routine? u = none) (hr : b.loop.routine? u = some root) : b.loop.thread? u = some ⟨.fresh root, []⟩ := by
  cases hg with
  | tick hq hs => exact hs.fresh hf hf' hn hr
  | stimulus hidle hd =>
    obtain ⟨may, he⟩ := hf.extends_apply hidle hd
    exact fresh_of_extends he hf.tidy.sound hf'.tidy.sound hn hr

theorem ended (hg : Goes role a role' b) (hf : Fits role a.loop .transport) (hf' : Fits role' b.loop .transport)
    (ho : a.loop.taskOutcome? u = some o) : b.loop.taskOutcome? u = some o := by
  cases hg with
  | tick hq hs => exact hs.ended hf hf' ho
  | stimulus hr hd =>
    obtain ⟨may, he⟩ := hf.extends_apply hr hd
    obtain ⟨task, htask, -⟩ := Option.bind_eq_some_iff.mp ho
    exact (he.taskOutcome? hf'.tidy.sound.owned (Array.getElem?_eq_some_iff.mp htask).1).trans ho

theorem step (hg : Goes role a role' b) : a.Step b := by
  cases hg with
  | tick hq hs => exact .tick hq
  | stimulus hr hd => exact .stimulus hr hd

end Watch.Goes

/-- What a task was asked to do stays. -/
theorem IsWatched.routine_of_mem (h : IsWatched (a :: past)) (hb : b ∈ a :: past) (hr : b.loop.routine? u = some root) :
    a.loop.routine? u = some root := by
  induction past generalizing a with
  | nil => exact List.mem_singleton.mp hb ▸ hr
  | cons c past ih =>
    obtain ⟨hc, -, role, role', hf, -, hgoes⟩ := h.lastStep
    rcases List.mem_cons.mp hb with rfl | hb
    · exact hr
    · exact (hgoes.keeps hf).routine (ih hc hb)

/-- **Following a task through a run.** What holds of its fresh thread and is kept by every step of its course holds of its
thread, and what follows when it ends holds from then on. -/
theorem IsWatched.follow {P : Watch → List Watch → Thread Routine Frame Value Failure → Prop} {Q : Watch → List Watch → Ending → Prop}
    (hfresh : ∀ {a past}, P a past ⟨.fresh root, []⟩)
    (hturn : ∀ {role role' a b past th}, IsWatched (a :: past) → Fits role a.loop .transport → Fits role' b.loop .transport →
      Watch.Goes role a role' b → a.loop.thread? u = some th → a.loop.routine? u = some root →
      Loop.Course .transport role a.loop u th role' b.loop → P a past th →
      (∃ th', b.loop.thread? u = some th' ∧ P b (a :: past) th') ∨
        ∃ o, b.loop.taskOutcome? u = some o ∧ Q b (a :: past) o)
    (hended : ∀ {role role' a b past o}, IsWatched (a :: past) → Fits role a.loop .transport → Fits role' b.loop .transport →
      Watch.Goes role a role' b → a.loop.taskOutcome? u = some o → Q a past o → Q b (a :: past) o)
    (h : IsWatched (a :: past)) (hroot : a.loop.routine? u = some root) :
    (∃ th, a.loop.thread? u = some th ∧ P a past th) ∨ ∃ o, a.loop.taskOutcome? u = some o ∧ Q a past o := by
  induction past generalizing a with
  | nil =>
    cases h with
    | new hm => cases hm.isEmpty.routine?.symm.trans hroot
  | cons b past ih =>
    obtain ⟨hb, -, role, role', hf, hf', hgoes⟩ := h.lastStep
    cases hbefore : b.loop.routine? u with
    | none => exact .inl ⟨_, hgoes.fresh hf hf' hbefore hroot, hfresh⟩
    | some r =>
      cases ((hgoes.keeps hf).routine hbefore).symm.trans hroot
      rcases ih hb hbefore with ⟨th, hth, hp⟩ | ⟨o, ho, hq⟩
      · exact hturn hb hf hf' hgoes hth hbefore (hgoes.course hf hf' hth) hp
      · exact .inr ⟨o, hgoes.ended hf hf' ho, hended hb hf hf' hgoes ho hq⟩

end goes

end DiagnosticsClient
