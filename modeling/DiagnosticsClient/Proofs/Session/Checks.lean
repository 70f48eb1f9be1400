import DiagnosticsClient.Proofs.Session.Multicast
import DiagnosticsClient.Proofs.Session.Numbers
import DiagnosticsClient.Proofs.Session.Wards
import DiagnosticsClient.Session.Check
/-
Runs of a check.

A check is a task in a session of its own, of which nobody else asks anything. It
goes on step by step; whenever no task runs a child may write, end or close its
pipes, and time may pass. A run is kept as the list of its loops, newest first.

All that is known of a moment of a session is known of these loops
(`IsCheck.induction`), and a task is followed through a check as through any run
(`IsCheck.follow`). The loop that a check comes to, whatever its script, is one of
these (`IsCheck.runTask`).
-/
namespace DiagnosticsClient

open Async Async.Machine

/-- A stimulus that comes from a child. -/
def Stimulus.isChilds : Stimulus → Bool
  | .output .. => true
  | .errors .. => true
  | .exit .. => true
  | .closeInput _ => true
  | .breakOutput .. => true
  | _ => false

/-- The loop of a check before its first step. -/
def Surroundings.loop (s : Surroundings) (files : List Text) (context : Context) (limit : Option Seconds) : Loop :=
  (({ state := s.session } : Loop).spawn (.checkFiles files context limit)).1

/-- From one loop of a check to the next. -/
inductive Proceeds (m : Loop) : Loop → Prop
  | tick (hq : m.isQuiet = false) : Proceeds m (m.tick Loop.program)
  | child {s : Stimulus} (hr : m.running = none) (hs : s.isChilds = true) : Proceeds m (m.apply s).1
  | lapse (hr : m.running = none) (now : Binary64) : Proceeds m (m.setTime now)

/-- The loops of a check, newest first. -/
inductive IsCheck (s : Surroundings) (files : List Text) (context : Context) (limit : Option Seconds) : List Loop → Prop
  | new : IsCheck s files context limit [s.loop files context limit]
  | step {m m' : Loop} {past : List Loop} (h : IsCheck s files context limit (m :: past)) (hs : Proceeds m m') :
      IsCheck s files context limit (m' :: m :: past)

variable {s : Surroundings} {files : List Text} {context : Context} {limit : Option Seconds} {role role' : FutureId → Role}
  {m m' : Loop} {past : List Loop} {a b : Moment} {u : TaskId} {root : Routine} {o : Ending} {th : Thread Routine Frame Value Failure}

/-! ## Steps -/

/-- All that is known of a loop of a check. -/
abbrev Loop.Holds (role : FutureId → Role) (m : Loop) : Prop := Moment.Holds role { loop := m }

/-- What a step of a check does. -/
inductive Moves (role : FutureId → Role) (m : Loop) : (FutureId → Role) → Loop → Prop
  | goes {role' : FutureId → Role} {m' : Loop} (h : Goes role { loop := m } role' { loop := m' }) : Moves role m role' m'
  | lapse (hr : m.running = none) (now : Binary64) : Moves role m role (m.setTime now)

theorem Stimulus.admissible_of_isChilds {s : Stimulus} (hs : s.isChilds = true) (held : List ListenerId) (m : Loop) :
    s.Admissible held m := by
  cases s <;> trivial

/-- What is known of a loop is known of it when time has passed. -/
theorem Loop.Holds.setTime (h : m.Holds role) (now : Binary64) : Loop.Holds role (m.setTime now) := by
  have hset : Settled (Loop.bare role) m (m.setTime now) := .setTime h.fits.tidy.sound now
  have hview : ∀ {α : Type} {see : Thread Routine Frame Value Failure → Option α}, (∀ r, see ⟨.fresh r, []⟩ = none) →
      ∀ u, (m.setTime now).view see u = m.view see u := hset.extends_.view h.fits.tidy.sound hset.sound
  refine ⟨h.fits.extends hset.extends_ (fun hs => hs.elim) (h.fits.tidy.settled hset) (fun _ _ => rfl) rfl id, ?_,
    h.coherent.settled h.fits hset, h.allotted.shift (.keeps (fun {u l} hu => (hview (fun _ => rfl) u).symm.trans hu) id (.refl _))⟩
  refine h.known.mono h.fits (Loop.keeps_of_extends hset.extends_) 0 (Nat.le_refl _) fun {u th l} hth huses => ?_
  rcases hset.extends_.thread?_cases h.fits.tidy.sound hset.sound hth with hold | ⟨_, hspawn, -⟩
  · exact .inl ⟨th, hold, huses⟩
  · exact hspawn.elim

theorem Loop.Holds.proceeds (h : m.Holds role) (hs : Proceeds m m') : ∃ role', m'.Holds role' ∧ Moves role m role' m' := by
  cases hs with
  | tick hq =>
    obtain ⟨role', hholds, hgoes⟩ := Moment.Holds.step h (.tick hq)
    exact ⟨role', hholds, .goes hgoes⟩
  | @child s hr hs =>
    obtain ⟨role', hholds, hgoes⟩ := Moment.Holds.step h (.stimulus hr (Stimulus.admissible_of_isChilds hs [] m))
    have hheld : Moment.after { loop := m } s = { loop := (m.apply s).1 } := by
      cases s <;> first | rfl | cases hs
    rw [hheld] at hholds hgoes
    exact ⟨role', hholds, .goes hgoes⟩
  | lapse hr now => exact ⟨role, h.setTime now, .lapse hr now⟩

namespace Moves

theorem keeps (h : Moves role m role' m') (hm : m.Holds role) : m.Keeps m' := by
  cases h with
  | goes h => exact h.keeps hm
  | lapse hr now =>
    have hset : Settled (Loop.bare role) m (m.setTime now) := .setTime hm.fits.tidy.sound now
    exact Loop.keeps_of_extends hset.extends_

/-- A step of a check is a turn of a task, or it rests. -/
theorem turn (h : Moves role m role' m') (hm : m.Holds role) (hm' : m'.Holds role') (hth : m.thread? u = some th) :
    Loop.Turn role m u th role' m' := by
  cases h with
  | goes h => exact h.turn hm hm' hth
  | lapse hr now =>
    have hset : Settled (Loop.bare role) m (m.setTime now) := .setTime hm.fits.tidy.sound now
    have hne : ∀ x, m.running = some x → x.task ≠ u := fun x hx => by cases hr.symm.trans hx
    exact .rests (Loop.isIdle_of_ne hth hne) hne
      ((hset.extends_.thread? hset.sound.owned (lt_size_of_thread? hm.fits.tidy.sound hth)).trans hth)

theorem fresh (h : Moves role m role' m') (hm : m.Holds role) (hm' : m'.Holds role') (hn : m.routine? u = none)
    (hr : m'.routine? u = some root) : m'.thread? u = some ⟨.fresh root, []⟩ := by
  cases h with
  | goes h => exact h.fresh hm hm' hn hr
  | lapse _ now =>
    have hset : Settled (Loop.bare role) m (m.setTime now) := .setTime hm.fits.tidy.sound now
    exact Loop.fresh_of_extends hset.extends_ hm.fits.tidy.sound hset.sound hn hr

theorem ended (h : Moves role m role' m') (hm : m.Holds role) (hm' : m'.Holds role') (ho : m.taskOutcome? u = some o) :
    m'.taskOutcome? u = some o := by
  cases h with
  | goes h => exact h.ended hm hm' ho
  | lapse hr now => exact ho

theorem nextSeq (h : Moves role m role' m') (hm : m.Holds role) : m.state.nextSeq ≤ m'.state.nextSeq := by
  cases h with
  | goes h => exact h.nextSeq hm
  | lapse hr now => exact Nat.le_refl _

/-- What was received stays in the record. -/
theorem received (h : Moves role m role' m') (hm : m.Holds role) : m.state.received ⊆ m'.state.received := by
  cases h with
  | goes h =>
    rw [(h.pours hm).received]
    exact List.subset_append_left _ _
  | lapse hr now => exact fun _ => id

/-- The session stays set up as it was. -/
theorem setup (h : Moves role m role' m') (hm : m.Holds role) : m'.state.setup = m.state.setup := by
  cases h with
  | goes h => exact (h.endures hm).setup
  | lapse hr now => rfl

end Moves

/-! ## Runs -/

theorem Surroundings.isNew (s : Surroundings) : Loop.IsNew { state := s.session } := ⟨s.session, rfl⟩

/-- The task of a check is the only one at first. -/
theorem Surroundings.thread?_loop (hr : (s.loop files context limit).routine? u = some root) :
    u = 0 ∧ root = .checkFiles files context limit ∧ (s.loop files context limit).thread? u = some ⟨.fresh root, []⟩ := by
  cases u with
  | zero =>
    cases hr
    exact ⟨rfl, rfl, rfl⟩
  | succ u => cases hr

/-- What is known of a session is known of a check before its first step. -/
theorem Surroundings.holds (s : Surroundings) (files : List Text) (context : Context) (limit : Option Seconds) :
    (s.loop files context limit).Holds fun _ => .other := by
  have hnew := s.isNew
  have hspawn : Loop.Aside (fun _ => .other) (fun _ => False) (.checkFiles files context limit = ·) ({ state := s.session } : Loop)
      (s.loop files context limit) := (Loop.Aside.spawn hnew.fits.tidy rfl).1
  have he := hspawn.effect.extends
  have hview : ∀ {α : Type} {see : Thread Routine Frame Value Failure → Option α}, (∀ r, see ⟨.fresh r, []⟩ = none) →
      ∀ u, (s.loop files context limit).view see u = ({ state := s.session } : Loop).view see u :=
    he.view hnew.fits.tidy.sound hspawn.tidy.sound
  refine ⟨hnew.fits.extends he ?_ hspawn.tidy (fun _ _ => rfl) rfl id, ?_, ?_,
    hnew.allotted.shift (.keeps (fun {u l} hu => (hview (fun _ => rfl) u).symm.trans hu) id (.refl _))⟩
  · rintro r rfl
    rfl
  · refine hnew.known.mono hnew.fits (Loop.keeps_of_extends he) 0 (Nat.le_refl _) fun {u th l} hth huses => ?_
    rcases he.thread?_cases hnew.fits.tidy.sound hspawn.tidy.sound hth with hold | ⟨r, rfl, -, -, rfl⟩
    · exact .inl ⟨th, hold, huses⟩
    · rcases huses with ⟨r, h | h, habout⟩ | ⟨F, hF, -⟩
      · cases h
        cases habout
      · cases h
      · cases hF
  · exact Ordered.mono hnew.coherent (hview fun _ => rfl) rfl (fun hmem => by cases hmem) (.inl ⟨rfl, rfl⟩)

/-- **Induction over a check**, with all that is known of the loops on both sides of a step. -/
theorem IsCheck.induction {P : Loop → List Loop → Prop} (hnew : P (s.loop files context limit) [])
    (hstep : ∀ {role role' m m' past}, IsCheck s files context limit (m :: past) → m.Holds role → m'.Holds role' →
      Moves role m role' m' → P m past → P m' (m :: past))
    (h : IsCheck s files context limit (m :: past)) : (∃ role, m.Holds role) ∧ P m past := by
  generalize hms : m :: past = loops at h
  induction h generalizing m past with
  | new =>
    cases hms
    exact ⟨⟨_, s.holds files context limit⟩, hnew⟩
  | step hcheck hs ih =>
    cases hms
    obtain ⟨⟨role, hholds⟩, hp⟩ := ih rfl
    obtain ⟨role', hholds', hmoves⟩ := hholds.proceeds hs
    exact ⟨⟨role', hholds'⟩, hstep hcheck hholds hholds' hmoves hp⟩

theorem IsCheck.holds (h : IsCheck s files context limit (m :: past)) : ∃ role, m.Holds role :=
  (h.induction (P := fun _ _ => True) trivial fun _ _ _ _ _ => trivial).1

/-- **Following a task through a check.** What holds of its fresh thread and is kept by every turn holds of its thread, and
what follows when it ends holds from then on. -/
theorem IsCheck.follow {P : Loop → List Loop → Thread Routine Frame Value Failure → Prop} {Q : Loop → List Loop → Ending → Prop}
    (hfresh : ∀ {m past}, P m past ⟨.fresh root, []⟩)
    (hturn : ∀ {role role' m m' past th}, IsCheck s files context limit (m :: past) → m.Holds role → m'.Holds role' →
      Moves role m role' m' → m.thread? u = some th → m.routine? u = some root → Loop.Turn role m u th role' m' → P m past th →
      (∃ th', m'.thread? u = some th' ∧ P m' (m :: past) th') ∨ ∃ o, m'.taskOutcome? u = some o ∧ Q m' (m :: past) o)
    (hended : ∀ {role role' m m' past o}, IsCheck s files context limit (m :: past) → m.Holds role → m'.Holds role' →
      Moves role m role' m' → m.taskOutcome? u = some o → Q m past o → Q m' (m :: past) o)
    (h : IsCheck s files context limit (m :: past)) (hroot : m.routine? u = some root) :
    (∃ th, m.thread? u = some th ∧ P m past th) ∨ ∃ o, m.taskOutcome? u = some o ∧ Q m past o := by
  induction past generalizing m with
  | nil =>
    cases h with
    | new =>
      obtain ⟨-, -, hth⟩ := Surroundings.thread?_loop hroot
      exact .inl ⟨_, hth, hfresh⟩
  | cons n past ih =>
    cases h with
    | step hn hs =>
      obtain ⟨role, hholds⟩ := hn.holds
      obtain ⟨role', hholds', hmoves⟩ := hholds.proceeds hs
      cases hbefore : n.routine? u with
      | none => exact .inl ⟨_, hmoves.fresh hholds hholds' hbefore hroot, hfresh⟩
      | some r =>
        cases ((hmoves.keeps hholds).routine hbefore).symm.trans hroot
        rcases ih hn hbefore with ⟨th, hth, hp⟩ | ⟨o, ho, hq⟩
        · exact hturn hn hholds hholds' hmoves hth hbefore (hmoves.turn hholds hholds' hth) hp
        · exact .inr ⟨o, hmoves.ended hholds hholds' ho, hended hn hholds hholds' hmoves ho hq⟩

/-- A task goes on, or has ended. -/
theorem IsCheck.onward (h : IsCheck s files context limit (m :: past)) (hroot : m.routine? u = some root) :
    (∃ th, m.thread? u = some th) ∨ ∃ o, m.taskOutcome? u = some o := by
  have hfollow := h.follow (P := fun _ _ _ => True) (Q := fun _ _ _ => True) trivial
    (fun _ _ _ _ _ _ hturn _ => hturn.onward.imp (fun ⟨th, hth⟩ => ⟨th, hth, trivial⟩) fun ⟨o, ho⟩ => ⟨o, ho, trivial⟩)
    (fun _ _ _ _ _ _ => trivial) hroot
  exact hfollow.imp (fun ⟨th, hth, _⟩ => ⟨th, hth⟩) fun ⟨o, ho, _⟩ => ⟨o, ho⟩

/-! ## What the command runs -/

theorem running_of_isQuiet (hq : m.isQuiet = true) : m.running = none ∧ m.ready = [] := by
  simpa [isQuiet] using hq

theorem tick_of_isQuiet (hq : m.isQuiet = true) : m.tick Loop.program = m := by
  obtain ⟨hr, hready⟩ := running_of_isQuiet hq
  simp only [Machine.tick, hr, hready]

theorem IsCheck.runEntries (h : IsCheck s files context limit (m :: past)) (fuel entries : Nat) :
    ∃ past', IsCheck s files context limit (m.runEntries Loop.program fuel entries :: past') := by
  induction fuel generalizing entries m past with
  | zero => exact ⟨past, h⟩
  | succ fuel ih =>
    have htick : ∀ entries, ∃ past',
        IsCheck s files context limit ((m.tick Loop.program).runEntries Loop.program fuel entries :: past') := by
      intro entries
      cases hq : m.isQuiet with
      | false => exact ih (.step h (.tick hq)) entries
      | true =>
        rw [tick_of_isQuiet hq]
        exact ih h entries
    unfold Machine.runEntries
    split
    · exact htick _
    · exact ⟨past, h⟩
    · exact htick _

/-- **Whatever a check comes to is the end of a run of it**, when its children only do what their script says. -/
theorem IsCheck.runTask (h : IsCheck s files context limit (m :: past)) (fuel : Nat) (t : TaskId) (rounds : Nat) :
    ∃ past', IsCheck s files context limit (m.runTask Loop.program fuel t rounds :: past') := by
  induction rounds generalizing m past with
  | zero => exact ⟨past, h⟩
  | succ rounds ih =>
    unfold Machine.runTask
    split
    · exact h.runEntries fuel m.ready.length
    · split
      · next hq =>
        split
        · next time _ => exact ih (.step h (.lapse (running_of_isQuiet hq).1 time))
        · exact ⟨past, h⟩
      · obtain ⟨past', h'⟩ := h.runEntries fuel m.ready.length
        exact ih h'

end DiagnosticsClient
