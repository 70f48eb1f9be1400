import DiagnosticsClient.Proofs.Session.Ticks
/-
Runs of a session.

A run begins with a new session and goes on step by step: the loop takes a step
when it is not quiet, and whenever no task runs something may reach it from
outside. Callers ask for what the session offers, about listeners they were
given, and cancel what they asked for; all else may happen in any order. A run
is kept as the list of its moments, newest first, so that what is said about the
past is a function of that list.

Threads fit at every moment of a run (`IsRun.fits`).
-/
namespace DiagnosticsClient

open Async Async.Machine

/-- The listener that a routine is about. -/
def Routine.about : Routine → Option ListenerId
  | .openListener l => some l
  | .register l => some l
  | .closeListener l => some l
  | .next l => some l
  | .take l => some l
  | .collect l => some l
  | _ => none

/-- What may reach a session from outside, when callers hold some listeners. -/
def Stimulus.Admissible (held : List ListenerId) (m : Loop) : Stimulus → Prop
  | .ask r => r.isAsked = true ∧ ∀ l, r.about = some l → l ∈ held
  | .cancel t => ∃ r, m.routine? t = some r ∧ r.isAsked = true
  | _ => True

/-- What reaches a loop without being heard, and makes nobody a listener. -/
def Stimulus.isAside : Stimulus → Bool
  | .advance _ => false
  | .listen => false
  | .issueSeq => false
  | .receive .. => false
  | .report .. => false
  | _ => true

/-- A session at a time: its loop, the listeners its callers were given and the tasks they cancelled. -/
structure Moment where
  loop : Loop
  held : List ListenerId := []
  cancelled : List TaskId := []

/-- A session before anything happens to it. -/
def Loop.IsNew (m : Loop) : Prop :=
  ∃ s : State, m =
    { state := { s with
        receiver := .session, lock := {}, listeners := [], registered := [], current := none, nextSeq := 0
        transports := [], children := [], transcript := #[] } }

/-- The moment after a stimulus. -/
def Moment.after (a : Moment) (s : Stimulus) : Moment where
  loop := (a.loop.apply s).1
  held :=
    match s with
    | .listen => a.held ++ [a.loop.listen.2]
    | _ => a.held
  cancelled :=
    match s with
    | .cancel t => a.cancelled ++ [t]
    | _ => a.cancelled

/-- The moments until nothing can go on by itself, newest first: the newest, and those before it. -/
def Moment.onward : (fuel : Nat) → Moment → List Moment → Moment × List Moment
  | 0, a, past => (a, past)
  | fuel + 1, a, past =>
    if a.loop.isQuiet then (a, past) else onward fuel { a with loop := a.loop.tick Loop.program } (a :: past)

/-- The moments after a stimulus, until nothing can go on by itself. -/
def Moment.pursue (fuel : Nat) (s : Stimulus) (moments : Moment × List Moment) : Moment × List Moment :=
  onward fuel (moments.1.after s) (moments.1 :: moments.2)

/-- From one moment to the next. -/
inductive Step (a : Moment) : Moment → Prop
  | tick (h : a.loop.isQuiet = false) : Step a { a with loop := a.loop.tick Loop.program }
  | stimulus {s : Stimulus} (h : a.loop.running = none) (ha : s.Admissible a.held a.loop) : Step a (a.after s)

/-- The moments of a run, newest first. -/
inductive IsRun : List Moment → Prop
  | new {m : Loop} (h : m.IsNew) : IsRun [{ loop := m }]
  | step {a b : Moment} {past : List Moment} (h : IsRun (a :: past)) (hs : Step a b) : IsRun (b :: a :: past)

section runs

variable {a : Moment} {past : List Moment} {s : Stimulus}

/-- Stepping until nothing can go on is part of a run. -/
theorem IsRun.settleDown (h : IsRun (a :: past)) (fuel : Nat) :
    ∃ past', IsRun ({ a with loop := a.loop.settleDown fuel } :: past') := by
  induction fuel generalizing a past with
  | zero => exact ⟨past, h⟩
  | succ fuel ih =>
    cases hq : a.loop.isQuiet with
    | true =>
      have hrun : a.loop.settleDown (fuel + 1) = a.loop := by simp [Loop.settleDown, Machine.run, hq]
      rw [hrun]
      exact ⟨past, h⟩
    | false =>
      have hrun : a.loop.settleDown (fuel + 1) = Loop.settleDown fuel (a.loop.tick Loop.program) := by
        simp [Loop.settleDown, Machine.run, hq]
      rw [hrun]
      exact ih (.step h (.tick hq))

/-- A stimulus, and what goes on after it, are part of a run. -/
theorem IsRun.stimulate (h : IsRun (a :: past)) (hr : a.loop.running = none) (ha : s.Admissible a.held a.loop) (fuel : Nat) :
    ∃ past', IsRun ({ a.after s with loop := (a.loop.stimulate fuel s).1 } :: past') :=
  (IsRun.step h (.stimulus hr ha)).settleDown fuel

theorem IsRun.onward (h : IsRun (a :: past)) (fuel : Nat) :
    IsRun ((a.onward fuel past).1 :: (a.onward fuel past).2) := by
  induction fuel generalizing a past with
  | zero => exact h
  | succ fuel ih =>
    unfold Moment.onward
    split
    · exact h
    · next hq => exact ih (.step h (.tick (Bool.eq_false_iff.mpr hq)))

/-- The moments after a stimulus are part of a run. -/
theorem IsRun.pursue {moments : Moment × List Moment} (h : IsRun (moments.1 :: moments.2))
    (hr : moments.1.loop.running.isNone = true) (ha : s.Admissible moments.1.held moments.1.loop) (fuel : Nat) :
    IsRun ((Moment.pursue fuel s moments).1 :: (Moment.pursue fuel s moments).2) :=
  (IsRun.step h (.stimulus (Option.isNone_iff_eq_none.mp hr) ha)).onward fuel

theorem suffix_onward (fuel : Nat) (a : Moment) (past : List Moment) :
    a :: past <:+ (a.onward fuel past).1 :: (a.onward fuel past).2 := by
  induction fuel generalizing a past with
  | zero => exact List.suffix_refl _
  | succ fuel ih =>
    unfold Moment.onward
    split
    · exact List.suffix_refl _
    · exact (List.suffix_cons _ _).trans (ih _ _)

/-- The moments up to a stimulus are among those after it. -/
theorem suffix_pursue (fuel : Nat) (s : Stimulus) (moments : Moment × List Moment) :
    moments.1.after s :: moments.1 :: moments.2 <:+ (Moment.pursue fuel s moments).1 :: (Moment.pursue fuel s moments).2 :=
  suffix_onward fuel _ _

end runs

namespace Loop

variable {role : FutureId → Role} {usage : Usage} {m : Loop} {held : List ListenerId} {s : Stimulus}

/-- Who may be cancelled when something reaches the session. -/
def MayCancel (m : Loop) (s : Stimulus) (u : TaskId) : Prop := s = .cancel u ∨ m.Cancellable u

/-- What may be made a task when something reaches the session. -/
def MaySpawn (s : Stimulus) (r : Routine) : Prop := s = .ask r ∨ r.isOwn = true

theorem Aside.withTransport {K : TaskId → Prop} {S : Routine → Prop} (h : m.Tidy role) (t : TransportId)
    {k : Loop → Loop × Reaction} (hk : Aside role K S m (k m).1) : Aside role K S m (m.withTransport t k).1 := by
  unfold Loop.withTransport
  split
  · exact hk
  · exact .refl h

theorem Aside.withChild {K : TaskId → Prop} {S : Routine → Prop} (h : m.Tidy role) (c : ChildId)
    {k : Loop → Loop × Reaction} (hk : Aside role K S m (k m).1) : Aside role K S m (m.withChild c k).1 := by
  unfold Loop.withChild
  split
  · exact hk
  · exact .refl h

theorem reacted_fst (m : Loop) (failure : Option Failure) : (m.reacted failure).1 = m := by
  cases failure <;> rfl

/-- Cancelling a task from outside is aside. -/
theorem Fits.cancel (hf : Fits role m usage) (hr : m.running = none) {t : TaskId} {r : Routine} (ht : m.routine? t = some r) :
    Aside role (m.MayCancel (.cancel t)) (MaySpawn (.cancel t)) m (m.cancelTask t).1 := by
  have hn : m.SparesReaders := fun x hx => by rw [hr] at hx; cases hx
  have hcancels : m.Cancels (licence role m.state.IsDead (m.MayCancel (.cancel t)) (MaySpawn (.cancel t))) :=
    hf.cancels fun hu => Or.inr (hn.cancellable hu)
  obtain ⟨task, htask, -⟩ := Option.map_eq_some_iff.mp ht
  have heff := cancelTask_effect hf.tidy.sound.owned hcancels (fun _ x hx => by rw [hr] at hx; cases hx) (.inl rfl)
    (Array.getElem?_eq_some_iff.mp htask).1
  exact .of_effect hf.tidy heff (cancelTask_state m t)

/-- What reaches a loop from outside is aside, unless a caller wants a listener or a number, time passes, or somebody
speaks for a transport. -/
theorem apply_aside (hf : Fits role m usage) (hr : m.running = none) (hc : ∀ u, s = .cancel u → ∃ r, m.routine? u = some r)
    (hs : s.isAside = true) : Aside role (m.MayCancel s) (MaySpawn s) m (m.apply s).1 := by
  have h := hf.tidy
  cases s with
  | ask r => exact (Aside.spawn h (.inl rfl)).1
  | cancel t =>
    obtain ⟨r, hroot⟩ := hc t rfl
    exact hf.cancel hr hroot
  | send r =>
    simp only [apply, reacted_fst]
    exact .send h r
  | write t r =>
    refine .withTransport h t ?_
    rw [reacted_fst]
    exact .write h t r
  | writeValue t v =>
    refine .withTransport h t ?_
    have hline := Aside.writeLine (K := m.MayCancel (.writeValue t v)) (S := MaySpawn (.writeValue t v)) h t
      (encodeValue m.state.settings.encoding v)
    split <;> rename_i hm <;> rw [hm] at hline <;> exact hline
  | openGate t call => exact .withTransport h t (.openGate h t call)
  | output c octets =>
    refine .withChild h c ?_
    unfold written
    split
    · next hm => exact .feedStream h hm
    · exact .refl h
  | errors c octets =>
    refine .withChild h c ?_
    unfold written
    split
    · next hm => exact .feedStream h hm
    · exact .refl h
  | exit c code => exact .withChild h c (.exitChild h c code)
  | closeInput c =>
    exact .withChild h c (.modifyChild h c (fun _ => id) fun child hchild => ⟨hchild.exits, hchild.output, hchild.errors⟩)
  | breakOutput c message => exact .withChild h c (.breakStream h c .output _)
  | _ => cases hs

/-- **What reaches a session from outside is heard**, unless it is a caller who wants a listener or a number, or time
that passes. -/
theorem apply_hears (hf : Fits role m) (hr : m.running = none) (ha : s.Admissible held m) (hl : s ≠ .listen)
    (hi : s ≠ .issueSeq) (ht : ∀ time, s ≠ .advance time) : ∃ ms e, Hears role (m.MayCancel s) (MaySpawn s) ms e m (m.apply s).1 := by
  have h := hf.tidy
  cases hside : s.isAside with
  | true =>
    refine ⟨_, _, (apply_aside hf hr (fun u hu => ?_) hside).hears⟩
    subst hu
    obtain ⟨r, hroot, -⟩ := ha
    exact ⟨r, hroot⟩
  | false =>
    cases s with
    | advance time => exact absurd rfl (ht time)
    | listen => exact absurd rfl hl
    | issueSeq => exact absurd rfl hi
    | receive t v =>
      unfold apply withTransport
      dsimp only
      split
      · rw [reacted_fst]
        exact ⟨_, _, receive_hears h hf.receiver t v⟩
      · exact ⟨_, _, .refl h⟩
    | report t e =>
      unfold apply withTransport
      dsimp only
      split
      · exact ⟨_, _, report_hears h hf.receiver (fun _ => .inr rfl) t e⟩
      · exact ⟨_, _, .refl h⟩
    | _ => cases hside

/-- What reaches a session from outside is its work, unless it is time that passes. -/
theorem apply_works (hf : Fits role m) (hr : m.running = none) (ha : s.Admissible held m) (ht : ∀ time, s ≠ .advance time) :
    Works role (m.MayCancel s) (MaySpawn s) m (m.apply s).1 := by
  by_cases hl : s = .listen
  · subst hl
    exact .listen hf.tidy
  · by_cases hi : s = .issueSeq
    · subst hi
      exact .issueSeq hf.tidy
    · obtain ⟨ms, e, hears⟩ := apply_hears hf hr ha hl hi ht
      exact hears.works

/-- The licence of what reaches a session from outside: what the session may do, and what may be done between turns. -/
def outside (role : FutureId → Role) (m m' : Loop) (s : Stimulus) : Licence Routine :=
  { permit role m'.state.IsDead (m.MayCancel s) (MaySpawn s) with target := fun f => (role f).isScheduled = true }

/-- What reaches a session from outside extends its loop, and leaves it tidy. -/
structure Arrives (role : FutureId → Role) (s : Stimulus) (m m' : Loop) : Prop where
  extends_ : m.Extends (outside role m m' s) m'
  dead : ∀ {c}, m.state.IsDead c → m'.state.IsDead c
  tidy : m'.Tidy role
  receiver : m'.state.receiver = m.state.receiver

theorem Works.arrives {m' : Loop} (h : Works role (m.MayCancel s) (MaySpawn s) m m') : Arrives role s m m' :=
  ⟨h.effect.extends.mono ⟨fun hf => congrArg Role.isScheduled hf, id, id, id, id⟩, h.dead, h.tidy, h.receiver⟩

/-- **What may reach a session from outside** is a caller who wants a listener or a number, time that passes, or something
that is heard. -/
theorem apply_cases {P : Loop → Prop} (hf : Fits role m) (hr : m.running = none) (ha : s.Admissible held m)
    (hlisten : P m.listen.1) (hissue : P m.issueSeq.1) (htime : ∀ {m'}, Settled (bare role) m m' → P m')
    (hheard : ∀ {m' ms e}, Hears role (m.MayCancel s) (MaySpawn s) ms e m m' → P m') : P (m.apply s).1 := by
  by_cases hl : s = .listen
  · subst hl
    exact hlisten
  · by_cases hi : s = .issueSeq
    · subst hi
      exact hissue
    · by_cases ht : ∃ time, s = .advance time
      · obtain ⟨time, rfl⟩ := ht
        exact htime (show Settled (bare role) m (m.setTime _) from .setTime hf.tidy.sound _)
      · obtain ⟨ms, e, hears⟩ := apply_hears hf hr ha hl hi fun time h => ht ⟨time, h⟩
        exact hheard hears

/-- **What reaches a session from outside extends its loop.** -/
theorem apply_arrives (hf : Fits role m) (hr : m.running = none) (ha : s.Admissible held m) : Arrives role s m (m.apply s).1 := by
  refine apply_cases (P := Arrives role s m) hf hr ha (Works.listen hf.tidy).arrives (Works.issueSeq hf.tidy).arrives
    (fun hset => ?_) fun hears => hears.works.arrives
  refine ⟨hset.extends_.mono ⟨id, False.elim, False.elim, False.elim, id⟩, fun hc => ?_, hf.tidy.settled hset,
    congrArg State.receiver hset.state⟩
  exact hset.state.symm ▸ hc

/-- Threads fit after whatever reaches the session. -/
theorem Fits.apply (hf : Fits role m) (hr : m.running = none) (ha : s.Admissible held m) : Fits role (m.apply s).1 := by
  have hw := apply_arrives hf hr ha
  refine hf.extends hw.extends_ ?_ hw.tidy (fun _ _ => rfl) hw.receiver hw.dead
  rintro r (rfl | hr)
  · exact Routine.isRoot_of_isAsked ha.1
  · exact Routine.isRoot_of_isSpawned (Routine.isSpawned_of_isOwn hr)

theorem IsNew.isEmpty (h : m.IsNew) : m.IsEmpty := by
  obtain ⟨s, rfl⟩ := h
  exact ⟨rfl, rfl, rfl, rfl, rfl, rfl⟩

/-- Threads fit in a new session: there are none. -/
theorem IsNew.fits (h : m.IsNew) : Fits (fun _ => .other) m := by
  have he := h.isEmpty
  refine ⟨⟨he.sound, fun hne => absurd rfl hne, ?_, fun hexit => by cases hexit⟩, ?_, ?_, ?_, ?_, ?_⟩
  · obtain ⟨s, rfl⟩ := h
    exact ⟨fun t ht => (by cases ht), fun hc => (by cases hc), fun f hf => (by cases hf), fun l hl => (by cases hl)⟩
  · obtain ⟨s, rfl⟩ := h
    rfl
  · intro t r hr
    rw [he.routine?] at hr
    cases hr
  · intro t th hth
    rw [he.thread?] at hth
    cases hth
  · intro t u f s s' hne
    exact absurd rfl hne
  · intro t root v hr
    rw [he.routine?] at hr
    cases hr

end Loop

/-- **Threads fit at every moment of a run.** -/
theorem IsRun.fits {a : Moment} {past : List Moment} (h : IsRun (a :: past)) : ∃ role, Loop.Fits role a.loop := by
  generalize hms : a :: past = moments at h
  induction h generalizing a past with
  | new hm =>
    cases hms
    exact ⟨_, hm.fits⟩
  | step _ hs ih =>
    cases hms
    obtain ⟨role, hf⟩ := ih rfl
    cases hs with
    | tick hq =>
      obtain ⟨role', -, hf'⟩ := hf.tick hq
      exact ⟨role', hf'⟩
    | stimulus hr ha => exact ⟨role, hf.apply hr ha⟩

end DiagnosticsClient
