import DiagnosticsClient.Proofs.Session.Careers
import DiagnosticsClient.Proofs.Session.Tasks
/-
Who looks after a child.

A child that lives is driven by the current transport, or it is the ward of a task:
one that has just started its transport, one that stops the transport and has not
taken the child from it yet, or one that waits for the child to end (`Thread.ward`).
Then the session is `Attended`. Every step keeps it so, unless a stop ends before it
is through (`Goes.attended`).
-/
namespace DiagnosticsClient

open Async Async.Machine

/-- The child that a frame waits for, after it was asked to end. -/
def Frame.doomed : Frame → Option ChildId
  | .terminating c => some c
  | _ => none

/-- The child that a stack waits for, after it was asked to end. -/
def doomedOf : List Frame → Option ChildId
  | [] => none
  | F :: stack => (doomedOf stack).or F.doomed

/-- The transport that a task has just started, or stops and still has to take the child from. -/
def Thread.charge (th : Thread Routine Frame Value Failure) : Option TransportId :=
  match th.top, th.stack with
  | .fresh (.stop t), _ => some t
  | .begins (.stop t), _ => some t
  | .begins (.endTasks t _), _ => some t
  | .resumes (.value _), .starting _ t :: _ => some t
  | _, .ending t _ :: _ => some t
  | _, _ => none

/-- The child that a task looks after, if `drives` has the children of the transports. -/
def Thread.ward (drives : TransportId → Option ChildId) (th : Thread Routine Frame Value Failure) : Option ChildId :=
  (doomedOf th.stack).or ((Thread.charge th).bind drives)

/-- What limits the time of another routine. -/
def Routine.limits : Routine → Bool
  | .within .. => true
  | .cancelAndWait _ => true
  | _ => false

section stack

variable {role : FutureId → Role} {roots : TaskId → Option Routine} {drives drives' : TransportId → Option ChildId}
  {root called r : Routine} {F : Frame} {stack : List Frame} {o : Ending} {c : ChildId} {t : TransportId}
  {top : Top Routine Value Failure} {th : Thread Routine Frame Value Failure}

/-- A task looks after its ward as long as the transports drive their children. -/
theorem Thread.ward_mono (h : Thread.ward drives th = some c) (hd : ∀ t, drives t = some c → drives' t = some c) :
    Thread.ward drives' th = some c := by
  unfold ward at h ⊢
  cases hdoomed : doomedOf th.stack with
  | some c' => rwa [hdoomed] at h
  | none =>
    rw [hdoomed, Option.none_or] at h
    obtain ⟨t, ht, hc⟩ := Option.bind_eq_some_iff.mp h
    rw [ht]
    exact hd t hc

theorem Thread.ward_of_doomed (h : doomedOf stack = some c) : Thread.ward drives ⟨top, stack⟩ = some c := by
  rw [ward, h]
  rfl

theorem Thread.ward_of_charge (h : doomedOf stack = none) (ht : Thread.charge ⟨top, stack⟩ = some t) :
    Thread.ward drives ⟨top, stack⟩ = drives t := by
  rw [ward, h, ht]
  rfl

theorem doomedOf_cons (h : doomedOf stack = some c) : doomedOf (F :: stack) = some c := by
  rw [doomedOf, h]
  rfl

theorem doomedOf_cons_none (h : doomedOf stack = none) : doomedOf (F :: stack) = F.doomed := by
  rw [doomedOf, h, Option.none_or]

/-- What limits the time of another routine calls nothing but a cancellation. -/
theorem Frame.Calls.limits (hc : F.Calls called) (hs : F.Serves roots r) (hr : r.limits = true) : called.limits = true := by
  cases hs with
  | finishing hx => cases hx <;> cases hr
  | introducing hx => cases hx <;> cases hr
  | expecting hx => cases hx <;> cases hr
  | _ => first | (cases hr; done) | (cases hc <;> rfl)

/-- Nobody waits for a child to end without a limit to the time. -/
theorem Stacked.doomedOf_eq_none (h : Stacked roots root called stack) (hl : called.limits = false) :
    doomedOf stack = none := by
  induction h with
  | nil => rfl
  | @cons F called r stack hc hs _ _ ih =>
    have hr : r.limits = false := Bool.eq_false_iff.mpr fun hr => by rw [hc.limits hs hr] at hl; cases hl
    rw [doomedOf_cons_none (ih hr)]
    cases hc <;> first | rfl | cases hl

/-- A stop is called by a task of its own, or by one who has the lock. -/
theorem Stacked.of_stop (h : Stacked roots root (.stop t) stack) :
    stack = [] ∧ root = .stop t ∨ ∃ rest, stack = .releasing :: rest := by
  cases h with
  | nil => exact .inl ⟨rfl, rfl⟩
  | cons hc =>
    cases hc
    exact .inr ⟨_, rfl⟩

/-- The transport that a frame says its task has charge of. -/
def Frame.charge (top : Top Routine Value Failure) : Frame → Option TransportId
  | .starting _ t =>
    match top with
    | .resumes (.value _) => some t
    | _ => none
  | .ending t _ => some t
  | _ => none

theorem Thread.charge_resumes : Thread.charge ⟨.resumes o, F :: stack⟩ = F.charge (.resumes o) := by
  cases F <;> first | rfl | (cases o <;> rfl)

theorem Thread.charge_waits {f : FutureId} : Thread.charge ⟨.waits f, F :: stack⟩ = F.charge (.waits f) := by
  cases F <;> rfl

/-- Who begins a routine has a ward if he waits for a child, unless the routine stops a transport. -/
theorem Stacked.ward_begins (h : Stacked roots root called stack) (hs : ∀ t, r ≠ .stop t) (he : ∀ t us, r ≠ .endTasks t us) :
    Thread.ward drives ⟨.begins r, stack⟩ = doomedOf stack := by
  have hcharge : Thread.charge ⟨.begins r, stack⟩ = none := by
    have hrest : ∀ t us rest, stack ≠ .ending t us :: rest := by
      rintro t us rest rfl
      cases h with
      | cons hc => cases hc
    cases r with
    | stop t => exact absurd rfl (hs t)
    | endTasks t us => exact absurd rfl (he t us)
    | _ =>
      cases stack with
      | nil => rfl
      | cons F rest => cases F <;> first | rfl | exact absurd rfl (hrest _ _ _)
  rw [Thread.ward, hcharge]
  exact Option.or_none

end stack

namespace Loop

variable {role role' : FutureId → Role} {roots : TaskId → Option Routine} {m m' : Loop} {u : TaskId} {t : TransportId}
  {c : ChildId} {root called r : Routine} {F : Frame} {stack : List Frame} {o : Ending} {a : Move} {size : Nat}
  {th : Thread Routine Frame Value Failure} {s : Loop × Move} {held : List ListenerId}
  {drives : TransportId → Option ChildId}

/-! ## What is done next -/

/-- Who waits for a child goes on to wait for it. -/
theorem ward_nextThread (h : doomedOf stack = some c) : Thread.ward drives (m.nextThread stack a) = some c := by
  cases a with
  | done o => exact Thread.ward_of_doomed h
  | call r F => exact Thread.ward_of_doomed (doomedOf_cons h)
  | become r => exact Thread.ward_of_doomed h
  | await f F =>
    unfold nextThread
    dsimp only
    split <;> exact Thread.ward_of_doomed (doomedOf_cons h)

/-- Who waits for a task of a transport looks after the transport's child. -/
theorem ward_ending {f : FutureId} {us : List TaskId} (h : doomedOf stack = none) :
    Thread.ward drives (m.nextThread stack (.await f (.ending t us))) = drives t := by
  have hnone : doomedOf (.ending t us :: stack) = none := doomedOf_cons_none h
  unfold nextThread
  dsimp only
  split
  · exact Thread.ward_of_charge hnone Thread.charge_resumes
  · exact Thread.ward_of_charge hnone Thread.charge_waits

/-- Who waits looks after the same child when the wait is over. -/
theorem ward_resumes {f : FutureId} (h : F.Awaits role m f) (o : Ending) :
    Thread.ward drives ⟨.resumes o, F :: stack⟩ = Thread.ward drives ⟨.waits f, F :: stack⟩ := by
  rw [Thread.ward, Thread.charge_resumes, Thread.ward, Thread.charge_waits]
  cases h <;> rfl

/-- Who is to stop a transport, or calls the stop, looks after its child. -/
theorem Fits.ward_of_tie (hf : Fits role m) (hth : m.thread? u = some th) {k : Tie} (h : Thread.tie th = some (t, k))
    (hk : k = .lapsed ∨ k = .stopping) : Thread.ward drives th = drives t := by
  obtain ⟨root, -, hfits⟩ := hf.threads hth
  rcases hk with rfl | rfl
  · have htop := Thread.tie_eq_lapsed.mp h
    cases hfits <;> cases htop
    rfl
  · have htop := Thread.tie_eq_stopping.mp h
    cases hfits with
    | begins _ hr hstack =>
      cases htop
      cases hr
      exact Thread.ward_of_charge (hstack.doomedOf_eq_none rfl) rfl
    | _ => cases htop

/-! ## Who minds a child -/

/-- A child is driven by the current transport, or is the ward of a task. -/
def Minded (m : Loop) (c : ChildId) : Prop :=
  (∃ t, m.state.current = some t ∧ m.state.drives t = some c) ∨
    ∃ u th, m.thread? u = some th ∧ Thread.ward m.state.drives th = some c

/-- Every child that lives is minded. -/
def Attended (m : Loop) : Prop := ∀ c, c < m.state.children.length → ¬ m.state.IsDead c → m.Minded c

/-- A transport that drives a child was begun. -/
def DrivesBegun (m : Loop) : Prop := ∀ t c, m.state.drives t = some c → (m.state.childTransport t).phase ≠ .idle

/-- The child of the current transport is minded after a step, too. -/
theorem Minded.of_current (h : Traffics m m') (hf : Fits role m') (hc : m.state.current = some t)
    (hd : m'.state.drives t = some c) : m'.Minded c := by
  have hstays : m'.state.current = m.state.current → m'.Minded c := fun heq => .inl ⟨t, heq.trans hc, hd⟩
  have hstops : ∀ {u k}, m'.view Thread.tie u = some (t, k) → (k = .lapsed ∨ k = .stopping) → m'.Minded c := by
    intro u k hu hk
    obtain ⟨th, hth, htie⟩ := Option.bind_eq_some_iff.mp hu
    exact .inr ⟨u, th, hth, (hf.ward_of_tie hth htie hk).trans hd⟩
  have hsame : ∀ {t'}, m.state.current = some t' → t' = t := fun h => Option.some.inj (h.symm.trans hc)
  have hnone : m.state.current ≠ none := by rw [hc]; exact fun h => by cases h
  cases h with
  | drifts _ _ hdrift =>
    cases hdrift with
    | stays _ heq => exact hstays heq
    | lapses hc' _ _ hu' =>
      cases hsame hc'
      exact hstops hu' (.inl rfl)
  | @acts u _ _ he =>
    generalize hq : m.view Thread.tie u = q, hq' : m'.view Thread.tie u = q' at he
    cases he with
    | builds _ heq => exact absurd heq hnone
    | proceeds _ _ heq => exact hstays heq
    | installs _ heq => exact absurd heq hnone
    | dismisses _ hc' =>
      cases hsame hc'
      exact hstops hq' (.inr rfl)
    | quits _ _ heq => exact hstays heq

/-- A child whose transport keeps it stays minded, if those who minded it before do so or hand it on. -/
theorem Minded.step (h : m.Minded c) (ht : Traffics m m') (hf : Fits role m')
    (hd : ∀ t, m.state.drives t = some c → m'.state.drives t = some c)
    (hu : ∀ {u th}, m.thread? u = some th → Thread.ward m.state.drives th = some c → m'.Minded c) : m'.Minded c := by
  rcases h with ⟨t, hc, hdrives⟩ | ⟨u, th, hth, hward⟩
  · exact .of_current ht hf hc (hd t hdrives)
  · exact hu hth hward

/-- No task moves but perhaps the one named, and no child is launched or taken. -/
theorem Attended.switch {th' : Option (Thread Routine Frame Value Failure)} (h : m.Attended) (hs : m.Switch u th' m')
    (hth : m.thread? u = some th)
    (hself : ∀ {c}, Thread.ward m.state.drives th = some c → ∃ th₁, th' = some th₁ ∧ Thread.ward m.state.drives th₁ = some c) :
    m'.Attended := by
  intro c hlt hlive
  rw [hs.state] at hlt hlive
  rcases h c hlt hlive with hcur | ⟨v, thv, hthv, hward⟩
  · exact .inl (by rwa [hs.state])
  · refine .inr ?_
    rw [hs.state]
    by_cases hv : v = u
    · subst hv
      rw [hth] at hthv
      cases hthv
      obtain ⟨th₁, rfl, hward'⟩ := hself hward
      exact ⟨v, th₁, hs.self, hward'⟩
    · exact ⟨v, thv, (hs.other hv).trans hthv, hward⟩

/-- The loop is extended, and no child is launched or taken. -/
theorem Attended.extends {may : Licence Routine} (h : m.Attended) (he : m.Extends may m') (hf : Fits role m)
    (hf' : Fits role' m') (ht : Traffics m m') (hlength : m'.state.children.length = m.state.children.length)
    (hdrives : ∀ t, m'.state.drives t = m.state.drives t) (hdead : ∀ {c}, m.state.IsDead c → m'.state.IsDead c) :
    m'.Attended := by
  intro c hlt hlive
  have hkept : ∀ t, m.state.drives t = some c → m'.state.drives t = some c := fun t => (hdrives t).trans
  refine (h c (hlength ▸ hlt) fun hd => hlive (hdead hd)).step ht hf' hkept fun {u th} hth hward => ?_
  refine .inr ⟨u, th, ?_, Thread.ward_mono hward hkept⟩
  rw [he.thread? hf'.tidy.sound.owned (lt_size_of_thread? hf.tidy.sound hth), hth]

namespace Deed

/-- What the running task does next is what it looks after. -/
theorem minded_self (hd : Deed role role' m u root called stack s)
    (h : Thread.ward s.1.state.drives (s.1.nextThread stack s.2) = some c) : Minded (s.1.perform u stack s.2) c := by
  refine .inr ⟨u, _, hd.switch.self, ?_⟩
  rwa [hd.state]

/-- A child that stays with its transport is minded after a deed, if the running task has not looked after it or hands
it on. -/
theorem minded (hd : Deed role role' m u root called stack s) (hf : Fits role m) (hf' : Fits role' (s.1.perform u stack s.2))
    (ht : Traffics m (s.1.perform u stack s.2)) (hth : m.thread? u = some th) (h : m.Minded c)
    (hdrives : ∀ t, m.state.drives t = some c → s.1.state.drives t = some c)
    (hself : Thread.ward m.state.drives th = some c → Minded (s.1.perform u stack s.2) c) :
    Minded (s.1.perform u stack s.2) c := by
  have hdrives' : ∀ t, m.state.drives t = some c → (s.1.perform u stack s.2).state.drives t = some c := by rwa [hd.state]
  refine h.step ht hf' hdrives' fun {v thv} hthv hward => ?_
  by_cases hv : v = u
  · subst hv
    rw [hth] at hthv
    cases hthv
    exact hself hward
  · refine .inr ⟨v, thv, ?_, Thread.ward_mono hward hdrives'⟩
    rw [hd.switch.other hv, hd.does.effect.extends.thread? hd.does.tidy.sound.owned (lt_size_of_thread? hf.tidy.sound hthv), hthv]

/-- A deed that launches no child and takes none from its transport leaves the session attended, if the running task
goes on to look after its ward or hands it on. -/
theorem attended (hd : Deed role role' m u root called stack s) (hf : Fits role m) (hf' : Fits role' (s.1.perform u stack s.2))
    (ht : Traffics m (s.1.perform u stack s.2)) (hth : m.thread? u = some th) (h : m.Attended)
    (hlength : s.1.state.children.length = m.state.children.length) (hdrives : ∀ t, s.1.state.drives t = m.state.drives t)
    (hself : ∀ {c}, c < m.state.children.length → ¬ s.1.state.IsDead c → Thread.ward m.state.drives th = some c →
      Minded (s.1.perform u stack s.2) c) : Attended (s.1.perform u stack s.2) := by
  intro c hlt hlive
  rw [hd.state] at hlt hlive
  rw [hlength] at hlt
  exact hd.minded hf hf' ht hth (h c hlt fun hdead => hlive (hd.does.dead hdead)) (fun t => (hdrives t).trans)
    (hself hlt hlive)

end Deed

/-! ## Starting and stopping -/

/-- Who starts a transport looks after the child it launches. -/
theorem attended_start (hd : Deed role role' m u root (.start t) stack (begin (.start t) m)) (hf : Fits role m)
    (hf' : Fits role' ((begin (.start t) m).1.perform u stack (begin (.start t) m).2))
    (ht : Traffics m ((begin (.start t) m).1.perform u stack (begin (.start t) m).2))
    (hth : m.thread? u = some ⟨.begins (.start t), stack⟩) (h : m.Attended) (hb : m.DrivesBegun)
    (hbuilt : t < m.state.transports.length) :
    Attended ((begin (.start t) m).1.perform u stack (begin (.start t) m).2) := by
  have hnone : doomedOf stack = none := hd.stacked.doomedOf_eq_none rfl
  have hward : ∀ {c}, Thread.ward m.state.drives ⟨.begins (.start t), stack⟩ ≠ some c := by
    intro c hc
    rw [hd.stacked.ward_begins (fun _ h => by cases h) (fun _ _ h => by cases h), hnone] at hc
    cases hc
  rcases start_cases m t with hlasts | ⟨hidle, hlaunches, hmove⟩
  · exact hd.attended hf hf' ht hth h hlasts.children hlasts.drives fun _ _ hc => absurd hc hward
  · intro c hlt hlive
    rw [hd.state] at hlt hlive
    rw [show (begin (.start t) m).1.state.children.length = _ from hlaunches.children] at hlt
    rcases Nat.lt_succ_iff_lt_or_eq.mp hlt with hold | rfl
    · refine hd.minded hf hf' ht hth (h _ hold fun hdead => hlive (hlaunches.dead hdead)) (fun t' hc => ?_)
        fun hc => absurd hc hward
      rcases Decidable.em (t' = t) with rfl | hne
      · exact absurd hidle (hb _ _ hc)
      · exact (hlaunches.other t' hne).trans hc
    · obtain ⟨l, rest, rfl, hrest⟩ := hd.stacked.of_start (hf.roots hd.made)
      refine hd.minded_self ?_
      rw [show (begin (.start t) m).2 = _ from hmove]
      refine (Thread.ward_of_charge hnone rfl).trans ?_
      exact (hlaunches.self.resolve_right (Nat.not_le_of_lt hbuilt)).1

/-- Who has ended the tasks of a transport waits for the child to end. -/
theorem attended_endTasks {us : List TaskId} (hd : Deed role role' m u root (.stop t) stack (begin (.endTasks t us) m))
    (hf : Fits role m) (hf' : Fits role' ((begin (.endTasks t us) m).1.perform u stack (begin (.endTasks t us) m).2))
    (ht : Traffics m ((begin (.endTasks t us) m).1.perform u stack (begin (.endTasks t us) m).2))
    (hth : m.thread? u = some ⟨.begins (.endTasks t us), stack⟩) (h : m.Attended) :
    Attended ((begin (.endTasks t us) m).1.perform u stack (begin (.endTasks t us) m).2) := by
  have hnone : doomedOf stack = none := hd.stacked.doomedOf_eq_none rfl
  have hward : Thread.ward m.state.drives ⟨.begins (.endTasks t us), stack⟩ = m.state.drives t := Thread.ward_of_charge hnone rfl
  -- the child of the transport is looked after until it has ended, and no other child is touched
  have hclears : Clears t m (begin (.endTasks t us) m).1 →
      (∀ {c}, ¬ (begin (.endTasks t us) m).1.state.IsDead c → m.state.drives t = some c →
        Minded ((begin (.endTasks t us) m).1.perform u stack (begin (.endTasks t us) m).2) c) →
      Attended ((begin (.endTasks t us) m).1.perform u stack (begin (.endTasks t us) m).2) := by
    intro hclears hself c hlt hlive
    rw [hd.state] at hlt hlive
    rw [hclears.children] at hlt
    by_cases hc : m.state.drives t = some c
    · exact hself hlive hc
    · refine hd.minded hf hf' ht hth (h c hlt fun hdead => hlive (hclears.dead hdead)) (fun t' hc' => ?_)
        fun hc' => absurd (hward.symm.trans hc') hc
      rcases Decidable.em (t' = t) with rfl | hne
      · exact absurd hc' hc
      · exact (hclears.other t' hne).trans hc'
  have hwinds := endTasks_winds m t us
  rw [show begin (.endTasks t us) m = endTasks t us m from rfl] at hd hf' ht hclears ⊢
  generalize endTasks t us m = s at hd hf' ht hclears hwinds ⊢
  cases hwinds with
  | waits hlasts =>
    refine hd.attended hf hf' ht hth h hlasts.children hlasts.drives fun {c} _ _ hc => hd.minded_self ?_
    rw [ward_ending hnone, hlasts.drives]
    exact hward.symm.trans hc
  | nobody hcl hdead => exact hclears hcl fun hlive hc => absurd (hdead _ hc) hlive
  | @terminates m₁ c' limit hcl hdrives _ =>
    refine hclears hcl fun {c} _ hc => hd.minded_self ?_
    rw [hdrives] at hc
    cases hc
    exact Thread.ward_of_doomed (doomedOf_cons_none hnone)

/-- Whoever begins something leaves the session attended. -/
theorem Begins.attended (hr : m.running = some (.begin u r stack)) (hv : r.Valid m.routine?) (hstands : r.StandsFor called)
    (hd : Deed role role' m u root called stack (begin r m)) (hf : Fits role m)
    (hf' : Fits role' ((begin r m).1.perform u stack (begin r m).2))
    (ht : Traffics m ((begin r m).1.perform u stack (begin r m).2)) (h : m.Attended) (hb : m.DrivesBegun)
    (hbuilt : ∀ t, r = .start t → t < m.state.transports.length) : Attended ((begin r m).1.perform u stack (begin r m).2) := by
  have hth : m.thread? u = some ⟨.begins r, stack⟩ := thread?_of_running hr
  by_cases hstart : ∃ t, r = .start t
  · obtain ⟨t, rfl⟩ := hstart
    cases hstands
    exact attended_start hd hf hf' ht hth h hb (hbuilt t rfl)
  by_cases hend : ∃ t us, r = .endTasks t us
  · obtain ⟨t, us, rfl⟩ := hend
    cases hstands with
    | refl => exact absurd rfl (hf.ne_endTasks hd.made hd.stacked t us)
    | endTasks => exact attended_endTasks hd hf hf' ht hth h
  have hlasts : Lasts m (begin r m).1 := begin_lasts hv (fun t h => hstart ⟨t, h⟩) fun t us h => hend ⟨t, us, h⟩
  refine hd.attended hf hf' ht hth h hlasts.children hlasts.drives fun {c} _ _ hc => hd.minded_self ?_
  by_cases hstop : ∃ t, r = .stop t
  · obtain ⟨t, rfl⟩ := hstop
    cases hstands
    have hnone : doomedOf stack = none := hd.stacked.doomedOf_eq_none rfl
    rw [Thread.ward_of_charge hnone rfl] at hc
    -- a transport with a child is not rehearsed, and was begun
    have hmove : ∃ us, (begin (.stop t) m).2 = .become (.endTasks t us) := by
      have hbegun := hb _ _ hc
      simp only [begin, stop]
      split
      · next hrehearsed =>
        simp only [State.drives, State.childTransport, hrehearsed] at hc
        cases hc
      · simp only [stopChild, if_neg hbegun]
        exact ⟨_, rfl⟩
    obtain ⟨us, hmove⟩ := hmove
    rw [hmove]
    refine (Thread.ward_of_charge hnone rfl).trans ?_
    rw [hlasts.drives, hc]
  · rw [hd.stacked.ward_begins (fun t h => hstop ⟨t, h⟩) fun t us h => hend ⟨t, us, h⟩] at hc
    exact ward_nextThread hc

/-! ## Stops that end before they are through -/

/-- A stop has ended, now, with something other than a value: it failed or was cancelled. -/
def cutsStop (m : Loop) : Bool :=
  match m.running with
  | some (.resume _ (.value _) _) => false
  | some (.resume _ _ (.releasing :: _)) => true
  | some (.resume u _ []) =>
    match m.routine? u with
    | some (.stop _) => true
    | _ => false
  | _ => false

theorem cutsStop_of_done (hs : Stacked m'.routine? root (.stop t) stack) (hr : m.routine? u = some root) (ho : ∀ v, o ≠ .value v) :
    cutsStop (m.perform u stack (.done o)) = true := by
  rcases hs.of_stop with ⟨rfl, rfl⟩ | ⟨rest, rfl⟩
  · have hroutine : (m.perform u [] (.done o)).routine? u = some (.stop t) := hr
    unfold cutsStop
    rw [show (m.perform u [] (.done o)).running = some (.resume u o []) from rfl]
    cases o with
    | value v => exact absurd rfl (ho v)
    | _ => simp only [hroutine]
  · cases o with
    | value v => exact absurd rfl (ho v)
    | _ => rfl

/-- Whoever ends has ended. -/
theorem exitChild_dead (m : Loop) (hc : c < m.state.children.length) (code : Int) : (m.exitChild c code).state.IsDead c := by
  unfold exitChild
  dsimp only
  split
  · have hexit : State.IsDead (m.state.modifyChild c fun child => { child with returnCode := some code, exitWaiters := [] }) c := by
      unfold State.IsDead
      rw [State.child_modifyChild, if_pos ⟨rfl, hc⟩]
      rfl
    exact (((Lasts.endStream _ c .output).trans (.endStream _ c .errors)).trans (.settleAll _ _ _)).dead hexit
  · next hdead => exact Bool.eq_false_iff.mpr hdead

theorem signal_kill_dead (m : Loop) (hc : c < m.state.children.length) : (m.signal c .kill).state.IsDead c := by
  unfold signal
  dsimp only
  exact exitChild_dead (m.record (.signalled c .kill)) hc _

/-- Who has waited for a child to end in time is told that it has, or kills it, unless he is cut short. -/
theorem terminateResumed_cases (m : Loop) (hc : c < m.state.children.length) (o : Ending) :
    (∃ v, o = .value v) ∨ (terminateResumed c o m).1.state.IsDead c ∨
      (∀ v, o ≠ .value v) ∧ (terminateResumed c o m).2 = .done o := by
  unfold terminateResumed
  split
  · exact .inl ⟨_, rfl⟩
  · exact .inr (.inl (signal_kill_dead m hc))
  · next hne _ => exact .inr (.inr ⟨fun v h => hne v h, rfl⟩)

/-- Who has waited for a task of a transport goes on to end its tasks, unless he is cut short. -/
theorem endResumed_cases (m : Loop) (t : TransportId) (us : List TaskId) (o : Ending) :
    (∀ v, o ≠ .value v) ∧ (endResumed t us o m).2 = .done o ∨ (endResumed t us o m).2 = .become (.endTasks t us) := by
  unfold endResumed
  split
  · exact .inl ⟨fun v h => (by cases h), rfl⟩
  · exact .inr rfl

/-- No frame goes on by launching a child, or taking one from its transport. -/
theorem resume_drives (m : Loop) (F : Frame) (o : Ending) :
    Endures m (resume F o m).1 ∧ (resume F o m).1.state.children.length = m.state.children.length ∧
      ∀ t, (resume F o m).1.state.drives t = m.state.drives t := by
  have hlasts : Lasts m (resume F o m).1 → _ := fun h => And.intro h.toEndures (And.intro h.children h.drives)
  have hrests : Rests m (resume F o m).1 → _ := fun h => And.intro h.toEndures (And.intro h.children h.drives)
  cases hF : F.isDesk with
  | false => exact hlasts (resume_lasts o hF)
  | true =>
    cases F with
    | registering l =>
      rcases registerLocked_cases m l o with ⟨h, -⟩ | ⟨h, -⟩
      · exact hlasts h
      · exact ⟨h.toEndures, h.children, h.drives⟩
    | starting l t =>
      obtain ⟨o', -, ⟨-, h, -⟩ | ⟨-, h⟩⟩ := startResumed_cases m l t o
      · exact hrests h
      · exact hlasts h
    | leaving l =>
      rcases leaveLocked_cases m l o with ⟨h, -⟩ | ⟨t, h⟩
      · exact hlasts h
      · exact hrests h.rests
    | closing =>
      rcases closeLocked_cases m o with ⟨h, -⟩ | ⟨t, h⟩
      · exact hlasts h
      · exact hrests h.rests
    | _ => cases hF

/-- Whoever goes on with something leaves the session attended, or a stop ends before it is through. -/
theorem Resumes.attended (hr : m.running = some (.resume u o (F :: stack))) (hs : F.Serves m.routine? called)
    (hg : F.Gets m.state o) (hd : Deed role role' m u root called stack (resume F o m)) (hf : Fits role m)
    (hf' : Fits role' ((resume F o m).1.perform u stack (resume F o m).2))
    (ht : Traffics m ((resume F o m).1.perform u stack (resume F o m).2)) (h : m.Attended) :
    cutsStop ((resume F o m).1.perform u stack (resume F o m).2) = true ∨
      Attended ((resume F o m).1.perform u stack (resume F o m).2) := by
  have hth : m.thread? u = some ⟨.resumes o, F :: stack⟩ := thread?_of_running hr
  obtain ⟨-, hlength, hdrives⟩ := resume_drives m F o
  have hattended := hd.attended hf hf' ht hth h hlength hdrives
  by_cases hstart : ∃ l t, F = .starting l t
  · obtain ⟨l, t, rfl⟩ := hstart
    -- a transport that was started becomes the current one
    have hnone : doomedOf (.starting l t :: stack) = none := by
      cases hs with
      | starting => exact doomedOf_cons_none (hd.stacked.doomedOf_eq_none rfl)
    refine .inr (hattended fun _ _ hc => ?_)
    cases o with
    | value v =>
      rw [Thread.ward_of_charge hnone rfl] at hc
      obtain ⟨o', -, ⟨-, -, hcurrent, -⟩ | ⟨hne, -⟩⟩ := startResumed_cases m l t (.value v)
      · refine .inl ⟨t, ?_, ?_⟩ <;> rw [hd.state]
        · exact hcurrent
        · exact (hdrives t).trans hc
      · exact absurd rfl (hne v)
    | _ =>
      rw [Thread.ward, hnone, Option.none_or] at hc
      cases hc
  by_cases hend : ∃ t us, F = .ending t us
  · obtain ⟨t, us, rfl⟩ := hend
    cases hs with
    | ending =>
      have hnone : doomedOf stack = none := hd.stacked.doomedOf_eq_none rfl
      have hward : Thread.ward m.state.drives ⟨.resumes o, .ending t us :: stack⟩ = m.state.drives t :=
        Thread.ward_of_charge (doomedOf_cons_none hnone) Thread.charge_resumes
      rcases endResumed_cases m t us o with ⟨hne, hmove⟩ | hmove
      · refine .inl ?_
        rw [show (resume (.ending t us) o m).2 = .done o from hmove]
        exact cutsStop_of_done hd.stacked (hd.does.effect.extends.routine? hd.made) hne
      · refine .inr (hattended fun _ _ hc => hd.minded_self ?_)
        rw [show (resume (.ending t us) o m).2 = _ from hmove]
        exact (Thread.ward_of_charge hnone rfl).trans ((hdrives t).trans (hward.symm.trans hc))
  by_cases hterm : ∃ c, F = .terminating c
  · obtain ⟨c, rfl⟩ := hterm
    cases hs with
    | terminating =>
      have hnone : doomedOf stack = none := hd.stacked.doomedOf_eq_none rfl
      by_cases hcut : (∀ v, o ≠ .value v) ∧ (terminateResumed c o m).2 = .done o
      · refine .inl ?_
        rw [show (resume (.terminating c) o m).2 = .done o from hcut.2]
        exact cutsStop_of_done hd.stacked (hd.does.effect.extends.routine? hd.made) hcut.1
      · refine .inr (hattended fun {c'} hlt hlive hc => ?_)
        have hsame : c' = c := by
          rw [Thread.ward_of_doomed (doomedOf_cons_none hnone)] at hc
          exact (Option.some.inj hc).symm
        subst hsame
        refine absurd ?_ hlive
        rcases terminateResumed_cases m hlt o with ⟨v, rfl⟩ | hdead | h
        · obtain hwait | ⟨r, hcalls, hgives⟩ := hg
          · cases hwait
          · cases hcalls
            exact hd.does.dead (hgives v rfl)
        · exact hdead
        · exact absurd h hcut
  refine .inr (hattended fun {c} _ _ hc => hd.minded_self (ward_nextThread ?_))
  -- what such a frame looks after is what the frames below do
  have hcharge : F.charge (.resumes o) = none := by
    cases F <;> first | rfl | exact absurd ⟨_, _, rfl⟩ hstart | exact absurd ⟨_, _, rfl⟩ hend
  have hdoomed : F.doomed = none := by cases F <;> first | rfl | exact absurd ⟨_, rfl⟩ hterm
  rw [Thread.ward, Thread.charge_resumes, hcharge] at hc
  rw [doomedOf, hdoomed, Option.or_none] at hc
  exact (Option.or_none ▸ hc :)

/-! ## Every step -/

/-- **A step leaves the session attended**, or a stop ends before it is through. -/
theorem Tick.attended (ht : Tick role m role' m') (hf : Fits role m) (hf' : Fits role' m') (htraffic : Traffics m m')
    (hs : m.SparesStops) (h : m.Attended) (hb : m.DrivesBegun)
    (hbuilt : ∀ {u t k}, m.view Thread.tie u = some (t, k) → t < m.state.transports.length) :
    cutsStop m' = true ∨ m'.Attended := by
  cases ht with
  | @awakes _ u th th' idle hth how switch =>
    refine .inr (h.switch switch hth fun {c} hward => ⟨th', rfl, ?_⟩)
    obtain ⟨root, hroot, hfits⟩ := hf.threads hth
    cases how with
    | begins =>
      cases hfits with
      | fresh => cases root <;> first | exact hward | cases hward
    | dropped hheld =>
      cases hfits with
      | fresh =>
        -- a task that is to stop a transport is not dropped
        by_cases hstop : ∃ t, root = .stop t
        · obtain ⟨t, rfl⟩ := hstop
          exact absurd hheld (hs hroot)
        · cases root <;> first | exact absurd ⟨_, rfl⟩ hstop | cases hward
    | resumes _ _ =>
      cases hfits with
      | waits _ ha _ => exact (ward_resumes ha _).trans hward
    | interrupted _ _ =>
      cases hfits with
      | waits _ ha _ => exact (ward_resumes ha _).trans hward
  | passes idle he hstate =>
    exact .inr (h.extends he hf hf' htraffic (by rw [hstate]) (fun t => by rw [hstate]) fun hd => by rwa [hstate])
  | @ends _ u o runs switch outcome =>
    refine .inr (h.switch switch (thread?_of_running runs) fun {c} hward => ?_)
    cases o <;> cases hward
  | begins runs valid stands how deed =>
    exact .inr (Begins.attended runs valid stands deed hf hf' htraffic h hb fun t ht => hbuilt (view_tie (ht ▸ thread?_of_running runs)))
  | resumes runs serves gets woke how deed => exact Resumes.attended runs serves gets deed hf hf' htraffic h

/-! ## Transports with a child were begun -/

/-- A transport drives the child it drove before, or it is the one that has launched a new child, and was begun. -/
def Engages (m m' : Loop) : Prop :=
  ∃ t, ∀ t' c, m'.state.drives t' = some c → m.state.drives t' = some c ∨
    t' = t ∧ c = m.state.children.length ∧ c < m'.state.children.length ∧ (m'.state.childTransport t).phase ≠ .idle

theorem Engages.of_drives (h : ∀ t, m'.state.drives t = m.state.drives t) : Engages m m' :=
  ⟨0, fun t _ hc => .inl ((h t).symm.trans hc)⟩

theorem Engages.of_state {m'' : Loop} (h : Engages m m') (hs : m''.state = m'.state) : Engages m m'' := by
  unfold Engages
  rw [hs]
  exact h

/-- A transport that lets its child go has none. -/
theorem Clears.engages (h : Clears t m m') : Engages m m' := by
  refine ⟨t, fun t' c hc => .inl ?_⟩
  rcases Decidable.em (t' = t) with rfl | hne
  · rw [h.self] at hc
    cases hc
  · exact (h.other t' hne).symm.trans hc

/-- **Only a start has a transport drive another child.** -/
theorem begin_engages {roots : TaskId → Option Routine} (hv : r.Valid roots)
    (hbuilt : ∀ t, r = .start t → t < m.state.transports.length) : Engages m (begin r m).1 := by
  by_cases hstart : ∃ t, r = .start t
  · obtain ⟨t, rfl⟩ := hstart
    rcases start_cases m t with hlasts | ⟨-, hlaunches, -⟩
    · exact .of_drives hlasts.drives
    · obtain ⟨hself, hbegun⟩ := hlaunches.self.resolve_right (Nat.not_le_of_lt (hbuilt t rfl))
      refine ⟨t, fun t' c hc => ?_⟩
      rcases Decidable.em (t' = t) with rfl | hne
      · cases hself.symm.trans hc
        exact .inr ⟨rfl, rfl, hlaunches.children ▸ Nat.lt_succ_self _, hbegun⟩
      · exact .inl ((hlaunches.other t' hne).symm.trans hc)
  by_cases hend : ∃ t us, r = .endTasks t us
  · obtain ⟨t, us, rfl⟩ := hend
    have hwinds := endTasks_winds m t us
    rw [show begin (.endTasks t us) m = endTasks t us m from rfl]
    generalize endTasks t us m = s at hwinds ⊢
    cases hwinds with
    | waits hlasts => exact .of_drives hlasts.drives
    | nobody hcl => exact hcl.engages
    | terminates hcl => exact hcl.engages
  exact .of_drives (begin_lasts hv (fun t h => hstart ⟨t, h⟩) fun t us h => hend ⟨t, us, h⟩).drives

theorem Tick.engages (ht : Tick role m role' m')
    (hbuilt : ∀ {u t k}, m.view Thread.tie u = some (t, k) → t < m.state.transports.length) : Engages m m' := by
  have hsame : m'.state = m.state → Engages m m' := fun hs => .of_drives fun t => by rw [hs]
  cases ht with
  | awakes _ _ _ switch => exact hsame switch.state
  | passes _ _ hstate => exact hsame hstate
  | ends _ switch _ => exact hsame switch.state
  | begins runs valid _ _ deed =>
    exact (begin_engages valid fun t ht => hbuilt (view_tie (ht ▸ thread?_of_running runs))).of_state deed.state
  | resumes _ _ _ _ _ deed => exact (Engages.of_drives (resume_drives m _ _).2.2).of_state deed.state

/-- No transport is idle again, and none gets a child and is idle. -/
theorem DrivesBegun.step (h : m.DrivesBegun)
    (hbegun : ∀ {t}, (m'.state.childTransport t).phase = .idle → (m.state.childTransport t).phase = .idle) (he : Engages m m') :
    m'.DrivesBegun := by
  obtain ⟨t, hdrives⟩ := he
  intro t' c hc
  rcases hdrives t' c hc with hold | ⟨rfl, -, -, hnew⟩
  · exact fun hidle => h t' c hold (hbegun hidle)
  · exact hnew

end Loop

section goes

variable {role role' : FutureId → Role} {a b : Moment} {past : List Moment}

/-- **What there was is there still after a step**, and the session is set up as it was. -/
theorem Goes.endures (hg : Goes role a role' b) (ha : a.Holds role) : Loop.Endures a.loop b.loop := by
  have hkeeps := hg.keeps ha
  cases hg with
  | tick hq ht =>
    have hdeed : ∀ {m₁ : Loop}, Loop.Endures a.loop m₁ → (a.loop.tick Loop.program).state = m₁.state →
        Loop.Endures a.loop (a.loop.tick Loop.program) := by
      intro m₁ he hs
      exact ⟨hs ▸ he.launched, hs ▸ he.begun, hs ▸ he.dead, hs ▸ he.transcript, hkeeps.routine, hs ▸ he.setup, hs ▸ he.uniform⟩
    dsimp only at hkeeps hdeed ⊢
    generalize a.loop.tick Loop.program = m' at ht hkeeps hdeed
    cases ht with
    | awakes _ _ _ switch => exact .of_state switch.state hkeeps.routine
    | passes _ _ hstate => exact .of_state hstate hkeeps.routine
    | ends _ switch _ => exact .of_state switch.state hkeeps.routine
    | begins _ valid _ _ deed => exact hdeed (Loop.begin_ages valid).toEndures deed.state
    | resumes _ _ _ _ _ deed => exact hdeed (Loop.resume_drives _ _ _).1 deed.state
  | stimulus hr hs => exact (Loop.apply_lasts hs).toEndures

/-- What is known of the children at every moment of a run, as long as no stop has ended before it was through. -/
structure Moment.Tends (a : Moment) : Prop where
  sparesStops : a.loop.SparesStops
  begun : a.loop.DrivesBegun
  shows : ∀ t, ∃ x, a.Shows t x

theorem Moment.Tends.built (h : a.Tends) {u : TaskId} {t : TransportId} {k : Tie} (hu : a.loop.view Thread.tie u = some (t, k)) :
    t < a.loop.state.transports.length := by
  obtain ⟨x, hx⟩ := h.shows t
  exact hx.built.mpr (hx.tied hu ▸ rfl)

/-- Only a transport that is started comes to drive another child in a step of a run. -/
theorem Moment.Tends.engages (h : a.Tends) (hg : Goes role a role' b) : Loop.Engages a.loop b.loop := by
  cases hg with
  | tick hq ht => exact ht.engages h.built
  | stimulus hr hadm => exact .of_drives (Loop.apply_lasts hadm).drives

theorem Moment.Tends.step (h : a.Tends) (hg : Goes role a role' b) (ha : a.Holds role) (hb : b.Holds role') : b.Tends where
  sparesStops := hg.sparesStops ha h.sparesStops
  begun := h.begun.step (hg.endures ha).begun (h.engages hg)
  shows t := by
    obtain ⟨x, hx⟩ := h.shows t
    obtain ⟨y, hy, -⟩ := hx.step (hg.traffic ha hb h.sparesStops)
    exact ⟨y, hy⟩

theorem Loop.IsNew.tends {m : Loop} (h : m.IsNew) : Moment.Tends { loop := m } where
  sparesStops := h.sparesStops
  begun := by
    obtain ⟨s, rfl⟩ := h
    intro t c hd
    cases hd
  shows t := ⟨.unbuilt, h.shows t⟩

/-- **At every moment of a run children were launched for transports that were begun.** -/
theorem IsRun.tends (h : IsRun (a :: past)) : a.Tends :=
  (h.induction (P := fun a _ => a.Tends) (fun hm => hm.tends) fun ha hb hg ht => ht.step hg ha hb).2

/-- **A step of a run leaves the session attended**, or a stop ends before it is through. -/
theorem Goes.attended (hg : Goes role a role' b) (ha : a.Holds role) (hb : b.Holds role') (ht : a.Tends)
    (h : a.loop.Attended) : b.loop.cutsStop = true ∨ b.loop.Attended := by
  have htraffic := hg.traffic ha hb ht.sparesStops
  cases hg with
  | tick hq htick => exact htick.attended ha.fits hb.fits htraffic ht.sparesStops h ht.begun ht.built
  | stimulus hr hadm =>
    have hlasts := Loop.apply_lasts hadm
    exact .inr (h.extends (Loop.apply_arrives ha.fits hr hadm).extends_ ha.fits hb.fits htraffic hlasts.children
      hlasts.drives hlasts.dead)

/-- **At every moment of a run the session is attended**, unless a stop has ended before it was through. -/
theorem IsRun.attended (h : IsRun (a :: past)) (hc : ∀ b ∈ a :: past, b.loop.cutsStop = false) : a.loop.Attended := by
  have hinv := (h.induction (P := fun a past => a.Tends ∧ ((∃ b ∈ a :: past, b.loop.cutsStop = true) ∨ a.loop.Attended))
    (fun hm => ?_) fun ha hb hg ⟨ht, hor⟩ => ⟨ht.step hg ha hb, ?_⟩).2.2
  · refine hinv.resolve_left ?_
    rintro ⟨b, hb, hcut⟩
    rw [hc b hb] at hcut
    cases hcut
  · refine ⟨hm.tends, .inr ?_⟩
    obtain ⟨s, rfl⟩ := hm
    intro c hlt
    cases hlt
  · rcases hor with ⟨d, hd, hcut⟩ | hatt
    · exact .inl ⟨d, List.mem_cons_of_mem _ hd, hcut⟩
    · exact (hg.attended ha hb ht hatt).imp_left fun hcut => ⟨_, List.mem_cons_self, hcut⟩

end goes

end DiagnosticsClient
