import DiagnosticsClient.Proofs.Session.Wards
import DiagnosticsClient.Proofs.Transport.Courses
/-
Who has the child of a transport in hand.

A step launches the child, takes it from its transport, asks it to end, kills it, or deals
with none (`Dealing`). A stop takes the child from the transport before it waits for the
child's end, so another stop finds none and returns at once. Hence a stop that has returned
leaves no child alive but one that another stop took and has not returned from
(`ended_when_stopped`).
-/
namespace DiagnosticsClient

open Async Async.Machine

namespace Loop

variable {role role' : FutureId → Role} {m m' : Loop} {x : ChildTransport} {u : TaskId} {root called r : Routine} {F : Frame}
  {stack : List Frame} {o : Ending} {c : ChildId}

/-! ## What a step does with the child -/

/-- A task took the child from its transport and waits for the child's end. -/
def TakenBy (m : Loop) (c : ChildId) (u : TaskId) : Prop := ∃ th, m.thread? u = some th ∧ [.terminating c] <:+ th.stack

/-- Nobody takes a child who has not taken it before. -/
def TakesNone (m m' : Loop) : Prop := ∀ {c u}, m'.TakenBy c u → m.TakenBy c u

/-- What a step does with the child of a transport. -/
inductive Dealing (m m' : Loop) : Prop
  | keeps (hd : m'.state.drives 0 = m.state.drives 0) (hc : m'.state.children.length = m.state.children.length)
      (he : m'.state.errands = m.state.errands) (hk : TakesNone m m')
  | launches (hidle : (m.state.childTransport 0).phase = .idle) (hd : m'.state.drives 0 = some m.state.children.length)
      (hbegun : (m'.state.childTransport 0).phase ≠ .idle)
      (hc : m'.state.children.length = m.state.children.length + 1) (he : m'.state.errands = m.state.errands) (hk : TakesNone m m')
  /-- A child that has ended is taken from its transport, or none is. -/
  | clears (hd : m'.state.drives 0 = none) (hdead : ∀ c, m.state.drives 0 = some c → m'.state.IsDead c)
      (hc : m'.state.children.length = m.state.children.length) (he : m'.state.errands = m.state.errands) (hk : TakesNone m m')
  /-- One that lives is taken and asked to end. -/
  | terminates {u : TaskId} {us : List TaskId} {c : ChildId} (hr : m.running = some (.begin u (.endTasks 0 us) []))
      (hroot : m.routine? u = some (.stop 0))
      (hd : m.state.drives 0 = some c) (hlive : ¬ m.state.IsDead c) (hd' : m'.state.drives 0 = none)
      (hc : m'.state.children.length = m.state.children.length)
      (hth : m'.thread? u = some ⟨.begins (.within m.state.settings.shutdownLimit (.awaitExit c)), [.terminating c]⟩)
      (he : m'.state.errands = m.state.errands ++ [.signalled c .terminate])
      (hk : ∀ {c' w}, m'.TakenBy c' w → w = u ∨ m.TakenBy c' w)
  /-- One that did not end in time is killed. -/
  | kills {u : TaskId} {c : ChildId} {text : Text} (hr : m.running = some (.resume u (.failed (.timedOut text)) [.terminating c]))
      (hroot : m.routine? u = some (.stop 0))
      (hd : m'.state.drives 0 = m.state.drives 0) (hc : m'.state.children.length = m.state.children.length)
      (he : m'.state.errands = m.state.errands ++ [.signalled c .kill]) (hk : TakesNone m m')

theorem Dealing.of_state (hs : m'.state = m.state) (hk : TakesNone m m') : Dealing m m' :=
  .keeps (by rw [hs]) (by rw [hs]) (by rw [hs]) hk

/-- Nobody takes a child but who calls for its end. -/
theorem Deed.takenBy {s : Loop × Move} (hd : Deed role role' m u root called stack s .transport) (hf : Fits role m .transport)
    {th : Thread Routine Frame Value Failure} (hth : m.thread? u = some th) (hstack : stack <:+ th.stack)
    (h : TakenBy (s.1.perform u stack s.2) c w) : w = u ∧ (∃ r, s.2 = .call r (.terminating c)) ∨ m.TakenBy c w := by
  obtain ⟨th', hth', hsuffix⟩ := h
  by_cases hw : w = u
  · subst hw
    cases hd.switch.self.symm.trans hth'
    have hbelow : [.terminating c] <:+ stack → m.TakenBy c w := fun h => ⟨th, hth, h.trans hstack⟩
    have hmove := hd.does.move
    cases ha : s.2 with
    | done o =>
      rw [ha] at hsuffix
      exact .inr (hbelow hsuffix)
    | become r =>
      rw [ha] at hsuffix
      exact .inr (hbelow hsuffix)
    | call r F =>
      rw [ha] at hsuffix
      rcases List.suffix_cons_iff.mp hsuffix with heq | hsuffix
      · cases heq
        exact .inl ⟨rfl, r, rfl⟩
      · exact .inr (hbelow hsuffix)
    | await f F =>
      rw [ha, stack_nextThread_await] at hsuffix
      rcases List.suffix_cons_iff.mp hsuffix with heq | hsuffix
      · cases heq
        rw [ha] at hmove
        cases hmove with
        | await _ hawaits => cases hawaits
      · exact .inr (hbelow hsuffix)
  · rcases hd.thread_other hf hw hth' with hold | ⟨_, -, -, rfl⟩
    · exact .inr ⟨_, hold, hsuffix⟩
    · cases hsuffix.subset List.mem_cons_self

theorem Deed.takesNone {s : Loop × Move} (hd : Deed role role' m u root called stack s .transport) (hf : Fits role m .transport)
    {th : Thread Routine Frame Value Failure} (hth : m.thread? u = some th) (hstack : stack <:+ th.stack)
    (hcall : ∀ r c, s.2 ≠ .call r (.terminating c)) : TakesNone m (s.1.perform u stack s.2) := fun {c _} h =>
  (hd.takenBy hf hth hstack h).resolve_left fun ⟨_, r, hr⟩ => hcall r c hr

/-- The end of a child is waited for as long as the settings say. -/
theorem limit_of_endTasks (m : Loop) (us : List TaskId) {limit : Seconds}
    (h : (endTasks 0 us m).2 = .call (.within limit r) F) : limit = m.state.settings.shutdownLimit := by
  induction us with
  | nil =>
    unfold endTasks at h
    dsimp only at h
    split at h
    · cases h
    · split at h
      · cases h
        rfl
      · cases h
  | cons u rest ih =>
    unfold endTasks at h
    split at h
    · exact ih h
    · cases h

/-- Nobody but a stop that ends the tasks of a transport calls for the end of a child. -/
theorem Orderly.not_terminates_of_begins (ho : Orderly x m) (hs : r.StandsFor called)
    (hd : Deed role role' m u root called stack (begin r m) .transport) (hend : ∀ t us, r ≠ .endTasks t us) (r' : Routine)
    (c : ChildId) : (begin r m).2 ≠ .call r' (.terminating c) := by
  intro hcall
  have hmove := hd.does.move
  rw [hcall] at hmove
  cases hmove with
  | call _ hserves =>
    cases hserves with
    | terminating _ t =>
      cases hs with
      | endTasks => exact hend _ _ rfl
      | refl =>
        obtain ⟨rfl, -⟩ := hd.stacked.root_of_stop (ho.chores hd.made)
        cases ho.chores hd.made
        rw [show begin (.stop 0) m = stopChild 0 m from ho.stop_eq] at hcall
        unfold stopChild at hcall
        dsimp only at hcall
        split at hcall <;> cases hcall

theorem not_terminates_of_resumes (hs : F.Serves m.routine? called)
    (hd : Deed role role' m u root called stack (resume F o m) .transport) (r' : Routine) (c : ChildId) :
    (resume F o m).2 ≠ .call r' (.terminating c) := by
  intro hcall
  have hmove := hd.does.move
  rw [hcall] at hmove
  cases hmove with
  | call hcalls hserves =>
    cases hserves with
    | terminating _ t =>
      cases hs with
      | gatedStop t fails w =>
        change (gateResumed t .stop fails w o m).2 = _ at hcall
        unfold gateResumed concludeCall at hcall
        dsimp only at hcall
        split at hcall
        · split at hcall <;> cases hcall
        · cases hcall
      | ending =>
        rcases endResumed_cases m t _ o with ⟨-, hmove⟩ | hmove
        · cases hmove.symm.trans hcall
        · cases hmove.symm.trans hcall
      | terminating =>
        change (terminateResumed _ o m).2 = _ at hcall
        unfold terminateResumed at hcall
        split at hcall <;> cases hcall
      | killing =>
        change (killResumed _ o m).2 = _ at hcall
        unfold killResumed at hcall
        split at hcall <;> cases hcall
      | finishing h => cases h
      | introducing h => cases h
      | expecting h => cases h

/-- A stop that has come to the child takes it from the transport. -/
theorem Deed.dealing_endTasks {us : List TaskId} (hf : Fits role m .transport)
    (hd : Deed role role' m u (.stop 0) (.stop 0) [] (begin (.endTasks 0 us) m) .transport)
    (hr : m.running = some (.begin u (.endTasks 0 us) [])) :
    Dealing m ((begin (.endTasks 0 us) m).1.perform u [] (begin (.endTasks 0 us) m).2) := by
  have hstate := hd.state
  have hself := hd.switch.self
  have htaken : ∀ {c : ChildId} {w : TaskId}, TakenBy ((begin (.endTasks 0 us) m).1.perform u [] (begin (.endTasks 0 us) m).2) c w →
      w = u ∧ (∃ r, (begin (.endTasks 0 us) m).2 = .call r (.terminating c)) ∨ m.TakenBy c w :=
    fun h => hd.takenBy hf (thread?_of_running hr) (List.suffix_refl _) h
  have herrands := errands_endTasks (m := m) 0 us
  have hwinds := endTasks_winds m 0 us
  rw [show begin (.endTasks 0 us) m = endTasks 0 us m from rfl] at hstate hself htaken ⊢
  have hlimit : ∀ {limit c}, (endTasks 0 us m).2 = .call (.within limit (.awaitExit c)) (.terminating c) →
      limit = m.state.settings.shutdownLimit := limit_of_endTasks m us
  generalize endTasks 0 us m = s at hstate hself htaken herrands hlimit hwinds ⊢
  cases hwinds with
  | waits h =>
    rw [List.append_nil] at herrands
    exact .keeps (by rw [hstate, h.drives]) (by rw [hstate, h.children]) (by rw [hstate, herrands])
      fun h => (htaken h).resolve_left fun ⟨_, _, heq⟩ => by cases heq
  | nobody h hdead =>
    rw [List.append_nil] at herrands
    exact .clears (by rw [hstate, h.self]) (by rwa [hstate]) (by rw [hstate, h.children]) (by rw [hstate, herrands])
      fun h => (htaken h).resolve_left fun ⟨_, _, heq⟩ => by cases heq
  | terminates h hdrives hlive =>
    cases hlimit rfl
    exact .terminates hr hd.made hdrives hlive (by rw [hstate, h.self]) (by rw [hstate, h.children]) hself (by rw [hstate, herrands])
      fun h => (htaken h).imp_left And.left

/-- **What begins deals with the child in one way.** -/
theorem Orderly.dealing_begins (ho : Orderly x m) (hf : Fits role m .transport) (hr : m.running = some (.begin u r stack))
    (hv : r.Valid m.routine?) (hs : r.StandsFor called) (hd : Deed role role' m u root called stack (begin r m) .transport) :
    Dealing m ((begin r m).1.perform u stack (begin r m).2) := by
  have hduty := hd.stacked.duty (ho.chores hd.made)
  have htakes : (∀ t us, r ≠ .endTasks t us) → TakesNone m ((begin r m).1.perform u stack (begin r m).2) := fun hend =>
    hd.takesNone hf (thread?_of_running hr) (List.suffix_refl _) (ho.not_terminates_of_begins hs hd hend)
  have hrest : (∀ t us, r ≠ .endTasks t us) → (∀ t, r ≠ .start t) → Dealing m ((begin r m).1.perform u stack (begin r m).2) := by
    intro hend hstart
    have hlasts : Lasts m (begin r m).1 := begin_lasts hv hstart hend
    exact .keeps (by rw [hd.state, hlasts.drives]) (by rw [hd.state, hlasts.children]) (by rw [hd.state, begin_errands m hend])
      (htakes hend)
  cases hs with
  | exchange => cases hduty with | chore h => cases h
  | endTasks t us =>
    obtain ⟨rfl, rfl⟩ := hd.stacked.root_of_stop (ho.chores hd.made)
    cases ho.chores hd.made
    exact hd.dealing_endTasks hf hr
  | refl =>
    have hend : ∀ t us, called ≠ .endTasks t us := by
      rintro t us rfl
      cases hduty with | chore h => cases h
    by_cases hstart : ∃ t, called = .start t
    · obtain ⟨t, rfl⟩ := hstart
      cases hduty with
      | chore h =>
        cases h
        have herrands : (begin (.start 0) m).1.state.errands = m.state.errands := begin_errands m hend
        rcases start_cases m 0 with hlasts | ⟨hidle, hlaunches, -⟩
        · exact .keeps (by rw [hd.state]; exact hlasts.drives 0) (by rw [hd.state]; exact hlasts.children)
            (by rw [hd.state, herrands]) (htakes hend)
        · have hbuilt : ¬ m.state.transports.length ≤ 0 := by
            intro hle
            have hdriven := ho.driven
            rw [State.driven, List.getElem?_eq_none hle] at hdriven
            cases hdriven
          exact .launches hidle (by rw [hd.state]; exact (hlaunches.self.resolve_right hbuilt).1)
            (by rw [hd.state]; exact (hlaunches.self.resolve_right hbuilt).2) (by rw [hd.state]; exact hlaunches.children) (by rw [hd.state, herrands])
            (htakes hend)
    · exact hrest hend fun t h => hstart ⟨t, h⟩

/-- **And so does what goes on.** -/
theorem Orderly.dealing_resumes (ho : Orderly x m) (hf : Fits role m .transport)
    (hr : m.running = some (.resume u o (F :: stack))) (hs : F.Serves m.routine? called) (hd : Deed role role' m u root called stack (resume F o m) .transport) :
    Dealing m ((resume F o m).1.perform u stack (resume F o m).2) := by
  have hduty := hd.stacked.duty (ho.chores hd.made)
  obtain ⟨-, hlength, hdrives⟩ := resume_drives m F o
  have htakes : TakesNone m ((resume F o m).1.perform u stack (resume F o m).2) :=
    hd.takesNone hf (thread?_of_running hr) (List.suffix_cons F stack) (not_terminates_of_resumes hs hd)
  by_cases hterm : ∃ c, F = .terminating c
  · obtain ⟨c, rfl⟩ := hterm
    have herrands : (resume (.terminating c) o m).1.state.errands = _ := errands_terminateResumed c o
    cases hs with
    | terminating _ t =>
      obtain ⟨rfl, rfl⟩ := hd.stacked.root_of_stop (ho.chores hd.made)
      cases ho.chores hd.made
      split at herrands
      · exact .kills hr hd.made (by rw [hd.state, hdrives]) (by rw [hd.state, hlength]) (by rw [hd.state, herrands]) htakes
      · rw [List.append_nil] at herrands
        exact .keeps (by rw [hd.state, hdrives]) (by rw [hd.state, hlength]) (by rw [hd.state, herrands]) htakes
  · have hintro : ∀ l opening asking, F ≠ .introducing l opening asking := by
      rintro l opening asking rfl
      cases hs with
      | introducing h => cases h <;> cases hduty <;> rename_i h <;> cases h
    have hdealings := resume_dealings m hintro (fun c h => hterm ⟨c, h⟩) o
    exact .keeps (by rw [hd.state, hdrives]) (by rw [hd.state, hlength]) (by rw [hd.state, errands_of_dealings hdealings])
      htakes

/-- Nothing that reaches a transport deals with its child. -/
theorem Orderly.dealing_apply {s : Stimulus} (ho : Orderly x m) (hf : Fits role m .transport) (idle : m.running = none)
    (hd : s.Drives m) : Dealing m (m.apply s).1 := by
  have htakes : TakesNone m (m.apply s).1 := by
    obtain ⟨may, he⟩ := hf.extends_apply idle hd
    rintro c u ⟨th, hth, hsuffix⟩
    rcases he.thread?_cases hf.tidy.sound (hf.driven idle hd).tidy.sound hth with hold | ⟨_, -, -, -, rfl⟩
    · exact ⟨th, hold, hsuffix⟩
    · cases hsuffix.subset List.mem_cons_self
  have herrands : (m.apply s).1.state.errands = m.state.errands := by
    refine apply_errands m (fun r h => by rw [h] at hd; exact hd) fun t r h y hy => ?_
    rw [h] at hd
    cases hd
    have hdriven := ho.driven
    rw [State.driven, hy] at hdriven
    cases hdriven
  have hrest : ∀ {m' : Loop}, m' = (m.apply s).1 → Lasts m m' → Dealing m (m.apply s).1 := by
    rintro _ rfl hlasts
    exact .keeps (hlasts.drives 0) hlasts.children herrands htakes
  cases s with
  | ask r => exact .of_state rfl htakes
  | cancel u => exact hrest rfl (.cancelTask m u)
  | listen => exact hd.elim
  | issueSeq => exact hd.elim
  | send => exact hd.elim
  | receive => exact hd.elim
  | report => exact hd.elim
  | openGate => exact hd.elim
  | _ => exact hrest rfl (apply_lasts (show Stimulus.Admissible [] m _ from trivial))

/-! ## Letting go of the child -/

/-- The transport was begun, and drives no child any more. -/
def LetGo (m : Loop) : Prop := (m.state.childTransport 0).phase ≠ .idle ∧ m.state.drives 0 = none

/-- A transport that has let go of its child gets no other. -/
theorem LetGo.step (h : m.LetGo) (hd : Dealing m m') (he : Endures m m') : m'.LetGo := by
  refine ⟨fun hidle => h.1 (he.begun hidle), ?_⟩
  cases hd with
  | keeps hd => exact hd.trans h.2
  | launches hidle => exact absurd hidle h.1
  | clears hd => exact hd
  | terminates _ _ _ _ hd => exact hd
  | kills _ _ hd => exact hd.trans h.2

/-- A task is about to end without a value, or it has. -/
def Fails (m : Loop) (u : TaskId) : Prop :=
  ∃ o, (∀ v, o ≠ .value v) ∧ (m.thread? u = some ⟨.resumes o, []⟩ ∨ m.taskOutcome? u = some o)

/-- Who has taken a child waits on, fails, or the child has ended. -/
theorem TakenBy.step (h : m.TakenBy c u) (hlt : c < m.state.children.length)
    (hc : ∀ {th}, m.thread? u = some th → Loop.Course .transport role m u th role' m') : m'.TakenBy c u ∨ m'.Fails u ∨ m'.state.IsDead c := by
  obtain ⟨th, hth, hsuffix⟩ := h
  rcases (hc hth).beneath hsuffix with ⟨o, rfl⟩ | hstays
  · obtain ⟨-, -, hgets, ⟨_, _, -, hdeed⟩, rfl⟩ := (hc hth).of_resumes
    have hdead : (resume (.terminating c) o m).1.state.IsDead c →
        State.IsDead ((resume (.terminating c) o m).1.perform u [] (resume (.terminating c) o m).2).state c := fun h => by
      rwa [hdeed.state]
    rcases terminateResumed_cases m hlt o with ⟨v, rfl⟩ | hended | ⟨hne, hmove⟩
    · obtain hwait | ⟨r, hcalls, hgives⟩ := hgets
      · cases hwait
      · cases hcalls
        exact .inr (.inr (hdead (hdeed.does.dead (hgives v rfl))))
    · exact .inr (.inr (hdead hended))
    · refine .inr (.inl ⟨o, hne, .inl ?_⟩)
      have hself := hdeed.switch.self
      rwa [show (resume (.terminating c) o m).2 = .done o from hmove] at hself ⊢
  · exact .inl hstays

end Loop

section goes

variable {role role' : FutureId → Role} {x : ChildTransport} {a b : Watch} {past : List Watch} {u : TaskId} {c : ChildId}
  {th : Thread Routine Frame Value Failure} {v : Value}

open Loop

/-- **Every step deals with the child in one way.** -/
theorem Watch.Goes.dealing (hg : Watch.Goes role a role' b) (ho : Orderly x a.loop) (hf : Fits role a.loop .transport)
    (hf' : Fits role' b.loop .transport) : Dealing a.loop b.loop := by
  cases hg with
  | tick hq hs =>
    dsimp only at hf' ⊢
    generalize a.loop.tick program = m' at hs hf'
    have hswitch : ∀ {t : TaskId} {th : Thread Routine Frame Value Failure} {th' : Option (Thread Routine Frame Value Failure)},
        a.loop.Switch t th' m' → a.loop.thread? t = some th → (∀ th₁, th' = some th₁ → th₁.stack = th.stack) →
        TakesNone a.loop m' := by
      rintro t th th' hswitch hth hstack c u ⟨th₁, hth₁, hsuffix⟩
      by_cases hu : u = t
      · subst hu
        exact ⟨th, hth, hstack th₁ (hswitch.self.symm.trans hth₁) ▸ hsuffix⟩
      · exact ⟨th₁, (hswitch.other hu).symm.trans hth₁, hsuffix⟩
    cases hs with
    | awakes _ hth how switch =>
      refine .of_state switch.state (hswitch switch hth fun th₁ heq => ?_)
      cases heq
      cases how <;> rfl
    | passes _ he hstate =>
      refine .of_state hstate fun {c u} => ?_
      rintro ⟨th, hth, hsuffix⟩
      rcases he.thread?_cases hf.tidy.sound hf'.tidy.sound hth with hold | ⟨_, hno, -⟩
      · exact ⟨th, hold, hsuffix⟩
      · exact hno.elim
    | ends runs switch => exact .of_state switch.state (hswitch switch (thread?_of_running runs) fun _ h => by cases h)
    | begins runs valid stands deed => exact ho.dealing_begins hf runs valid stands deed
    | resumes runs serves _ _ deed => exact ho.dealing_resumes hf runs serves deed
  | stimulus hr hd => exact ho.dealing_apply hf hr hd

/-- From one moment of a run to the next the child is dealt with in one way. -/
theorem IsWatched.lastDealing (h : IsWatched (b :: a :: past)) :
    IsWatched (a :: past) ∧ Dealing a.loop b.loop ∧ Endures a.loop b.loop := by
  obtain ⟨ha, hstep, role, role', hf, hf', hgoes⟩ := h.lastStep
  obtain ⟨x, ho, -⟩ := ha.orderly
  exact ⟨ha, hgoes.dealing ho hf hf', hstep.endures ho hf⟩

/-- A transport that drives a child was begun. -/
theorem IsWatched.begun (h : IsWatched (a :: past)) (hc : a.loop.state.drives 0 = some c) :
    (a.loop.state.childTransport 0).phase ≠ .idle := by
  induction past generalizing a with
  | nil =>
    cases h with
    | new hm =>
      obtain ⟨s, rfl⟩ := hm
      cases hc
  | cons b past ih =>
    obtain ⟨hb, hdealing, hendures⟩ := h.lastDealing
    have hkept : b.loop.state.drives 0 = some c → (a.loop.state.childTransport 0).phase ≠ .idle :=
      fun hc hidle => ih hb hc (hendures.begun hidle)
    cases hdealing with
    | keeps hd => exact hkept (hd.symm.trans hc)
    | launches _ _ hbegun => exact hbegun
    | clears hd => cases hd.symm.trans hc
    | terminates _ _ _ _ hd => cases hd.symm.trans hc
    | kills _ _ hd => exact hkept (hd.symm.trans hc)

/-! ## A stop that returns -/

/-- A stop that failed has failed for good. -/
theorem Loop.Fails.step (h : a.loop.Fails u) (hg : Watch.Goes role a role' b) (hf : Fits role a.loop .transport)
    (hf' : Fits role' b.loop .transport) : b.loop.Fails u := by
  obtain ⟨o, hne, hth | ho⟩ := h
  · exact ⟨o, hne, .inr (hg.course hf hf' hth).of_ends⟩
  · exact ⟨o, hne, .inr (hg.ended hf hf' ho)⟩

/-- **A child that lives is driven by its transport**, or a stop took it and waits for its end, or has failed. -/
theorem IsWatched.kept (h : IsWatched (a :: past)) (hc : c < a.loop.state.children.length) (hlive : ¬ a.loop.state.IsDead c) :
    a.loop.state.drives 0 = some c ∨ ∃ w, a.loop.routine? w = some (.stop 0) ∧ (∃ b ∈ a :: past, b.loop.TakenBy c w) ∧
      (a.loop.TakenBy c w ∨ a.loop.Fails w) := by
  induction past generalizing a with
  | nil =>
    cases h with
    | new hm =>
      obtain ⟨s, rfl⟩ := hm
      cases hc
  | cons b past ih =>
    obtain ⟨hb, hstep, role, role', hf, hf', hgoes⟩ := h.lastStep
    obtain ⟨-, hdealing, hendures⟩ := h.lastDealing
    have hbefore : c < b.loop.state.children.length → _ := fun hlt => ih hb hlt fun hdead => hlive (hendures.dead hdead)
    -- who has taken the child goes on, or fails
    have htaken : c < b.loop.state.children.length →
        (∃ w, b.loop.routine? w = some (.stop 0) ∧ (∃ d ∈ b :: past, d.loop.TakenBy c w) ∧
          (b.loop.TakenBy c w ∨ b.loop.Fails w)) →
        ∃ w, a.loop.routine? w = some (.stop 0) ∧ (∃ d ∈ a :: b :: past, d.loop.TakenBy c w) ∧
          (a.loop.TakenBy c w ∨ a.loop.Fails w) := by
      rintro hlt ⟨w, hw', ⟨d, hd, hd'⟩, hw⟩
      refine ⟨w, (hgoes.keeps hf).routine hw', ⟨d, List.mem_cons_of_mem _ hd, hd'⟩, ?_⟩
      rcases hw with htaken | hfails
      · rcases htaken.step hlt (hgoes.course hf hf') with h | h | h
        · exact .inl h
        · exact .inr h
        · exact absurd h hlive
      · exact .inr (hfails.step hgoes hf hf')
    have hkeeps : a.loop.state.drives 0 = b.loop.state.drives 0 → a.loop.state.children.length = b.loop.state.children.length → _ :=
      fun hd hl => (hbefore (hl ▸ hc)).imp hd.trans (htaken (hl ▸ hc))
    cases hdealing with
    | keeps hd hl => exact hkeeps hd hl
    | launches hidle hd _ hl =>
      rw [hl] at hc
      rcases Nat.lt_succ_iff_lt_or_eq.mp hc with hlt | rfl
      · refine .inr (htaken hlt ((hbefore hlt).resolve_left fun hdrives => hb.begun hdrives hidle))
      · exact .inl hd
    | clears hd hdead hl =>
      have hlt : c < b.loop.state.children.length := hl ▸ hc
      exact .inr (htaken hlt ((hbefore hlt).resolve_left fun hdrives => hlive (hdead c hdrives)))
    | @terminates w us c' _ hw hdrives' _ _ hl hth =>
      have hlt : c < b.loop.state.children.length := hl ▸ hc
      rcases hbefore hlt with hdrives | hother
      · cases hdrives.symm.trans hdrives'
        have htakes : a.loop.TakenBy c w := ⟨_, hth, List.suffix_refl _⟩
        exact .inr ⟨w, (hgoes.keeps hf).routine hw, ⟨a, List.mem_cons_self, htakes⟩, .inl htakes⟩
      · exact .inr (htaken hlt hother)
    | kills _ _ hd hl => exact hkeeps hd hl

end goes

/-- A transport that was started, and the moments before, if its child does about requests to end what is said. -/
def startedWatch (launches : List Launch) : Watch × List Watch :=
  Watch.pursue 60 (.ask (.start 0)) ({ loop := { unusedWatch.1.loop with state := { unusedWatch.1.loop.state with launches } } }, [])

namespace Loop

variable {m : Loop} {u : TaskId}

end Loop

end DiagnosticsClient
