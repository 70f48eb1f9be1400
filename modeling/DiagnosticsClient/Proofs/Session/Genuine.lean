import DiagnosticsClient.Proofs.Session.Checks
/-
What is handed on was received.

A message gets into the queues of listeners when it is received, and from there by
way of those who take it to those who asked for an answer. No routine on this way
makes one up (`begin_genuine`, `resume_genuine`). So whatever message a check comes
to hold, in a queue, in a task or as the outcome of one, was received
(`IsCheck.genuine`).
-/
namespace DiagnosticsClient

open Async Async.Machine

/-- A value holds no message but one that was received. -/
def Value.IsGenuine (s : State) : Value → Prop
  | .message msg => msg ∈ s.received
  | .delivery (.message msg) => msg ∈ s.received
  | _ => True

/-- A routine that hands on what was received. -/
def Routine.relays : Routine → Bool
  | .next _ => true
  | .take _ => true
  | .request .. => true
  | .exchange .. => true
  | .within _ inner => inner.relays
  | _ => false

/-- A frame that goes on with what was received. -/
def Frame.relays : Frame → Bool
  | .receiving _ => true
  | .collecting .. => true
  | .visited .. => true
  | .requesting .. => true
  | .expecting .. => true
  | .answered .. => true
  | _ => false

/-- A thread holds no message but one that was received: what it goes on with, and what it is to end with. -/
structure Thread.IsGenuine (s : State) (root : Routine) (th : Thread Routine Frame Value Failure) : Prop where
  given : ∀ v, th.top = .resumes (.value v) → ((th.stack.head?.map Frame.relays).getD root.relays) = true → v.IsGenuine s
  kept : ∀ v, .finishing (.value v) ∈ th.stack → v.IsGenuine s

/-- What is done next hands on no message but one that was received. -/
def IsGenuineMove (s : State) (called : Routine) : Move → Prop
  | .done o => called.relays = true → ∀ v, o = .value v → v.IsGenuine s
  | .call _ F => ∀ v, F = .finishing (.value v) → v.IsGenuine s
  | _ => True

variable {s s' : State} {role role' : FutureId → Role} {roots : TaskId → Option Routine} {m m' : Loop} {root called r : Routine}
  {F : Frame} {stack : List Frame} {o : Ending} {th : Thread Routine Frame Value Failure} {u : TaskId} {v : Value} {size : Nat}
  {a : Move}

theorem Value.IsGenuine.mono (h : v.IsGenuine s) (hs : s.received ⊆ s'.received) : v.IsGenuine s' := by
  cases v with
  | message msg => exact hs h
  | delivery d =>
    cases d with
    | message msg => exact hs h
    | ended e => trivial
  | _ => trivial

theorem Thread.IsGenuine.mono (h : Thread.IsGenuine s root th) (hs : s.received ⊆ s'.received) : Thread.IsGenuine s' root th :=
  ⟨fun v htop hrelays => (h.given v htop hrelays).mono hs, fun v hmem => (h.kept v hmem).mono hs⟩

/-- A thread that goes on with nothing given to it. -/
theorem Thread.IsGenuine.of_top (htop : ∀ v, th.top ≠ .resumes (.value v))
    (hk : ∀ v, .finishing (.value v) ∈ th.stack → v.IsGenuine s) : Thread.IsGenuine s root th :=
  ⟨fun v h => absurd h (htop v), hk⟩

theorem Thread.IsGenuine.fresh (s : State) (root : Routine) : Thread.IsGenuine s root ⟨.fresh root, []⟩ :=
  .of_top (fun v h => by cases h) fun v h => by cases h

theorem Frame.Calls.relays (h : F.Calls r) : F.relays = r.relays := by
  cases h <;> rfl

theorem Frame.relays_of_isWait (h : F.isWait = true) : F.relays = false := by
  cases F <;> first | rfl | cases h

namespace Loop

/-! ## No message is made up -/

/-- The routines that hand nothing on, and end as they are to before they have cleaned up. -/
theorem MoveFits.genuine (hm : MoveFits role m size called a) (hr : called.relays = false)
    (hf : ∀ e, ¬ Frame.Serves m.routine? (.finishing e) called) : IsGenuineMove s called a := by
  cases hm with
  | done => exact fun h => by cases hr.symm.trans h
  | call _ hs => exact fun v hv => absurd (hv ▸ hs) (hf _)
  | become => trivial
  | await => trivial

/-- A routine that begins hands on what is in a queue. -/
theorem begin_genuine (hq : ∀ l msg, .message msg ∈ (m.state.listener l).queue → msg ∈ m.state.received)
    (hr : r.StandsFor called) (hm : MoveFits role m' size called (begin r m).2) : IsGenuineMove m.state called (begin r m).2 := by
  have hvalue : ∀ {o : Ending}, (∀ v, o ≠ .value v) → IsGenuineMove m.state called (.done o) := fun ho _ v hv => absurd hv (ho v)
  cases r with
  | next l =>
    simp only [begin, next]
    split
    · exact hvalue fun v h => by cases h
    · split
      · exact hvalue fun v h => by cases h
      · exact fun v h => by cases h
  | take l =>
    simp only [begin, Loop.take]
    split
    · next item rest hqueue =>
      rintro - v ⟨⟩
      cases item with
      | message msg => exact hq l msg (by rw [hqueue]; exact List.mem_cons_self)
      | ended e => trivial
    · trivial
  | request file limit => cases limit <;> first | trivial | exact fun v h => by cases h
  | exchange opening asking => exact fun v h => by cases h
  | within limit inner =>
    simp only [begin, within]
    split
    · exact fun v h => by cases h
    · split
      · exact hvalue fun v h => by cases h
      · trivial
  | visit count => exact fun v h => by cases h
  | checkFiles files context limit => trivial
  | _ => cases hr <;> exact hm.genuine rfl fun e hs => by cases hs <;> rename_i h <;> cases h

theorem visitOn_genuine {l : ListenerId} {count total : Nat} {taken : List Message} :
    IsGenuineMove s (.visit total) (visitOn l count taken m).2 := by
  cases count with
  | zero =>
    rintro v ⟨⟩
    trivial
  | succ count => exact fun v h => by cases h

theorem cleanedUp_genuine {e : Ending} (hk : ∀ v, .finishing e = Frame.finishing (.value v) → v.IsGenuine s) :
    IsGenuineMove s called (cleanedUp e o m).2 := by
  unfold cleanedUp
  split
  · exact fun _ v hv => hk v (by rw [hv])
  · next hne => exact fun _ v hv => absurd hv (hne v)

/-- A frame hands on what it is given, or what it was to end with. -/
theorem resume_genuine (hs : F.Serves m.routine? called) (hg : F.relays = true → ∀ v, o = .value v → v.IsGenuine m.state)
    (hk : ∀ v, F = .finishing (.value v) → v.IsGenuine m.state)
    (ht : ∀ {u root v}, m.routine? u = some root → root.relays = true → m.taskOutcome? u = some (.value v) → v.IsGenuine m.state)
    (hm : MoveFits role m' size called (resume F o m).2) : IsGenuineMove m.state called (resume F o m).2 := by
  have hvalue : ∀ {o : Ending}, (∀ v, o ≠ .value v) → IsGenuineMove m.state called (.done o) := fun ho _ v hv => absurd hv (ho v)
  have hending : ∀ {u inner}, m.routine? u = some inner → inner.relays = true → ∀ v, m.taskEnding u = .value v → v.IsGenuine m.state := by
    intro u inner hu hr v hv
    unfold taskEnding at hv
    cases hout : m.taskOutcome? u with
    | none => rw [hout] at hv; cases hv
    | some o => rw [hout] at hv; cases hv; exact ht hu hr hout
  have hlate : ∀ {u inner}, m.routine? u = some inner → inner.relays = true → ∀ v, m.lateEnding u = .value v → v.IsGenuine m.state := by
    intro u inner hu hr v hv
    unfold lateEnding at hv
    split at hv
    · cases hv
    · exact hending hu hr v hv
  cases hs with
  | receiving l =>
    simp only [resume, nextResumed]
    split
    · next msg =>
      rintro - v ⟨⟩
      exact hg rfl (.delivery (.message msg)) rfl
    · exact hvalue fun v h => by cases h
    · exact fun _ v hv => hg rfl v hv
  | getting l g =>
    simp only [resume, takeResumed]
    split
    · trivial
    · next hne => exact hvalue hne
  | visiting l count total =>
    simp only [resume, visitOpened]
    split
    · exact visitOn_genuine
    · next hne => exact hvalue hne
  | visited l count total taken =>
    simp only [resume, visitResumed]
    split
    · exact visitOn_genuine
    · exact fun v hv => hg rfl v (Frame.finishing.inj hv)
  | finishingVisit e total => exact cleanedUp_genuine hk
  | finishing hx he => exact cleanedUp_genuine hk
  | requesting file seq limit =>
    simp only [resume, requestResumed]
    split
    · exact hvalue fun v h => by cases h
    · exact fun _ v hv => hg rfl v hv
  | introducing hx =>
    simp only [resume, exchangeOpened]
    split
    · split
      · exact fun v h => by cases h
      · exact fun v h => by cases h
    · next hne => exact hvalue hne
  | expecting hx =>
    simp only [resume, exchangeResumed]
    split
    · split
      · exact fun v hv => hg rfl v (Frame.finishing.inj hv)
      · exact fun v h => by cases h
    · exact fun v h => by cases h
    · exact fun v h => by cases h
    · exact fun v hv => hg rfl v (Frame.finishing.inj hv)
  | timing w limit hu hi =>
    simp only [resume, timeResumed]
    split
    · exact fun hr => hending hu hr
    · split <;> exact fun v h => by cases h
  | overdue limit hu =>
    simp only [resume, overdueResumed]
    split
    · exact fun hr => hlate hu hr
    · next hne => exact hvalue hne
  | lapsed w limit hu =>
    simp only [resume, lapsedResumed]
    split
    · exact fun hr => hlate hu hr
    · next hne => exact hvalue hne
  | abandoned w limit inner =>
    simp only [resume, abandonedResumed]
    split
    · exact hvalue fun v h => by cases h
    · next hne => exact hvalue hne
  | gathered members files context limit =>
    simp only [resume, gatherResumed]
    rintro v hv
    split at hv
    · cases hv
      trivial
    · next hne => exact absurd (Frame.finishing.inj hv) (hne v)
  | finishingCheck e files context limit => exact cleanedUp_genuine hk
  | _ => exact hm.genuine rfl fun e hs => by cases hs <;> rename_i h <;> cases h

/-! ## In a thread -/

theorem nextThread_genuine (ha : IsGenuineMove s called a) (hm : MoveFits role m size called a)
    (hs : Stacked m.routine? root called stack) (hk : ∀ v, .finishing (.value v) ∈ stack → v.IsGenuine s) :
    Thread.IsGenuine s root (m.nextThread stack a) := by
  cases hm with
  | done =>
    refine ⟨fun v htop hrelays => ?_, hk⟩
    cases htop
    refine ha ?_ v rfl
    cases hs with
    | nil => exact hrelays
    | cons hc => exact hc.relays ▸ hrelays
  | call hc hserves =>
    refine .of_top (fun v h => by cases h) fun v hmem => ?_
    rcases List.mem_cons.mp hmem with heq | hmem
    · exact ha v heq.symm
    · exact hk v hmem
  | become => exact .of_top (fun v h => by cases h) hk
  | @await f F hserves hawaits =>
    refine ⟨fun v _ hrelays => ?_, fun v hmem => ?_⟩
    · rw [stack_nextThread_await] at hrelays
      cases (Frame.relays_of_isWait hawaits.isWait).symm.trans hrelays
    · rw [stack_nextThread_await] at hmem
      rcases List.mem_cons.mp hmem with rfl | hmem
      · cases hawaits
      · exact hk v hmem

/-- Whatever message a loop holds was received. -/
structure IsGenuine (m : Loop) : Prop where
  queues : ∀ l msg, .message msg ∈ (m.state.listener l).queue → msg ∈ m.state.received
  threads : ∀ {t : TaskId} {th : Thread Routine Frame Value Failure} {root : Routine}, m.thread? t = some th →
    m.routine? t = some root → Thread.IsGenuine m.state root th
  gave : ∀ {t : TaskId} {root : Routine} {v : Value}, m.routine? t = some root → root.relays = true →
    m.taskOutcome? t = some (.value v) → v.IsGenuine m.state

/-- A turn of a task makes no message up. -/
theorem Turn.genuine (ht : Turn role m u th role' m') (h : m.IsGenuine) (hf : Fits role m) (hf' : Fits role' m')
    (hth : m.thread? u = some th) (hroot : m.routine? u = some root) :
    (∀ th', m'.thread? u = some th' → Thread.IsGenuine m.state root th') ∧
      ∀ v, root.relays = true → m'.taskOutcome? u = some (.value v) → v.IsGenuine m.state := by
  have hold := h.threads hth hroot
  have hthread : ∀ {th'}, m'.thread? u = some th' → Thread.IsGenuine m.state root th' →
      (∀ th', m'.thread? u = some th' → Thread.IsGenuine m.state root th') ∧
        ∀ v, root.relays = true → m'.taskOutcome? u = some (.value v) → v.IsGenuine m.state := fun hth' hg =>
    ⟨fun _ heq => Option.some.inj (hth'.symm.trans heq) ▸ hg,
      fun v _ hv => by cases (hf'.tidy.sound.taskOutcome?_of_thread? hth').symm.trans hv⟩
  cases ht with
  | rests _ _ hth' => exact hthread hth' hold
  | awakes how switch =>
    refine hthread switch.self ?_
    obtain ⟨_, -, hfits⟩ := hf.threads hth
    cases how with
    | begins => exact .of_top (fun v h => by cases h) hold.kept
    | dropped => exact .of_top (fun v h => by cases h) hold.kept
    | interrupted => exact .of_top (fun v h => by cases h) hold.kept
    | resumes =>
      cases hfits with
      | waits _ hawaits =>
        refine ⟨fun v _ hrelays => ?_, hold.kept⟩
        cases (Frame.relays_of_isWait hawaits.isWait).symm.trans hrelays
  | ends outcome =>
    refine ⟨fun th' hth' => ?_, fun v hrelays hv => ?_⟩
    · cases (hf'.tidy.sound.taskOutcome?_of_thread? hth').symm.trans outcome
    · cases outcome.symm.trans hv
      exact hold.given v rfl hrelays
  | begins runs valid stands how deed =>
    cases hroot.symm.trans deed.made
    exact hthread deed.switch.self (nextThread_genuine (begin_genuine h.queues stands deed.does.move) deed.does.move
      (deed.stacked.mono deed.does.effect.extends.routine?) hold.kept)
  | resumes runs serves gets how deed =>
    cases hroot.symm.trans deed.made
    refine hthread deed.switch.self (nextThread_genuine (resume_genuine serves (fun hr v hv => ?_) (fun v hv => ?_) h.gave
      deed.does.move) deed.does.move (deed.stacked.mono deed.does.effect.extends.routine?) fun v hmem => ?_)
    · exact hold.given v (by rw [hv]) hr
    · exact hold.kept v (hv ▸ List.mem_cons_self)
    · exact hold.kept v (List.mem_cons_of_mem _ hmem)

end Loop

/-! ## In a check -/

variable {surroundings : Surroundings} {files : List Text} {context : Context} {limit : Option Seconds} {past : List Loop}

/-- What is put into a queue was received. -/
theorem Moves.queues (h : Moves role m role' m') (hm : m.Holds role)
    (hq : ∀ l msg, .message msg ∈ (m.state.listener l).queue → msg ∈ m.state.received) (l : ListenerId) (msg : Message)
    (hmem : .message msg ∈ (m'.state.listener l).queue) : msg ∈ m'.state.received := by
  have hold := h.received hm
  cases h with
  | lapse hr now => exact hq l msg hmem
  | goes h =>
    have hpours := h.pours hm
    have hin : .message msg ∈ (m.state.listener l).queue ++ Loop.gift m m' l := by
      rw [← hpours.queue]
      exact List.mem_append_right _ hmem
    rcases List.mem_append.mp hin with hin | hin
    · exact hold (hq l msg hin)
    · unfold Loop.gift at hin
      split at hin
      · rcases List.mem_append.mp hin with hin | hin
        · obtain ⟨msg', hnews, heq⟩ := List.mem_map.mp hin
          cases heq
          exact List.mem_of_mem_drop hnews
        · obtain ⟨e, -, heq⟩ := List.mem_map.mp hin
          cases heq
      · cases hin

/-- **Whatever message a check comes to hold was received.** -/
theorem IsCheck.genuine (h : IsCheck surroundings files context limit (m :: past)) : m.IsGenuine := by
  refine (h.induction (P := fun m _ => m.IsGenuine) ⟨fun l msg hmem => ?_, fun {t th root} hth hroot => ?_,
    fun {t root v} hroot _ hv => ?_⟩ fun {role role' m m' past} hcheck hm hm' hmoves hg => ?_).2
  · cases hmem
  · obtain ⟨-, -, hfresh⟩ := Surroundings.thread?_loop hroot
    cases hth.symm.trans hfresh
    exact .fresh _ _
  · obtain ⟨-, -, hfresh⟩ := Surroundings.thread?_loop hroot
    have hsound := (surroundings.holds files context limit).fits.tidy.sound
    cases (hsound.taskOutcome?_of_thread? hfresh).symm.trans hv
  · have hmono := hmoves.received hm
    have htask : ∀ {t root}, m'.routine? t = some root →
        (∀ th', m'.thread? t = some th' → Thread.IsGenuine m'.state root th') ∧
          ∀ v, root.relays = true → m'.taskOutcome? t = some (.value v) → v.IsGenuine m'.state := by
      intro t root hroot
      cases hbefore : m.routine? t with
      | none =>
        have hfresh := hmoves.fresh hm hm' hbefore hroot
        refine ⟨fun th' hth' => ?_, fun v _ hv => ?_⟩
        · cases hth'.symm.trans hfresh
          exact .fresh _ _
        · cases (hm'.fits.tidy.sound.taskOutcome?_of_thread? hfresh).symm.trans hv
      | some r =>
        cases ((hmoves.keeps hm).routine hbefore).symm.trans hroot
        rcases hcheck.onward hbefore with ⟨th, hth⟩ | ⟨o, ho⟩
        · obtain ⟨hthreads, hgave⟩ := (hmoves.turn hm hm' hth).genuine hg hm.fits hm'.fits hth hbefore
          exact ⟨fun th' hth' => (hthreads th' hth').mono hmono, fun v hr hv => (hgave v hr hv).mono hmono⟩
        · have ho' := hmoves.ended hm hm' ho
          refine ⟨fun th' hth' => ?_, fun v hr hv => ?_⟩
          · cases (hm'.fits.tidy.sound.taskOutcome?_of_thread? hth').symm.trans ho'
          · cases ho'.symm.trans hv
            exact (hg.gave hbefore hr ho).mono hmono
    exact ⟨hmoves.queues hm hg.queues, fun hth hroot => (htask hroot).1 _ hth, fun hroot hr hv => (htask hroot).2 _ hr hv⟩

end DiagnosticsClient
