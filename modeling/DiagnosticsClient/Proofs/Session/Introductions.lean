import DiagnosticsClient.Proofs.Session.Answers
import DiagnosticsClient.Proofs.Session.Dealings
import DiagnosticsClient.Proofs.Session.Desk
import DiagnosticsClient.Proofs.Session.Mediums
import DiagnosticsClient.Proofs.Session.Pairs
import Mathlib.Data.List.Nodup
/-
Requests reach rehearsed transports in pairs.

Whoever asks for the diagnostics of a file makes a listener for the answer, opens it and
then sends two requests. Between the moment the listener is registered with a transport and
the second request nobody else runs, so a rehearsed transport is given the pair as a whole
(`IsInquiring.sendings`). Whether a pair is sent is a matter of its listener alone: the task
that has to open it is either still at that, and then nobody has registered the listener
unless the task goes on at once; or it has sent the pair to the transport with which the
listener was registered; or the listener never will be registered (`Introduction`).
Conversely a pair is sent only by the task that made the listener (`IsRun.introduced`).

With the numbers that each pair has for itself (`Tallied`), what a transport was given can
be told apart by number (`requests_paired`).
-/
namespace DiagnosticsClient

open Async Async.Machine

/-! ## What rehearsed transports are given -/

/-- The request that a rehearsed transport was given. -/
def Entry.sending? : Entry → Option (TransportId × Request)
  | .sent t r => some (t, r)
  | _ => none

namespace State

/-- The requests that rehearsed transports were given, in order, and to which. -/
def sendings (s : State) : List (TransportId × Request) := s.errands.filterMap Entry.sending?

theorem requests_eq (s : State) (t : TransportId) : s.requests t = (s.sendings.filter (·.1 = t)).map Prod.snd := by
  unfold requests sendings
  induction s.errands with
  | nil => rfl
  | cons e es ih =>
    cases e with
    | sent t' r =>
      simp only [List.filterMap_cons, Entry.sending?, ih]
      by_cases h : t' = t <;> simp [h]
    | _ => simpa [List.filterMap_cons, Entry.sending?] using ih

end State

/-- A pair of requests as a transport is given it. -/
def posted (x : TransportId × Request × Request) : List (TransportId × Request) := [(x.1, x.2.1), (x.1, x.2.2)]

/-- Somebody writes to a transport by himself. -/
def Stimulus.isWriting : Stimulus → Bool
  | .send _ => true
  | .write .. => true
  | .writeValue .. => true
  | _ => false

/-- The moments of a run over rehearsed transports, newest first, in which callers send requests by asking for diagnostics
only. -/
abbrev IsInquiring : List Moment → Prop := IsRunOver .rehearsals Stimulus.isWriting

namespace Loop

variable {role role' : FutureId → Role} {m m' : Loop} {t : TransportId} {u : TaskId} {x : RehearsedTransport}

theorem sendings_of_errands (h : m'.state.errands = m.state.errands) : m'.state.sendings = m.state.sendings := by
  unfold State.sendings
  rw [h]

/-- Whatever is sent while a rehearsed transport is current is given to it. -/
theorem send_rehearsed (hc : m.state.current = some t) (ht : m.state.transports[t]? = some (.rehearsed x)) (r : Request) :
    (m.send r).2 = none ∧ (m.send r).1.state.sendings = m.state.sendings ++ [(t, r)] ∧
      (m.send r).1.state.current = some t ∧ (m.send r).1.state.transports[t]? = some (.rehearsed x) := by
  have hnote : ∀ level text, (m.note level text).state.transports[t]? = some (.rehearsed x) := fun _ _ => ht
  refine ⟨?_, ?_, ?_, ?_⟩
  · simp only [send, hc, write, hnote]
  · rw [State.sendings, errands_send, hc, Option.bind_some, ht, List.filterMap_append]
    rfl
  · simp only [send, hc, write, hnote]
    exact hc
  · simp only [send, hc, write, hnote]
    exact ht

/-- Both requests of a pair are given to it, one right after the other. -/
theorem sendAll_rehearsed (hc : m.state.current = some t) (ht : m.state.transports[t]? = some (.rehearsed x))
    (opening asking : Request) : (m.sendAll [opening, asking]).2 = none ∧
      (m.sendAll [opening, asking]).1.state.sendings = m.state.sendings ++ posted (t, opening, asking) := by
  obtain ⟨hfirst, hlog, hc', ht'⟩ := send_rehearsed hc ht opening
  cases hm : m.send opening with
  | mk m₁ failure =>
    rw [hm] at hfirst hlog hc' ht'
    obtain rfl : failure = none := hfirst
    obtain ⟨hsecond, hlog', -, -⟩ := send_rehearsed hc' ht' asking
    cases hm' : m₁.send asking with
    | mk m₂ failure =>
      rw [hm'] at hsecond hlog'
      obtain rfl : failure = none := hsecond
      simp only [sendAll, hm, hm']
      refine ⟨trivial, hlog'.trans ?_⟩
      rw [hlog, List.append_assoc]
      rfl

/-- While there is no transport nothing is given to one. -/
theorem sendAll_idle (hc : m.state.current = none) (rs : List Request) : (m.sendAll rs).1.state.sendings = m.state.sendings := by
  induction rs generalizing m with
  | nil => rfl
  | cons r rs ih =>
    simp only [sendAll, send, hc]
    refine (ih ?_).trans ?_
    · exact hc
    · exact sendings_of_errands (errands_of_dealings (dealings_note _ _))

theorem exchangeOpened_fst (m : Loop) (l : ListenerId) (opening asking : Request) (v : Value) :
    (exchangeOpened l opening asking (.value v) m).1 = (m.sendAll [opening, asking]).1 := by
  unfold exchangeOpened
  dsimp only
  split <;> rename_i h <;> rw [h]

/-- Whatever a routine begins with gives nothing to a rehearsed transport. -/
theorem begin_sendings (m : Loop) (r : Routine) : (begin r m).1.state.sendings = m.state.sendings := by
  by_cases hend : ∃ t us, r = .endTasks t us
  · obtain ⟨t, us, rfl⟩ := hend
    have herrands := errands_endTasks (m := m) t us
    have hsignals : ∀ es : List Entry, (∃ c, es = [.signalled c .terminate]) ∨ es = [] →
        (m.state.errands ++ es).filterMap Entry.sending? = m.state.sendings := by
      rintro es (⟨c, rfl⟩ | rfl) <;> simp [State.sendings, Entry.sending?]
    refine (congrArg _ herrands).trans (hsignals _ ?_)
    split
    · exact .inl ⟨_, rfl⟩
    · exact .inr rfl
  · exact sendings_of_errands (begin_errands m fun t us h => hend ⟨t, us, h⟩)

/-- And so does whatever a frame goes on with, unless it sends a pair of requests. -/
theorem resume_sendings (m : Loop) {F : Frame} (hs : ∀ l opening asking, F ≠ .introducing l opening asking) (o : Ending) :
    (resume F o m).1.state.sendings = m.state.sendings := by
  by_cases hkill : ∃ c, F = .terminating c
  · obtain ⟨c, rfl⟩ := hkill
    rw [State.sendings, show (resume (.terminating c) o m).1.state.errands = _ from errands_terminateResumed c o,
      List.filterMap_append]
    split <;> simp [State.sendings, Entry.sending?]
  · exact sendings_of_errands (errands_of_dealings (resume_dealings m hs (fun c h => hkill ⟨c, h⟩) o))

/-- Nothing is given to a rehearsed transport from outside, unless somebody writes to it by himself. -/
theorem apply_sendings (m : Loop) {s : Stimulus} (hs : s.isWriting = false) : (m.apply s).1.state.sendings = m.state.sendings := by
  refine sendings_of_errands (apply_errands m (fun r h => ?_) fun t r h => ?_)
  · rw [h] at hs
    cases hs
  · rw [h] at hs
    cases hs

end Loop

section runs

variable {role role' : FutureId → Role} {a b : Moment} {past : List Moment} {u : TaskId} {l : ListenerId} {t : TransportId}

/-- **A step sends one pair of requests, or nothing.** -/
theorem Loop.Tick.sendings {m' : Loop} (ht : Loop.Tick role a.loop role' m')
    (hrehearsed : ∀ t, a.loop.state.current = some t → ∃ x, a.loop.state.transports[t]? = some (.rehearsed x)) :
    m'.state.sendings = a.loop.state.sendings ++ a.sends.toList.flatMap posted := by
  have hrest : a.sends = none → m'.state.sendings = a.loop.state.sendings →
      m'.state.sendings = a.loop.state.sendings ++ a.sends.toList.flatMap posted := fun hs h => by
    rw [h, hs]
    exact (List.append_nil _).symm
  cases ht with
  | awakes idle _ _ switch => exact hrest (by simp only [Moment.sends, idle]) (by rw [switch.state])
  | passes idle _ hstate => exact hrest (by simp only [Moment.sends, idle]) (by rw [hstate])
  | ends runs switch _ => exact hrest (by simp only [Moment.sends, runs]) (by rw [switch.state])
  | begins runs _ _ _ deed =>
    refine hrest (by simp only [Moment.sends, runs]) ?_
    rw [deed.state]
    exact Loop.begin_sendings _ _
  | @resumes u o F called root stack runs serves gets woke how deed =>
    by_cases hintro : ∃ l opening asking, F = .introducing l opening asking
    · obtain ⟨l, opening, asking, rfl⟩ := hintro
      cases o with
      | value v =>
        have hstate := deed.state.trans (congrArg Machine.state (Loop.exchangeOpened_fst a.loop l opening asking v))
        cases hc : a.loop.state.current with
        | none => exact hrest (by simp only [Moment.sends, runs, hc]) (by rw [hstate, Loop.sendAll_idle hc])
        | some t =>
          obtain ⟨x, hx⟩ := hrehearsed t hc
          rw [hstate, (Loop.sendAll_rehearsed hc hx opening asking).2]
          simp [Moment.sends, runs, hc]
      | _ => exact hrest (by simp only [Moment.sends, runs]) (by rw [deed.state]; rfl)
    · refine hrest ?_ ?_
      · unfold Moment.sends
        split
        · next hr _ =>
          cases runs.symm.trans hr
          exact absurd ⟨_, _, _, rfl⟩ hintro
        · rfl
      · rw [deed.state]
        exact Loop.resume_sendings _ (fun l opening asking h => hintro ⟨l, opening, asking, h⟩) _

/-- The current transport is rehearsed. -/
theorem IsRunOver.rehearsed {barred : Stimulus → Bool} (h : IsRunOver .rehearsals barred (a :: past)) (hc : a.loop.state.current = some t) :
    ∃ x, a.loop.state.transports[t]? = some (.rehearsed x) := by
  obtain ⟨hmedium, huniform⟩ := h.uniform
  obtain ⟨stage, hstage, -⟩ := h.isRun.career t
  have hlt : t < a.loop.state.transports.length := hstage.built.mpr (by rw [hstage.current.mp hc]; rfl)
  have hx := huniform _ (List.getElem_mem hlt)
  rw [List.getElem?_eq_getElem hlt]
  cases hget : a.loop.state.transports[t] with
  | rehearsed x => exact ⟨x, rfl⟩
  | child x =>
    rw [hget, hmedium] at hx
    cases hx

/-- **What rehearsed transports were given are the pairs of requests that were sent**, one after the other. -/
theorem IsInquiring.sendings (h : IsInquiring (a :: past)) : a.loop.state.sendings = (sent past).reverse.flatMap posted := by
  induction past generalizing a with
  | nil =>
    cases h with
    | new hnew hm =>
      obtain ⟨s, rfl⟩ := hnew
      rfl
  | cons b past ih =>
    have hsplit : (sent (b :: past)).reverse.flatMap posted = (sent past).reverse.flatMap posted ++ b.sends.toList.flatMap posted := by
      cases hs : b.sends with
      | none => simp [sent, hs]
      | some x => simp [sent, hs]
    obtain ⟨hb, role, role', hholds, -, hadvances⟩ := h.lastStep
    rw [hsplit, ← ih hb]
    cases hadvances with
    | tick hq ht => exact ht.sendings fun t hc => hb.rehearsed hc
    | stimulus hr ha hs =>
      rw [show b.sends = none by simp only [Moment.sends, hr]]
      exact (Loop.apply_sendings b.loop hs).trans (List.append_nil _).symm

/-- A listener that is not there yet was registered with nothing. -/
theorem IsRun.not_registeredOn (h : IsRun (a :: past)) (hl : a.loop.state.listeners.length ≤ l) : ¬ RegisteredOn l t (a :: past) := by
  have hnot : ∀ {c : Moment} {role : FutureId → Role}, c.Holds role → c.loop.state.listeners.length ≤ l →
      l ∉ c.loop.state.registered := fun hc hge hmem => by
    have hopened := hc.allotted.listed hmem
    simp [State.listener, List.getElem?_eq_none hge] at hopened
  induction past generalizing a with
  | nil =>
    obtain ⟨role, hholds⟩ := h.holds
    rintro ⟨c, hc, hmem, -⟩
    rw [List.mem_singleton.mp hc] at hmem
    exact hnot hholds hl hmem
  | cons b past ih =>
    obtain ⟨hb, role, role', hholds, hholds', hgoes⟩ := h.lastStep
    intro hreg
    rcases registeredOn_cons.mp hreg with ⟨hmem, -⟩ | hold
    · exact hnot hholds' hl hmem
    · exact ih hb (Nat.le_trans (hgoes.length hholds) hl) hold

end runs

/-! ## Whoever introduces himself -/

section opening

variable {role role' : FutureId → Role} {a b : Moment} {past : List Moment} {m m' : Loop} {u : TaskId} {l : ListenerId}
  {t : TransportId} {stack : List Frame} {th th' : Thread Routine Frame Value Failure} {o : Ending} {p : Request × Request}

/-- Whoever opens a listener keeps what he goes on with. -/
theorem Opens.suffix (h : Opens l stack m th) : stack <:+ th.stack := by
  cases h with
  | opens => exact List.suffix_refl _
  | registers => exact List.suffix_cons _ _
  | queues h =>
    have hbelow : stack <:+ .registering l :: .opening l :: stack := (List.suffix_cons _ _).trans (List.suffix_cons _ _)
    cases h with
    | begins => exact hbelow
    | got => exact hbelow
    | waits w => exact hbelow.trans (List.suffix_cons _ _)
    | woken w o => exact hbelow.trans (List.suffix_cons _ _)
  | starts t h => exact ((List.suffix_cons _ _).trans (List.suffix_cons _ _)).trans h
  | told => exact List.suffix_cons _ _
  | opened => exact List.suffix_refl _

/-- Whoever goes on with an outcome has been told what it means. -/
theorem Opens.informed (h : Opens l stack m ⟨.resumes o, stack⟩) : Informed l m o := by
  generalize hth : (⟨.resumes o, stack⟩ : Thread Routine Frame Value Failure) = th at h
  have hlength := congrArg (fun th => th.stack.length) hth
  cases h with
  | opens => cases hth
  | registers => cases hth
  | queues h =>
    cases h with
    | begins => cases hth
    | waits => cases hth
    | woken =>
      simp only [List.length_cons] at hlength
      omega
    | got =>
      simp only [List.length_cons] at hlength
      omega
  | starts t h =>
    have hle := h.length_le
    simp only [List.length_cons] at hle hlength
    omega
  | told => simp at hlength
  | opened h =>
    cases hth
    exact h

/-- Whoever is registered with a transport while he opens his listener has been told so. -/
theorem Opens.of_registered (h : Opens l stack a.loop th) (ha : a.Holds role) (hth : a.loop.thread? u = some th)
    (hl : l ∈ a.loop.state.registered) (hc : a.loop.state.current = some t) :
    ∃ v, th = ⟨.resumes (.value v), .opening l :: stack⟩ ∨ th = ⟨.resumes (.value v), stack⟩ := by
  have hright : Thread.right th ≠ some l := fun hright => (ha.allotted.opened ((Loop.view_right hth).trans hright)).2 hl
  have hvalue : ∀ {o}, Informed l a.loop o → ∃ v, o = .value v := fun {o} hinformed => by
    cases o with
    | value v => exact ⟨v, rfl⟩
    | _ => exact absurd hl (hinformed.refused fun v h => by cases h)
  cases h with
  | opens h => exact absurd hl h
  | registers => exact absurd rfl hright
  | queues h => cases h <;> exact absurd rfl hright
  | starts t' h =>
    have hnone := (ha.suits_of_starting hth (h.subset List.mem_cons_self)).1
    cases hnone.symm.trans hc
  | told h =>
    obtain ⟨v, rfl⟩ := hvalue h
    exact ⟨v, .inl rfl⟩
  | opened h =>
    obtain ⟨v, rfl⟩ := hvalue h
    exact ⟨v, .inr rfl⟩

/-- What has become of the pair of requests of a task that made a listener for its answer. -/
inductive Introduction (u : TaskId) (l : ListenerId) (p : Request × Request) (stack : List Frame) (a : Moment) (past : List Moment) :
    Prop
  /-- The listener is still to be opened, or its task has been told how that went. -/
  | opens {th : Thread Routine Frame Value Failure} (hth : a.loop.thread? u = some th)
      (h : Opens l (.introducing l p.1 p.2 :: stack) a.loop th) (hheld : l ∉ a.held)
      (hopened : th.top = .begins (.openListener l) ∨ (a.loop.state.listener l).opened = true)
      (hreg : ∀ t, RegisteredOn l t (a :: past) → ∃ v, th = ⟨.resumes (.value v), .opening l :: .introducing l p.1 p.2 :: stack⟩ ∨
        th = ⟨.resumes (.value v), .introducing l p.1 p.2 :: stack⟩)
  | sent {t : TransportId} (h : (t, p) ∈ DiagnosticsClient.sent past) (hreg : RegisteredOn l t (a :: past))
  | refused (h : a.Spends l) (hreg : ∀ t, ¬ RegisteredOn l t (a :: past))

/-- Whoever begins an exchange is about to open its listener, which nobody has registered. -/
theorem Goes.introduces (hg : Goes role a role' b) (ha : a.Holds role) (hb : b.Holds role')
    (hr : a.loop.running = some (.begin u (.exchange p.1 p.2) stack)) :
    b.loop.thread? u = some ⟨.begins (.openListener a.loop.state.listeners.length),
        .introducing a.loop.state.listeners.length p.1 p.2 :: stack⟩ ∧
      a.loop.state.listeners.length ∉ b.loop.state.registered := by
  obtain ⟨hstate, hth'⟩ := (hg.turn ha hb (thread?_of_running hr)).begun rfl
  refine ⟨hth', ?_⟩
  rw [hstate]
  intro hmem
  have hopened := ha.allotted.listed (l := a.loop.state.listeners.length) hmem
  simp [State.listener] at hopened

theorem Introduction.begins (hrun : IsRun (a :: past)) (ha : a.Holds role) (hb : b.Holds role') (hg : Goes role a role' b)
    (hr : a.loop.running = some (.begin u (.exchange p.1 p.2) stack)) :
    Introduction u a.loop.state.listeners.length p stack b (a :: past) := by
  obtain ⟨hth', hregistered⟩ := hg.introduces ha hb hr
  have hheld : b.held = a.held := by
    cases hg with
    | tick => rfl
    | stimulus hnot => cases hnot.symm.trans hr
  refine .opens hth' (.opens hregistered) (fun hmem => ?_) (.inl rfl) fun t hreg => ?_
  · rw [hheld] at hmem
    exact absurd (ha.known.listed hmem) (Nat.lt_irrefl _)
  · rcases registeredOn_cons.mp hreg with ⟨hmem, -⟩ | hold
    · exact absurd hmem hregistered
    · exact absurd hold (hrun.not_registeredOn (Nat.le_refl _))

/-- Whoever may register a listener has to do with it. -/
theorem Thread.uses_of_right (h : Thread.right th = some l) : Thread.Uses th l := by
  unfold Thread.right at h
  split at h
  · next l' htop =>
    cases h
    exact .inl ⟨_, .inr htop, rfl⟩
  · unfold rightOf at h
    split at h
    · next l' rest hstack =>
      cases h
      exact .inr ⟨_, by rw [hstack]; exact List.mem_cons_self, rfl⟩
    · next w l' rest hstack =>
      cases h
      exact .inr ⟨_, by rw [hstack]; exact List.mem_cons_of_mem _ List.mem_cons_self, rfl⟩
    · cases h

/-- Whoever could not open his listener is never registered. -/
theorem Moment.Holds.spends (ha : a.Holds role) (hth : a.loop.thread? u = some th) (huses : Thread.Uses th l) (hheld : l ∉ a.held)
    (hopened : (a.loop.state.listener l).opened = true) (hl : l ∉ a.loop.state.registered) (hright : Thread.right th ≠ some l) :
    a.Spends l := by
  refine ⟨hopened, hl, fun w hw => ?_⟩
  obtain ⟨th', hth', hright'⟩ := Option.bind_eq_some_iff.mp hw
  obtain rfl : w = u := ha.known.alone hth' hth (Thread.uses_of_right hright') huses hheld
  cases hth.symm.trans hth'
  exact hright hright'

/-- Whoever opens his listener has marked it as opened after the first step. -/
theorem Opens.listed (h : Opens l stack a.loop th) (ha : a.Holds role) (hb : b.Holds role') (hg : Goes role a role' b)
    (hth : a.loop.thread? u = some th) (hopened : th.top = .begins (.openListener l) ∨ (a.loop.state.listener l).opened = true) :
    (b.loop.state.listener l).opened = true := by
  cases hopens : (a.loop.state.listener l).opened with
  | true => exact hg.opened ha hb hopens
  | false =>
    have htop : th.top = .begins (.openListener l) := hopened.resolve_right (by simp [hopens])
    obtain ⟨top, stack'⟩ := th
    obtain rfl : top = _ := htop
    obtain ⟨hstate, -⟩ := (hg.turn ha hb hth).begun (by simp only [Loop.begin, Loop.openListener, hopens, Bool.false_eq_true, if_false]; rfl)
    have hlt : l < a.loop.state.listeners.length := ha.known.there hth (.inl ⟨_, .inr rfl, rfl⟩)
    rw [hstate]
    refine (congrArg Listener.opened (Loop.listener_modifyListener a.loop.state l l _)).trans ?_
    rw [if_pos ⟨rfl, hlt⟩]

/-- **What becomes of the pair of requests of a task** goes on in every step. -/
theorem Introduction.step (h : Introduction u l p stack a past) (ha : a.Holds role) (hb : b.Holds role') (hg : Goes role a role' b) :
    Introduction u l p stack b (a :: past) := by
  have hrefuse : a.Spends l → (∀ t, ¬ RegisteredOn l t (a :: past)) → Introduction u l p stack b (a :: past) := by
    intro hspent hreg
    have hspent' := hspent.shift (hg.shifts ha hb)
    refine .refused hspent' fun t hnew => ?_
    rcases registeredOn_cons.mp hnew with ⟨hmem, -⟩ | hold
    · exact hspent'.gone hmem
    · exact hreg t hold
  cases h with
  | sent h hreg => exact .sent (mem_sent_cons.mpr (.inr h)) (registeredOn_cons.mpr (.inr hreg))
  | refused h hreg => exact hrefuse h hreg
  | @opens th hth h hheld hopened hreg =>
    have huses : ∀ {th : Thread Routine Frame Value Failure} {m : Loop}, Opens l (.introducing l p.1 p.2 :: stack) m th →
        Thread.Uses th l := fun h => .inr ⟨_, h.suffix.subset List.mem_cons_self, rfl⟩
    have ht := hg.turn ha hb hth
    by_cases hend : ∃ o, th = ⟨.resumes o, .introducing l p.1 p.2 :: stack⟩
    · obtain ⟨o, rfl⟩ := hend
      have hinformed := h.informed
      cases o with
      | value v =>
        -- both requests are sent now
        obtain ⟨hl, t, hc⟩ := hinformed.registered v rfl
        obtain ⟨-, hr, -⟩ := ht.of_resumes
        refine .sent (t := t) (mem_sent_cons.mpr (.inl ?_)) (registeredOn_cons.mpr (.inr ⟨a, List.mem_cons_self, hl, hc⟩))
        simp only [Moment.sends, hr, hc]
      | _ =>
        refine hrefuse (ha.spends hth (huses h) hheld (hopened.resolve_left fun h => by cases h)
          (hinformed.refused fun v h => by cases h) fun h => by cases h)
          fun t hold => ?_
        obtain ⟨v, heq | heq⟩ := hreg t hold <;> cases heq
    · obtain ⟨o, heq, -⟩ | ⟨th', hth', h'⟩ := h.step ha hth ht
      · exact absurd ⟨o, heq⟩ hend
      · refine .opens hth' h' (fun hmem => hheld ?_) (.inr (h.listed ha hb hg hth hopened)) fun t hnew => ?_
        · obtain ⟨root, hroot, -⟩ := ha.fits.threads hth
          exact (ha.known.kind hth hroot (huses h)).mpr ((hb.known.kind hth' ((hg.keeps ha).routine hroot) (huses h')).mp hmem)
        · rcases registeredOn_cons.mp hnew with ⟨hl, hc⟩ | hold
          · exact h'.of_registered hb hth' hl hc
          · obtain ⟨v, rfl | rfl⟩ := hreg t hold
            · obtain ⟨-, hth''⟩ := ht.resumed rfl
              cases hth'.symm.trans hth''
              exact ⟨_, .inr rfl⟩
            · exact absurd ⟨_, rfl⟩ hend

/-- Whoever has made a listener for a pair of requests goes on as he should. -/
theorem IsRun.introduction {c : Moment} (h : IsRun (a :: past)) (hc : c ∈ past)
    (hr : c.loop.running = some (.begin u (.exchange p.1 p.2) stack)) : Introduction u c.loop.state.listeners.length p stack a past := by
  induction past generalizing a with
  | nil => cases hc
  | cons b past ih =>
    obtain ⟨hb, role, role', hholds, hholds', hgoes⟩ := h.lastStep
    rcases List.mem_cons.mp hc with rfl | hc
    · exact .begins hb hholds hholds' hgoes hr
    · exact (ih hb hc).step hholds hholds' hgoes

/-! ## Whoever sends requests has introduced himself -/

namespace Loop

variable {opening asking : Request} {called : Routine} {F : Frame} {n : Nat} {next : Move} {rest : List Frame}

/-- What is done next waits to send a pair of requests only in an exchange. -/
theorem MoveFits.introducing (h : MoveFits role m n called next)
    (hF : .introducing l opening asking :: rest <:+ (m'.nextThread stack next).stack) :
    .introducing l opening asking :: rest <:+ stack ∨ called.Exchanges opening asking := by
  cases h with
  | done => exact .inl hF
  | call _ hs =>
    rcases List.suffix_cons_iff.mp hF with heq | hF
    · cases heq
      cases hs with
      | introducing hx => exact .inr hx
    · exact .inl hF
  | become => exact .inl hF
  | await _ hawaits =>
    rw [stack_nextThread_await] at hF
    rcases List.suffix_cons_iff.mp hF with heq | hF
    · cases heq
      cases hawaits
    · exact .inl hF

/-- Whatever an exchange goes on with sends no other pair of requests. -/
theorem introducing_resume (hs : F.Serves m.routine? called) (hx : called.Exchanges opening asking)
    (hF : .introducing l opening asking :: rest <:+ (m'.nextThread stack (resume F o m).2).stack) :
    .introducing l opening asking :: rest <:+ stack := by
  have hcall : ∀ {r : Routine} {G : Frame}, G.pairs = [] →
      .introducing l opening asking :: rest <:+ (m'.nextThread stack (.call r G)).stack →
      .introducing l opening asking :: rest <:+ stack := by
    intro r G hG hsuffix
    refine (List.suffix_cons_iff.mp hsuffix).resolve_left fun heq => ?_
    cases heq
    cases hG
  cases hs with
  | introducing =>
    simp only [resume, exchangeOpened] at hF
    split at hF
    · split at hF <;> exact hcall rfl hF
    · exact hF
  | expecting =>
    simp only [resume, exchangeResumed] at hF
    split at hF
    · split at hF <;> exact hcall rfl hF
    · exact hcall rfl hF
    · exact hcall rfl hF
    · exact hcall rfl hF
  | finishing =>
    simp only [resume, cleanedUp] at hF
    split at hF <;> exact hF
  | _ => cases hx

/-- Whoever waits to send a pair of requests did so before, or has just made a listener for it. -/
theorem Turn.introducing (ht : Turn role m u th role' m') (hf' : Fits role' m') (hth' : m'.thread? u = some th')
    (hF : .introducing l opening asking :: rest <:+ th'.stack) : .introducing l opening asking :: rest <:+ th.stack ∨
      m.running = some (.begin u (.exchange opening asking) rest) ∧ l = m.state.listeners.length := by
  cases ht with
  | rests _ _ hsame => exact .inl (by cases hsame.symm.trans hth'; exact hF)
  | awakes how switch =>
    cases switch.self.symm.trans hth'
    cases how with
    | begins => exact .inl hF
    | dropped => cases List.suffix_nil.mp hF
    | resumes => exact .inl hF
    | interrupted => exact .inl hF
  | ends outcome => cases (hf'.tidy.sound.taskOutcome?_of_thread? hth').symm.trans outcome
  | @begins _ r called root stack runs valid stands how deed =>
    cases deed.switch.self.symm.trans hth'
    by_cases hexchange : ∃ o a, r = .exchange o a
    · obtain ⟨o, a, rfl⟩ := hexchange
      rcases List.suffix_cons_iff.mp hF with heq | hF
      · cases heq
        exact .inr ⟨runs, rfl⟩
      · exact .inl hF
    · rcases MoveFits.introducing deed.does.move hF with hold | hx
      · exact .inl hold
      · cases stands with
        | refl =>
          cases hx with
          | exchange => exact absurd ⟨_, _, rfl⟩ hexchange
          | request => exact .inl hF
        | exchange => exact absurd ⟨_, _, rfl⟩ hexchange
        | endTasks => cases hx
  | resumes runs serves gets how deed =>
    cases deed.switch.self.symm.trans hth'
    refine .inl (List.IsSuffix.trans ?_ (List.suffix_cons _ _))
    rcases MoveFits.introducing deed.does.move hF with hold | hx
    · exact hold
    · exact introducing_resume serves hx hF

end Loop

/-- **Whoever waits to send a pair of requests** has made a listener for it, and is opening that. -/
theorem IsRun.introduced {opening asking : Request} (h : IsRun (a :: past)) (hth : a.loop.thread? u = some th)
    (hF : .introducing l opening asking :: stack <:+ th.stack) :
    (∃ c ∈ past, c.loop.running = some (.begin u (.exchange opening asking) stack) ∧ l = c.loop.state.listeners.length) ∧
      Opens l (.introducing l opening asking :: stack) a.loop th := by
  induction past generalizing a th with
  | nil =>
    cases h with
    | new hnew =>
      rw [hnew.isEmpty.thread?] at hth
      cases hth
  | cons b past ih =>
    obtain ⟨hb, role, role', hholds, hholds', hgoes⟩ := h.lastStep
    rcases hb.was hholds hholds' hgoes hth with ⟨th₀, hth₀⟩ | ⟨-, root, -, rfl⟩
    · have ht := hgoes.turn hholds hholds' hth₀
      rcases ht.introducing hholds'.fits hth hF with hold | ⟨hr, rfl⟩
      · obtain ⟨⟨c, hc, hintro⟩, hopens⟩ := ih hb hth₀ hold
        refine ⟨⟨c, List.mem_cons_of_mem _ hc, hintro⟩, ?_⟩
        rcases hopens.step hholds hth₀ ht with ⟨o, rfl, -⟩ | ⟨th', hth', hopens'⟩
        · -- whoever goes on has nothing more to do with the pair
          obtain ⟨-, -, called, root, serves, -, deed, hloop⟩ := ht.of_resumes
          cases (hloop ▸ deed.switch.self).symm.trans hth
          have hbelow : .introducing l opening asking :: stack <:+ stack := by
            rcases Loop.MoveFits.introducing deed.does.move hF with hold | hx
            · exact hold
            · exact Loop.introducing_resume serves hx hF
          exact absurd hbelow.length_le (by simp)
        · cases hth.symm.trans hth'
          exact hopens'
      · obtain ⟨hth', hregistered⟩ := hgoes.introduces (p := (opening, asking)) hholds hholds' hr
        cases hth.symm.trans hth'
        exact ⟨⟨b, List.mem_cons_self, hr, rfl⟩, .opens hregistered⟩
    · cases List.suffix_nil.mp hF

end opening

/-! ## Pairs are whole -/

namespace Query

/-- A request has one of the two numbers. -/
def has (q : Query) (r : Request) : Bool := r.seq == q.opening.seq || r.seq == q.asking.seq

/-- Whoever asked made a listener for the answer, and it was registered with a transport. -/
def RegisteredOn (q : Query) (t : TransportId) (moments : List Moment) : Prop :=
  ∃ c ∈ moments, ∃ u stack, c.loop.running = some (.begin u (.exchange q.opening q.asking) stack) ∧
    DiagnosticsClient.RegisteredOn c.loop.state.listeners.length t moments

theorem filter_posted (q : Query) (t : TransportId) : (posted (t, q.pair)).filter (fun x => q.has x.2) = posted (t, q.pair) := by
  simp [posted, pair, has]

/-- Who was given other numbers sends no request with these. -/
theorem filter_posted_of_apart {q q' : Query} (h : q.number + 2 ≤ q'.number ∨ q'.number + 2 ≤ q.number) (t : TransportId) :
    (posted (t, q'.pair)).filter (fun x => q.has x.2) = [] := by
  simp only [posted, pair, has, List.filter_eq_nil_iff, List.mem_cons, List.not_mem_nil, or_false, forall_eq_or_imp, forall_eq,
    seq_opening, seq_asking, Bool.or_eq_true, beq_iff_eq]
  omega

theorem filter_flatMap_posted {q : Query} {xs : List (TransportId × Request × Request)}
    (h : ∀ x ∈ xs, ∃ q' : Query, x.2 = q'.pair ∧ (q.number + 2 ≤ q'.number ∨ q'.number + 2 ≤ q.number)) :
    (xs.flatMap posted).filter (fun x => q.has x.2) = [] := by
  rw [List.filter_flatMap, List.flatMap_eq_nil_iff]
  rintro ⟨t, p⟩ hx
  obtain ⟨q', rfl, hapart⟩ := h _ hx
  exact filter_posted_of_apart hapart t

end Query

section pairs

variable {a : Moment} {past : List Moment} {q q' : Query} {t : TransportId}

theorem Tallied.apart_of_ne (h : Tallied a past) (hq : q ∈ queries past) (hq' : q' ∈ queries past) (hne : q ≠ q') :
    q.number + 2 ≤ q'.number ∨ q'.number + 2 ≤ q.number := by
  obtain ⟨i, hi, rfl⟩ := List.mem_iff_getElem.mp hq
  obtain ⟨j, hj, rfl⟩ := List.mem_iff_getElem.mp hq'
  rcases Nat.lt_trichotomy i j with hlt | rfl | hlt
  · exact .inr (List.pairwise_iff_getElem.mp h.apart i j hi hj hlt)
  · exact absurd rfl hne
  · exact .inl (List.pairwise_iff_getElem.mp h.apart j i hj hi hlt)

/-- What was sent at two times are the pairs of two who asked, and their numbers differ. -/
theorem Tallied.sent_apart (h : Tallied a past) : (sent past).reverse.Pairwise fun x y => ∃ q q' : Query,
    x.2 = q.pair ∧ y.2 = q'.pair ∧ (q.number + 2 ≤ q'.number ∨ q'.number + 2 ≤ q.number) := by
  refine List.pairwise_reverse.mpr ((List.pairwise_map.mp h.sentOnce).imp_of_mem fun {x y} hx hy hne => ?_)
  obtain ⟨q, hq, hxq⟩ := h.sentOwed x hx
  obtain ⟨q', hq', hyq⟩ := h.sentOwed y hy
  refine ⟨q', q, hyq, hxq, h.apart_of_ne hq' hq ?_⟩
  rintro rfl
  exact hne (hxq.trans hyq.symm)

/-- No number is sent twice. -/
theorem Tallied.nodup (h : Tallied a past) : (((sent past).reverse.flatMap posted).map fun x => x.2.seq).Nodup := by
  rw [List.map_flatMap, List.nodup_flatMap]
  refine ⟨fun x hx => ?_, h.sent_apart.imp fun {x y} hxy => ?_⟩
  · obtain ⟨t, p⟩ := x
    obtain ⟨q, -, rfl⟩ := h.sentOwed _ (List.mem_reverse.mp hx)
    simp only [posted, Query.pair, List.map_cons, List.map_nil, Query.seq_opening, Query.seq_asking, List.nodup_cons,
      List.mem_singleton, List.not_mem_nil, not_false_eq_true, List.nodup_nil, and_true]
    omega
  · obtain ⟨t, p⟩ := x
    obtain ⟨t', p'⟩ := y
    obtain ⟨q, q', rfl, rfl, hapart⟩ := hxy
    intro n hn hn'
    simp only [posted, Query.pair, List.map_cons, List.map_nil, Query.seq_opening, Query.seq_asking, List.mem_cons,
      List.not_mem_nil, or_false] at hn hn'
    omega

/-- **A pair of requests that is sent is there whole**, and nothing else has its numbers. -/
theorem Tallied.whole (h : Tallied a past) (hs : (t, q.pair) ∈ sent past) :
    ((sent past).reverse.flatMap posted).filter (fun x => q.has x.2) = posted (t, q.pair) ∧
      posted (t, q.pair) <:+: (sent past).reverse.flatMap posted := by
  obtain ⟨before, after, hsplit⟩ := List.append_of_mem (List.mem_reverse.mpr hs)
  have hapart := h.sent_apart
  rw [hsplit] at hapart ⊢
  obtain ⟨-, hlater, hearlier⟩ := List.pairwise_append.mp hapart
  have hbefore : (before.flatMap posted).filter (fun x => q.has x.2) = [] := Query.filter_flatMap_posted fun x hx => by
    obtain ⟨q₁, q₂, hx₁, hx₂, hne⟩ := hearlier x hx _ List.mem_cons_self
    exact ⟨q₁, hx₁, by rw [Query.number_of_pair hx₂]; exact hne.symm⟩
  have hafter : (after.flatMap posted).filter (fun x => q.has x.2) = [] := Query.filter_flatMap_posted fun x hx => by
    obtain ⟨q₁, q₂, hx₁, hx₂, hne⟩ := (List.pairwise_cons.mp hlater).1 x hx
    exact ⟨q₂, hx₂, by rw [Query.number_of_pair hx₁]; exact hne⟩
  rw [List.flatMap_append, List.flatMap_cons]
  refine ⟨?_, before.flatMap posted, after.flatMap posted, by rw [List.append_assoc]⟩
  rw [List.filter_append, List.filter_append, hbefore, hafter, q.filter_posted, List.append_nil, List.nil_append]

/-- While a pair of requests is not sent, nothing is that has its numbers. -/
theorem Tallied.nothing (h : Tallied a past) (hq : q ∈ queries past) (hs : ∀ t, (t, q.pair) ∉ sent past) :
    ((sent past).reverse.flatMap posted).filter (fun x => q.has x.2) = [] := by
  refine Query.filter_flatMap_posted fun x hx => ?_
  obtain ⟨q', hq', hx'⟩ := h.sentOwed x (List.mem_reverse.mp hx)
  refine ⟨q', hx', h.apart_of_ne hq hq' ?_⟩
  rintro rfl
  exact hs x.1 (hx' ▸ List.mem_reverse.mp hx)

/-- A pair of requests is sent to the transport with which the listener for its answer is registered. -/
theorem IsRun.registeredOn_of_sent (h : IsRun (a :: past)) (hs : (t, q.pair) ∈ sent past) : q.RegisteredOn t (a :: past) := by
  obtain ⟨c, hc, hsends⟩ := List.mem_filterMap.mp hs
  obtain ⟨hcurrent, u, v, l, stack, hr⟩ := Moment.sends_eq_some hsends
  obtain ⟨newer, older, rfl⟩ := List.append_of_mem hc
  have hrun : IsRun (c :: older) := @IsRun.upTo c (a :: newer) older h
  obtain ⟨⟨d, hd, hbegins, rfl⟩, hopens⟩ := hrun.introduced (thread?_of_running hr) (List.suffix_refl _)
  obtain ⟨hl, -⟩ := hopens.informed.registered v rfl
  exact ⟨d, List.mem_cons_of_mem _ (List.mem_append_right _ (List.mem_cons_of_mem _ hd)), u, stack, hbegins,
    c, List.mem_cons_of_mem _ hc, hl, hcurrent⟩

/-- And it is sent as soon as that is registered. -/
theorem IsRun.sent_of_registeredOn (h : IsRun (a :: past)) (hr : a.loop.running = none) (hq : q.RegisteredOn t (a :: past)) :
    (t, q.pair) ∈ sent past := by
  obtain ⟨c, hc, u, stack, hbegins, hreg⟩ := hq
  have hc : c ∈ past := by
    rcases List.mem_cons.mp hc with rfl | hc
    · cases hr.symm.trans hbegins
    · exact hc
  cases h.introduction (p := q.pair) hc hbegins with
  | opens hth _ _ _ hopening =>
    -- whoever has been told that he is registered goes on at once
    obtain ⟨v, rfl | rfl⟩ := hopening t hreg <;>
    · obtain ⟨r, hr', -⟩ := running_of_thread? hth rfl
      cases hr.symm.trans hr'
  | sent hsent hreg' =>
    cases h.registeredOn_unique hreg hreg'
    exact hsent
  | refused _ hnone => exact absurd hreg (hnone t)

end pairs

/-! ## Every pair is given whole, and once -/

theorem queries_of_rests {a : Moment} {past : List Moment} (hr : a.loop.running = none) : queries (a :: past) = queries past := by
  simp only [queries, List.flatMap_cons, Moment.queries, hr, List.nil_append]

/-- **Requests are given to rehearsed transports in pairs.** Whoever asked for the diagnostics of a file and was registered with
a transport has given it two requests for that file with consecutive numbers, right one after the other, and nothing else has
these numbers; if he was registered with none, none has them. All that transports were given are such pairs, and no number
occurs twice. -/
theorem requests_paired {a : Moment} {past : List Moment} (h : IsInquiring (a :: past)) (hr : a.loop.running = none) :
    (∀ q ∈ queries (a :: past),
      (∀ t, q.RegisteredOn t (a :: past) →
        a.loop.state.sendings.filter (fun x => q.has x.2) = [(t, q.opening), (t, q.asking)] ∧
          [q.opening, q.asking] <:+: a.loop.state.requests t) ∧
      ((∀ t, ¬ q.RegisteredOn t (a :: past)) → a.loop.state.sendings.filter (fun x => q.has x.2) = []) ∧
      q.asking.seq = q.opening.seq + 1) ∧
      (∀ x ∈ a.loop.state.sendings, ∃ q ∈ queries (a :: past),
        q.RegisteredOn x.1 (a :: past) ∧ (x.2 = q.opening ∨ x.2 = q.asking)) ∧
      (a.loop.state.sendings.map fun x => x.2.seq).Nodup := by
  have hrun := h.isRun
  have htallied := hrun.tallied
  rw [queries_of_rests hr, h.sendings]
  refine ⟨fun q hq => ⟨fun t hreg => ?_, fun hnone => ?_, q.seq_asking⟩, fun x hx => ?_, htallied.nodup⟩
  · obtain ⟨honly, hinside⟩ := htallied.whole (hrun.sent_of_registeredOn hr hreg)
    refine ⟨honly, ?_⟩
    rw [State.requests_eq, h.sendings]
    have hlog := (hinside.filter fun x => x.1 = t).map Prod.snd
    simpa [posted, Query.pair] using hlog
  · exact htallied.nothing hq fun t hs => hnone t (hrun.registeredOn_of_sent hs)
  · obtain ⟨⟨t, p⟩, hsent, hposted⟩ := List.mem_flatMap.mp hx
    rw [List.mem_reverse] at hsent
    obtain ⟨q, hq, rfl⟩ := htallied.sentOwed _ hsent
    refine ⟨q, hq, ?_⟩
    rcases List.mem_cons.mp hposted with rfl | hposted
    · exact ⟨hrun.registeredOn_of_sent hsent, .inl rfl⟩
    · cases List.mem_singleton.mp hposted
      exact ⟨hrun.registeredOn_of_sent hsent, .inr rfl⟩

theorem isInquiring_askedSession : IsInquiring (askedSession.1 :: askedSession.2) := by
  have hnew : IsInquiring [({ loop := { state := { medium := .rehearsals } } } : Moment)] := .new ⟨{ medium := .rehearsals }, rfl⟩ rfl
  have hfirst := @IsRunOver.pursue _ _ (.ask (.request (.str (lit "a.ts")) none)) (_, []) hnew rfl ⟨rfl, fun l hl => by cases hl⟩ rfl 60
  exact hfirst.pursue (s := .ask (.request (.str (lit "b.ts")) none)) (by decide +kernel) ⟨rfl, fun l hl => by cases hl⟩ rfl 60

/-- Two who ask for a file each have given a transport a pair each. -/
theorem requests_paired_when_two_ask : ∃ a past, IsInquiring (a :: past) ∧ a.loop.running = none ∧
    a.loop.state.sendings.map (fun x => (x.1, x.2.seq)) = [(0, 0), (0, 1), (0, 2), (0, 3)] ∧
    ∀ x ∈ a.loop.state.sendings, ∃ q ∈ queries (a :: past),
      q.RegisteredOn x.1 (a :: past) ∧ [q.opening, q.asking] <:+: a.loop.state.requests x.1 := by
  have hrests : askedSession.1.loop.running = none := Option.isNone_iff_eq_none.mp (by decide +kernel)
  obtain ⟨hpairs, hwhose, -⟩ := requests_paired isInquiring_askedSession hrests
  refine ⟨_, _, isInquiring_askedSession, hrests, by decide +kernel, fun x hx => ?_⟩
  obtain ⟨q, hq, hreg, -⟩ := hwhose x hx
  exact ⟨q, hq, hreg, ((hpairs q hq).1 x.1 hreg).2⟩

end DiagnosticsClient
