import DiagnosticsClient.Proofs.Session.Tasks
import DiagnosticsClient.Proofs.Session.Apart
import DiagnosticsClient.Proofs.Session.Multicast
/-
How an exchange goes.

Whoever asks for diagnostics opens a listener of his own, sends two requests, takes what
the listener is given until an item of it decides the exchange (`verdict`), and leaves.
`Inquiry` has a case for each point on this way: up to the decision the listener is open,
has not ended, and nothing was taken from it that decides; afterwards what was taken
decides the exchange as it is going to end.

`Inquiry.turn` says that a step goes from one point to another, if it is not one in which
the transport cannot be started or stopped, or a request cannot be written.
-/
namespace DiagnosticsClient

open Async Async.Machine

/-- The ending of an exchange that an item decides. -/
def Delivery.decides (asking : Request) : Delivery → Option Ending
  | .message (.response r) => if r.answers asking then some (.value (.message (.response r))) else none
  | .message _ => none
  | .ended none => some (.failed (.unanswered asking.command asking.seq))
  | .ended (some e) => some (.failed (.server e))

/-- The ending of an exchange that the first item to do so decides. -/
def verdict (asking : Request) (ds : List Delivery) : Option Ending := ds.findSome? (Delivery.decides asking)

theorem verdict_append_of_some {asking : Request} {ds : List Delivery} {e : Ending} (h : verdict asking ds = some e)
    (ds' : List Delivery) : verdict asking (ds ++ ds') = some e := by
  rw [verdict, List.findSome?_append, ← verdict, h]
  rfl

theorem verdict_concat {asking : Request} {ds : List Delivery} (h : verdict asking ds = none) (d : Delivery) :
    verdict asking (ds ++ [d]) = d.decides asking := by
  rw [verdict, List.findSome?_append, ← verdict, h, Option.none_or, List.findSome?_singleton]

/-- What a task is going on with from a listener. -/
def Thread.takes (l : ListenerId) (th : Thread Routine Frame Value Failure) : List Delivery :=
  match Thread.receipt th with
  | some (l', d) => if l' = l then [d] else []
  | none => []

namespace Loop

/-- The transport that a task starts or stops has failed to. -/
def balks (m : Loop) (u : TaskId) : Bool :=
  match m.running with
  | some (.resume t o (F :: _)) => t = u && F.hold.isSome && !o.isValue
  | _ => false

/-- A task cannot write the requests of its exchange. -/
def mutes (m : Loop) (u : TaskId) : Bool :=
  match m.running with
  | some (.resume t (.value _) (.introducing _ opening asking :: _)) => t = u && (m.sendAll [opening, asking]).2.isSome
  | _ => false

/-- A listener has not ended, nobody waits for it, and nothing that was taken from it decides. -/
structure Attends (m : Loop) (asking : Request) (l : ListenerId) (isOpen : Bool) (ds : List Delivery) : Prop where
  opened : (m.state.listener l).opened = isOpen
  ended : (m.state.listener l).ended = false
  spent : ∀ g ∈ (m.state.listener l).getters, m.isSettled g = true
  undecided : verdict asking ds = none

/-- And one waits for it: while he is not woken, there is nothing to take. -/
structure Listens (m : Loop) (asking : Request) (l : ListenerId) (g : FutureId) (ds : List Delivery) : Prop where
  opened : (m.state.listener l).opened = true
  ended : (m.state.listener l).ended = false
  spent : ∀ g' ∈ (m.state.listener l).getters, g' ≠ g → m.isSettled g' = true
  empty : m.isSettled g = false → g ∈ (m.state.listener l).getters ∧ (m.state.listener l).queue = []
  undecided : verdict asking ds = none

end Loop

/-- A task is about to get the lock, or has just got it, and goes on with `stack`. -/
inductive Locks (stack : List Frame) : Thread Routine Frame Value Failure → Prop
  | begins : Locks stack ⟨.begins .acquireLock, stack⟩
  | waits (w : FutureId) : Locks stack ⟨.waits w, .locking w :: stack⟩
  | woken (w : FutureId) (v : Value) : Locks stack ⟨.resumes (.value v), .locking w :: stack⟩
  | got (v : Value) : Locks stack ⟨.resumes (.value v), stack⟩

/-- How far an exchange has got that `base` waits for, when `ds` was taken from its listener. -/
inductive Inquiry (asking : Request) (l : ListenerId) (base : List Frame) (m : Loop) (ds : List Delivery) :
    Thread Routine Frame Value Failure → Prop
  | opens (opening : Request) (h : m.Attends asking l false ds) :
      Inquiry asking l base m ds ⟨.begins (.openListener l), .introducing l opening asking :: base⟩
  | registers (opening : Request) (h : m.Attends asking l true ds) :
      Inquiry asking l base m ds ⟨.begins (.register l), .opening l :: .introducing l opening asking :: base⟩
  | enters {th : Thread Routine Frame Value Failure} (opening : Request) (h : m.Attends asking l true ds)
      (ht : Locks (.registering l :: .opening l :: .introducing l opening asking :: base) th) : Inquiry asking l base m ds th
  | starts {th : Thread Routine Frame Value Failure} (opening : Request) (t : TransportId) (h : m.Attends asking l true ds)
      (ht : (.starting l t :: .opening l :: .introducing l opening asking :: base) <:+ th.stack) : Inquiry asking l base m ds th
  | opened (opening : Request) (v : Value) (h : m.Attends asking l true ds) :
      Inquiry asking l base m ds ⟨.resumes (.value v), .opening l :: .introducing l opening asking :: base⟩
  | introduced (opening : Request) (v : Value) (h : m.Attends asking l true ds) :
      Inquiry asking l base m ds ⟨.resumes (.value v), .introducing l opening asking :: base⟩
  | asks (h : m.Attends asking l true ds) : Inquiry asking l base m ds ⟨.begins (.next l), .expecting l asking :: base⟩
  | takes (h : m.Attends asking l true ds) : Inquiry asking l base m ds ⟨.begins (.take l), .receiving l :: .expecting l asking :: base⟩
  | waits (g : FutureId) (h : m.Listens asking l g ds) :
      Inquiry asking l base m ds ⟨.waits g, .getting l g :: .receiving l :: .expecting l asking :: base⟩
  | woken (g : FutureId) (v : Value) (h : m.Attends asking l true ds) :
      Inquiry asking l base m ds ⟨.resumes (.value v), .getting l g :: .receiving l :: .expecting l asking :: base⟩
  | took {old : List Delivery} (d : Delivery) (h : m.Attends asking l true old) (hds : ds = old ++ [d]) :
      Inquiry asking l base m ds ⟨.resumes (.value (.delivery d)), .receiving l :: .expecting l asking :: base⟩
  | got {old : List Delivery} (message : Message) (h : m.Attends asking l true old) (hds : ds = old ++ [.message message]) :
      Inquiry asking l base m ds ⟨.resumes (.value (.message message)), .expecting l asking :: base⟩
  | broke {e : Ending} (failure : Failure) (h : verdict asking ds = some e)
      (hf : failure = .endOfStream ∧ e = .failed (.unanswered asking.command asking.seq) ∨
        ∃ error, failure = .server error ∧ e = .failed (.server error)) :
      Inquiry asking l base m ds ⟨.resumes (.failed failure), .expecting l asking :: base⟩
  | leaves {e : Ending} (h : verdict asking ds = some e) : Inquiry asking l base m ds ⟨.begins (.closeListener l), .finishing e :: base⟩
  | exits {th : Thread Routine Frame Value Failure} {e : Ending} (h : verdict asking ds = some e)
      (ht : Locks (.leaving l :: .finishing e :: base) th) : Inquiry asking l base m ds th
  | stops {th : Thread Routine Frame Value Failure} {e : Ending} (h : verdict asking ds = some e)
      (ht : (.releasing :: .finishing e :: base) <:+ th.stack) : Inquiry asking l base m ds th
  | left {e : Ending} (v : Value) (h : verdict asking ds = some e) : Inquiry asking l base m ds ⟨.resumes (.value v), .finishing e :: base⟩
  | finished {e : Ending} (h : verdict asking ds = some e) : Inquiry asking l base m ds ⟨.resumes e, base⟩

/-- Where an exchange is after a step. -/
def Inquiry.Next (asking : Request) (l : ListenerId) (base : List Frame) (u : TaskId) (ds : List Delivery) (m : Loop) : Prop :=
  ∃ th, m.thread? u = some th ∧ Inquiry asking l base m (ds ++ Thread.takes l th) th

section threads

variable {roots : TaskId → Option Routine} {root called r : Routine} {F : Frame} {stack : List Frame} {l : ListenerId}
  {th : Thread Routine Frame Value Failure} {u : TaskId} {asking : Request} {m : Loop} {ds : List Delivery} {base : List Frame}

theorem Thread.about_of_isIdle (h : th.top.isIdle = true) : Thread.about th = none := by
  obtain ⟨top, stack⟩ := th
  cases top <;> first | rfl | cases h

theorem Thread.takes_of_receipt (h : Thread.receipt th = none) : Thread.takes l th = [] := by
  rw [Thread.takes, h]

/-- Where the exchange is, if nothing was taken in the step. -/
theorem Inquiry.Next.reached (h : Inquiry asking l base m ds th) (hth : m.thread? u = some th) (hr : Thread.takes l th = []) :
    Inquiry.Next asking l base u ds m :=
  ⟨th, hth, by rwa [hr, List.append_nil]⟩

/-! ## Who drives transports -/

theorem Frame.Serves.about_of_isDriving (h : F.Serves roots called) (hd : called.isDriving = true) : F.about = none := by
  cases h with
  | finishing hx => rfl
  | introducing hx => cases hx <;> cases hd
  | expecting hx => cases hx <;> cases hd
  | _ => first | rfl | cases hd

theorem Routine.StandsFor.about_of_isDriving (h : r.StandsFor called) (hd : called.isDriving = true) : r.about = none := by
  cases h with
  | refl => exact Loop.Routine.about_of_isDriving hd
  | exchange => cases hd
  | endTasks => rfl

/-- Who has a frame that holds the lock below is driving a transport. -/
theorem Stacked.isDriving_of_mem (h : Stacked roots root called stack) (hF : F ∈ stack) (hne : F.hold ≠ none) :
    called.isDriving = true := by
  cases hd : called.isDriving with
  | true => rfl
  | false => exact absurd (h.hold_eq_none hd F hF) hne

end threads

namespace Loop

variable {role role' : FutureId → Role} {m m' : Loop} {u : TaskId} {l : ListenerId} {g : FutureId} {called r : Routine}
  {F : Frame} {stack : List Frame} {o e : Ending} {th : Thread Routine Frame Value Failure} {asking opening : Request}
  {ds ds' : List Delivery} {isOpen isOpen' : Bool} {t : TransportId} {v : Value} {d : Delivery} {base : List Frame}

/-! ## What stays of a listener -/

theorem Keeps.isSettled (h : m.Keeps m') (hp : m.IsPlain g) (hg : m.isSettled g = true) : m'.isSettled g = true := by
  obtain ⟨o, ho⟩ := isSettled_iff.mp hg
  exact isSettled_iff.mpr ⟨o, h.outcome hp ho⟩

/-- One who waited for the listener may have left, and it may have been opened. -/
theorem Attends.move (h : m.Attends asking l isOpen ds) (ht : m.Tidy role) (hk : m.Keeps m')
    (ho : (m'.state.listener l).opened = isOpen') (he : (m'.state.listener l).ended = (m.state.listener l).ended)
    (hg : ∀ g ∈ (m'.state.listener l).getters, g ∈ (m.state.listener l).getters) : m'.Attends asking l isOpen' ds where
  opened := ho
  ended := he.trans h.ended
  spent g hmem := hk.isSettled (ht.getter (hg g hmem)).1 (h.spent g (hg g hmem))
  undecided := h.undecided

/-- Nothing happens to the listener. -/
theorem Attends.same (h : m.Attends asking l isOpen ds) (hl : m'.state.listener l = m.state.listener l) (ht : m.Tidy role)
    (hk : m.Keeps m') : m'.Attends asking l isOpen ds :=
  h.move ht hk (by rw [hl, h.opened]) (by rw [hl]) fun g hg => by rwa [hl] at hg

theorem Listens.given (h : m.Listens asking l g ds) (hg : Given l ds' m m') (ht : m.Tidy role) (hk : m.Keeps m')
    (hplain : m.IsPlain g) (hl : l < m.state.listeners.length) : m'.Listens asking l g ds where
  opened := hg.opened.trans h.opened
  ended := hg.ended.trans h.ended
  spent g' hmem hne := hk.isSettled (ht.getter (hg.getters g' hmem)).1 (h.spent g' (hg.getters g' hmem) hne)
  empty hun := by
    have hun' : m.isSettled g = false := Bool.eq_false_iff.mpr fun hset => by
      rw [hk.isSettled hplain hset] at hun
      cases hun
    obtain ⟨hmem, hempty⟩ := h.empty hun'
    by_cases hds : ds' = []
    · rw [hg.same hds]
      exact ⟨hmem, hempty⟩
    · -- the one who waits would have been woken
      rw [hg.woken hl hds g hmem h.spent] at hun
      cases hun
  undecided := h.undecided

/-! ## What a task does next -/

/-- Whoever waits for a new future waits. -/
theorem nextThread_await_future (k : State → State) (stack : List Frame) (F : Frame) :
    (m.future.1.modify k).nextThread stack (.await m.futures.size F : Move) = ⟨.waits m.futures.size, F :: stack⟩ := by
  have hnone : (m.future.1.modify k).outcome? m.futures.size = none := by
    refine (outcome?_push (m := m) rfl m.futures.size).trans ?_
    simp [outcome?]
  simp only [nextThread, hnone]

/-- Below a frame that holds the lock a transport is started or stopped, which has to do with no listener. -/
theorem Turn.below {G : Frame} {rest : List Frame} (ht : Turn role m u th role' m') (hf : Fits role m)
    (hth : m.thread? u = some th) (hG : G.hold ≠ none) (hsuffix : G :: rest <:+ th.stack) :
    (∃ o, th = ⟨.resumes o, G :: rest⟩) ∨ ∃ th', m'.thread? u = some th' ∧ G :: rest <:+ th'.stack ∧
      Thread.about th = none ∧ Thread.receipt th' = none := by
  have hmem : ∀ {stack : List Frame}, G :: rest <:+ stack → G ∈ stack := fun h => h.subset List.mem_cons_self
  have hmove : ∀ {called root : Routine} {stack : List Frame} {s : Loop × Move}, Deed role role' m u root called stack s →
      G :: rest <:+ stack → called.isDriving = true ∧ G :: rest <:+ (s.1.nextThread stack s.2).stack ∧
        Thread.receipt (s.1.nextThread stack s.2) = none := by
    intro called root stack s hd hsuffix
    have hdrive := hd.stacked.isDriving_of_mem (hmem hsuffix) hG
    refine ⟨hdrive, hsuffix.trans (suffix_nextThread _ _ _), hd.does.move.receipt hd.stacked fun l h => ?_⟩
    rw [h] at hdrive
    cases hdrive
  cases ht with
  | rests idle runs hth' =>
    refine .inr ⟨th, hth', hsuffix, Thread.about_of_isIdle idle, ?_⟩
    refine Option.eq_none_iff_forall_ne_some.mpr fun d hd => ?_
    rw [isIdle_of_receipt hd] at idle
    cases idle
  | awakes how switch =>
    obtain ⟨root, -, hfits⟩ := hf.threads hth
    have hwaits : ∀ {f stack o}, ThreadFits role m root ⟨.waits f, stack⟩ →
        Thread.receipt (⟨.resumes o, stack⟩ : Thread Routine Frame Value Failure) = none := by
      intro f stack o hfits
      refine receipt_of_ne fun l rest heq => ?_
      cases hfits with
      | waits _ hawaits _ =>
        cases heq
        cases hawaits
    cases how with
    | begins => cases hmem hsuffix
    | dropped => cases hmem hsuffix
    | resumes => exact .inr ⟨_, switch.self, hsuffix, rfl, hwaits hfits⟩
    | interrupted => exact .inr ⟨_, switch.self, hsuffix, rfl, hwaits hfits⟩
  | ends => cases hmem hsuffix
  | begins runs valid stands how deed =>
    obtain ⟨hdrive, hsuffix', hreceipt⟩ := hmove deed hsuffix
    exact .inr ⟨_, deed.switch.self, hsuffix', stands.about_of_isDriving hdrive, hreceipt⟩
  | resumes runs serves gets how deed =>
    rcases List.suffix_cons_iff.mp hsuffix with heq | hsuffix
    · exact .inl ⟨_, by rw [heq]⟩
    · obtain ⟨hdrive, hsuffix', hreceipt⟩ := hmove deed hsuffix
      exact .inr ⟨_, deed.switch.self, hsuffix', serves.about_of_isDriving hdrive, hreceipt⟩

/-- What a task does that begins. -/
theorem Turn.begun {m₁ : Loop} {a : Move} (ht : Turn role m u ⟨.begins r, stack⟩ role' m') (h : begin r m = (m₁, a)) :
    m'.state = m₁.state ∧ m'.thread? u = some (m₁.nextThread stack a) := by
  obtain ⟨-, -, called, root, -, -, hd, rfl⟩ := ht.of_begins
  rw [h] at hd ⊢
  exact ⟨hd.state, hd.switch.self⟩

/-- What a task does that goes on. -/
theorem Turn.resumed {m₁ : Loop} {a : Move} (ht : Turn role m u ⟨.resumes o, F :: stack⟩ role' m')
    (h : resume F o m = (m₁, a)) : m'.state = m₁.state ∧ m'.thread? u = some (m₁.nextThread stack a) := by
  obtain ⟨-, -, called, root, -, -, hd, rfl⟩ := ht.of_resumes
  rw [h] at hd ⊢
  exact ⟨hd.state, hd.switch.self⟩

end Loop

/-! ## The lock -/

section lock

variable {role role' : FutureId → Role} {m m' : Loop} {u : TaskId} {stack : List Frame}
  {th : Thread Routine Frame Value Failure}

theorem Locks.suffix (h : Locks stack th) : stack <:+ th.stack := by
  cases h with
  | begins => exact List.suffix_refl _
  | got => exact List.suffix_refl _
  | waits => exact List.suffix_cons _ _
  | woken => exact List.suffix_cons _ _

theorem Locks.receipt (h : Locks stack th) (hne : ∀ l rest, stack ≠ .receiving l :: rest) : Thread.receipt th = none := by
  refine Loop.receipt_of_ne ?_
  cases h with
  | begins => exact hne
  | got => exact hne
  | waits => exact fun _ _ heq => by cases heq
  | woken => exact fun _ _ heq => by cases heq

open Loop in
/-- Whoever is about to get the lock gets it, or waits on. -/
theorem Locks.turn (h : Locks stack th) (ht : Turn role m u th role' m') (hth : m.thread? u = some th) (hsp : m.Spares u) :
    (∃ v, th = ⟨.resumes (.value v), stack⟩) ∨
      ∃ th', m'.thread? u = some th' ∧ Locks stack th' ∧ Thread.about th = none := by
  cases h with
  | begins =>
    refine .inr ?_
    cases hfree : m.lockIsFree with
    | true =>
      have hbegin : begin .acquireLock m = (m.takeLock, nothing) := by simp only [begin, acquire, hfree, if_true]
      obtain ⟨-, hth'⟩ := ht.begun hbegin
      exact ⟨_, hth', .got _, rfl⟩
    | false =>
      have hbegin : begin .acquireLock m = (m.future.1.modifyLock fun lock =>
          { lock with waiters := lock.waiters ++ [m.futures.size] }, .await m.futures.size (.locking m.futures.size)) := by
        simp only [begin, acquire, hfree, Bool.false_eq_true, if_false]
        rfl
      obtain ⟨-, hth'⟩ := ht.begun hbegin
      exact ⟨_, hth'.trans (congrArg some (nextThread_await_future _ stack _)), .waits _, rfl⟩
  | waits w =>
    refine .inr ?_
    cases ht with
    | rests _ _ hth' => exact ⟨_, hth', .waits w, rfl⟩
    | awakes how switch =>
      cases how with
      | resumes hfree ho =>
        obtain ⟨v, rfl⟩ := hsp.granted hth (.inl rfl) ho
        exact ⟨_, switch.self, .woken w v, rfl⟩
      | interrupted hheld => exact absurd hheld hsp.free
  | woken w v =>
    obtain ⟨-, hth'⟩ := ht.resumed rfl
    exact .inr ⟨_, hth', .got _, rfl⟩
  | got v => exact .inl ⟨v, rfl⟩

end lock

namespace Loop

variable {role role' : FutureId → Role} {m m' : Loop} {u : TaskId} {l : ListenerId} {g : FutureId} {e : Ending}
  {th : Thread Routine Frame Value Failure} {asking opening : Request} {ds : List Delivery} {isOpen : Bool}
  {t : TransportId} {v : Value} {d : Delivery} {base : List Frame}

/-! ## A step in which nobody else has to do with the listener -/

/-- A step leaves a listener alone that nobody but a task has to do with, unless this task goes on with it. -/
structure Sole (role : FutureId → Role) (m : Loop) (l : ListenerId) (th : Thread Routine Frame Value Failure) (m' : Loop) :
    Prop where
  tidy : m.Tidy role
  keeps : m.Keeps m'
  there : l < m.state.listeners.length
  given : Thread.about th ≠ some l → ∃ ds, Given l ds m m'

theorem Attends.apart (h : m.Attends asking l isOpen ds) (hs : Sole role m l th m') (ha : Thread.about th ≠ some l) :
    m'.Attends asking l isOpen ds := by
  obtain ⟨ds', hg⟩ := hs.given ha
  exact h.move hs.tidy hs.keeps (hg.opened.trans h.opened) hg.ended hg.getters

/-- The task leaves its listener as it is. -/
theorem Attends.still (h : m.Attends asking l isOpen ds) (hs : Sole role m l th m') {m₁ : Loop} (hstate : m'.state = m₁.state)
    (hl : m₁.state.listener l = m.state.listener l) : m'.Attends asking l isOpen ds :=
  h.same (by rw [hstate, hl]) hs.tidy hs.keeps

/-! ## Coming -/

theorem Attends.next_of_opens (h : m.Attends asking l false ds)
    (ht : Turn role m u ⟨.begins (.openListener l), .introducing l opening asking :: base⟩ role' m') (hs : Sole role m l th m') :
    Inquiry.Next asking l base u ds m' := by
  have hbegin : begin (.openListener l) m =
      (m.modifyListener l fun x => { x with opened := true }, .call (.register l) (.opening l)) := by
    simp [begin, openListener, h.opened]
  obtain ⟨hstate, hth⟩ := ht.begun hbegin
  have hl : m'.state.listener l = { m.state.listener l with opened := true } := by
    rw [hstate]
    exact (listener_modifyListener m.state l l _).trans (if_pos ⟨rfl, hs.there⟩)
  exact .reached (.registers opening (h.move hs.tidy hs.keeps (by rw [hl]) (by rw [hl]) fun g hg => by rwa [hl] at hg)) hth rfl

/-- With the lock, the listener is registered, and a transport is started if there is none. -/
theorem Attends.next_of_registering (h : m.Attends asking l true ds)
    (ht : Turn role m u ⟨.resumes (.value v), .registering l :: .opening l :: .introducing l opening asking :: base⟩ role' m')
    (hs : Sole role m l th m') : Inquiry.Next asking l base u ds m' := by
  cases hresume : resume (.registering l) (.value v) m with
  | mk m₁ a =>
    have hstill : Still m.state m₁.state := by
      have hstill := registerLocked_still hs.tidy l (.value v)
      rwa [show registerLocked l (.value v) m = (m₁, a) from hresume] at hstill
    obtain ⟨hstate, hth⟩ := ht.resumed hresume
    have hattends : m'.Attends asking l true ds := h.still hs hstate (hstill.given.same rfl)
    simp only [resume, registerLocked] at hresume
    split at hresume
    · cases hresume
      exact .reached (.opened opening .nothing hattends) hth rfl
    · cases hresume
      exact .reached (.starts opening _ hattends (List.suffix_refl _)) hth rfl

/-- Once the transport is started, the listener is open. -/
theorem Attends.next_of_starting (h : m.Attends asking l true ds)
    (ht : Turn role m u ⟨.resumes (.value v), .starting l t :: .opening l :: .introducing l opening asking :: base⟩ role' m')
    (hs : Sole role m l th m') : Inquiry.Next asking l base u ds m' := by
  obtain ⟨hstate, hth⟩ := ht.resumed rfl
  have hstill : Given l [] m (startResumed l t (.value v) m).1 := (startResumed_still m l t (.value v)).given
  exact .reached (.opened opening .nothing (h.still hs hstate (hstill.same rfl))) hth rfl

/-- A transport is being started, or the start has succeeded. -/
theorem Attends.next_of_starts (h : m.Attends asking l true ds) (ht : Turn role m u th role' m')
    (hsuffix : (.starting l t :: .opening l :: .introducing l opening asking :: base) <:+ th.stack) (hf : Fits role m)
    (hth : m.thread? u = some th) (hs : Sole role m l th m') (hb : m.balks u = false) : Inquiry.Next asking l base u ds m' := by
  rcases ht.below hf hth (fun h => by cases h) hsuffix with ⟨o, rfl⟩ | ⟨th', hth', hsuffix', habout, hreceipt⟩
  · obtain ⟨-, hr, -⟩ := ht.of_resumes
    cases o with
    | value v => exact h.next_of_starting ht hs
    | _ => simp [balks, hr, Frame.hold, Outcome.isValue] at hb
  · have hne : Thread.about th ≠ some l := by rw [habout]; exact fun h => by cases h
    exact .reached (.starts opening t (h.apart hs hne) hsuffix') hth' (Thread.takes_of_receipt hreceipt)

/-- Whoever has opened his listener sends his requests. -/
theorem Attends.next_of_introduced (h : m.Attends asking l true ds)
    (ht : Turn role m u ⟨.resumes (.value v), .introducing l opening asking :: base⟩ role' m') (hs : Sole role m l th m')
    (hm : m.mutes u = false) : Inquiry.Next asking l base u ds m' := by
  obtain ⟨-, hr, -⟩ := ht.of_resumes
  have hsend := Aside.sendAll (K := fun _ => True) (S := fun _ => True) hs.tidy [opening, asking]
  cases hall : m.sendAll [opening, asking] with
  | mk m₁ failure =>
    cases failure with
    | some f => simp [mutes, hr, hall] at hm
    | none =>
      rw [hall] at hsend
      have hresume : resume (.introducing l opening asking) (.value v) m = (m₁, .call (.next l) (.expecting l asking)) := by
        simp only [resume, exchangeOpened, hall]
      obtain ⟨hstate, hth⟩ := ht.resumed hresume
      exact .reached (.asks (h.still hs hstate (hsend.given.same rfl))) hth rfl

/-! ## Taking -/

theorem Attends.next_of_asks (h : m.Attends asking l true ds)
    (ht : Turn role m u ⟨.begins (.next l), .expecting l asking :: base⟩ role' m') (hs : Sole role m l th m') :
    Inquiry.Next asking l base u ds m' := by
  have hbegin : begin (.next l) m = (m, .call (.take l) (.receiving l)) := by
    simp [begin, next, h.opened, h.ended]
  obtain ⟨hstate, hth⟩ := ht.begun hbegin
  exact .reached (.takes (h.still hs hstate rfl)) hth rfl

theorem Attends.next_of_takes (h : m.Attends asking l true ds)
    (ht : Turn role m u ⟨.begins (.take l), .receiving l :: .expecting l asking :: base⟩ role' m') (hs : Sole role m l th m') :
    Inquiry.Next asking l base u ds m' := by
  cases hq : (m.state.listener l).queue with
  | cons item rest =>
    have hbegin : begin (.take l) m =
        (m.modifyListener l fun x => { x with queue := rest }, .done (.value (.delivery item))) := by
      simp only [begin, Loop.take, hq]
    obtain ⟨hstate, hth⟩ := ht.begun hbegin
    have hl : m'.state.listener l = { m.state.listener l with queue := rest } := by
      rw [hstate]
      exact (listener_modifyListener m.state l l _).trans (if_pos ⟨rfl, hs.there⟩)
    have hattends : m'.Attends asking l true ds :=
      h.move hs.tidy hs.keeps (by rw [hl, h.opened]) (by rw [hl]) fun g hg => by rwa [hl] at hg
    have htakes : Thread.takes l (⟨.resumes (.value (.delivery item)), .receiving l :: .expecting l asking :: base⟩ :
        Thread Routine Frame Value Failure) = [item] := if_pos rfl
    exact ⟨_, hth, htakes.symm ▸ .took item hattends rfl⟩
  | nil =>
    have hbegin : begin (.take l) m = (m.future.1.modifyListener l fun x => { x with getters := x.getters ++ [m.futures.size] },
        .await m.futures.size (.getting l m.futures.size)) := by
      simp only [begin, Loop.take, hq]
      rfl
    obtain ⟨hstate, hth⟩ := ht.begun hbegin
    have hl : m'.state.listener l = { m.state.listener l with getters := (m.state.listener l).getters ++ [m.futures.size] } := by
      rw [hstate]
      exact (listener_modifyListener m.state l l _).trans (if_pos ⟨rfl, hs.there⟩)
    refine .reached (.waits m.futures.size ⟨by rw [hl, h.opened], by rw [hl, h.ended], fun g hg hne => ?_, fun _ => ?_, h.undecided⟩)
      (hth.trans (congrArg some (nextThread_await_future _ _ _))) rfl
    · rw [hl] at hg
      have hold : g ∈ (m.state.listener l).getters := by simpa [hne] using hg
      exact hs.keeps.isSettled (hs.tidy.getter hold).1 (h.spent g hold)
    · rw [hl]
      exact ⟨List.mem_append_right _ (List.mem_singleton.mpr rfl), hq⟩

theorem Attends.next_of_woken (h : m.Attends asking l true ds)
    (ht : Turn role m u ⟨.resumes (.value v), .getting l g :: .receiving l :: .expecting l asking :: base⟩ role' m')
    (hs : Sole role m l th m') : Inquiry.Next asking l base u ds m' := by
  obtain ⟨hstate, hth⟩ := ht.resumed rfl
  exact .reached (.takes (h.still hs hstate rfl)) hth rfl

/-- Whoever waits for his listener rests, or is woken. -/
theorem Listens.next (h : m.Listens asking l g ds)
    (ht : Turn role m u ⟨.waits g, .getting l g :: .receiving l :: .expecting l asking :: base⟩ role' m') (hf : Fits role m)
    (hth : m.thread? u = some ⟨.waits g, .getting l g :: .receiving l :: .expecting l asking :: base⟩) (hs : Sole role m l ⟨.waits g, .getting l g :: .receiving l :: .expecting l asking :: base⟩ m')
    (hsp : m.Spares u) : Inquiry.Next asking l base u ds m' := by
  have hplain : m.IsPlain g := (hf.role_of_queuesAt hth (.inr (.inl ⟨l, rfl⟩))).1
  cases ht with
  | rests _ _ hth' =>
    obtain ⟨ds', hg⟩ := hs.given (fun h => by cases h)
    exact .reached (.waits g (h.given hg hs.tidy hs.keeps hplain hs.there)) hth' rfl
  | awakes how switch =>
    cases how with
    | resumes hfree ho =>
      obtain ⟨v, rfl⟩ := hsp.granted hth (.inr (.inl ⟨l, rfl⟩)) ho
      have hset : m'.isSettled g = true := hs.keeps.isSettled hplain (isSettled_iff.mpr ⟨_, ho⟩)
      refine .reached (.woken g v ⟨by rw [switch.state, h.opened], by rw [switch.state, h.ended], fun g' hg' => ?_, h.undecided⟩)
        switch.self (Thread.takes_of_receipt (receipt_of_ne fun _ _ heq => by cases heq))
      rw [switch.state] at hg'
      by_cases heq : g' = g
      · exact heq ▸ hset
      · exact hs.keeps.isSettled (hs.tidy.getter hg').1 (h.spent g' hg' heq)
    | interrupted hheld => exact absurd hheld hsp.free

/-- A message is passed on; an end is the end. -/
theorem Attends.next_of_took {old : List Delivery} (h : m.Attends asking l true old) (hds : ds = old ++ [d])
    (ht : Turn role m u ⟨.resumes (.value (.delivery d)), .receiving l :: .expecting l asking :: base⟩ role' m')
    (hs : Sole role m l th m') : Inquiry.Next asking l base u ds m' := by
  have hverdict : verdict asking ds = d.decides asking := hds ▸ verdict_concat h.undecided d
  cases d with
  | message message =>
    obtain ⟨hstate, hth⟩ := ht.resumed rfl
    exact .reached (.got message (h.still hs hstate rfl) hds) hth rfl
  | ended error =>
    obtain ⟨-, hth⟩ := ht.resumed rfl
    cases error with
    | none => exact .reached (.broke .endOfStream hverdict (.inl ⟨rfl, rfl⟩)) hth rfl
    | some e => exact .reached (.broke (.server e) hverdict (.inr ⟨e, rfl, rfl⟩)) hth rfl

/-- A message decides, or another one is awaited. -/
theorem Attends.next_of_got {old : List Delivery} {message : Message} (h : m.Attends asking l true old)
    (hds : ds = old ++ [.message message])
    (ht : Turn role m u ⟨.resumes (.value (.message message)), .expecting l asking :: base⟩ role' m')
    (hs : Sole role m l th m') : Inquiry.Next asking l base u ds m' := by
  have hverdict : verdict asking ds = (Delivery.message message).decides asking := hds ▸ verdict_concat h.undecided _
  have hon : resume (.expecting l asking) (.value (.message message)) m = (m, .call (.next l) (.expecting l asking)) →
      (Delivery.message message).decides asking = none → Inquiry.Next asking l base u ds m' := fun hresume hnone => by
    obtain ⟨hstate, hth⟩ := ht.resumed hresume
    have hattends := h.still hs hstate rfl
    exact .reached (.asks ⟨hattends.opened, hattends.ended, hattends.spent, hverdict.trans hnone⟩) hth rfl
  cases message with
  | response r =>
    cases ha : r.answers asking with
    | true =>
      obtain ⟨-, hth⟩ := ht.resumed (by simp only [resume, exchangeResumed, ha, if_true]; rfl)
      exact .reached (.leaves (hverdict.trans (if_pos ha))) hth rfl
    | false => exact hon (by simp [resume, exchangeResumed, ha]) (if_neg (by simp [ha]))
  | _ => exact hon rfl rfl

/-! ## Leaving -/

/-- With the lock, the listener is let go, and the transport is stopped if it was the last. -/
theorem next_of_leaving (h : verdict asking ds = some e)
    (ht : Turn role m u ⟨.resumes (.value v), .leaving l :: .finishing e :: base⟩ role' m') : Inquiry.Next asking l base u ds m' := by
  cases hresume : resume (.leaving l) (.value v) m with
  | mk m₁ a =>
    obtain ⟨-, hth⟩ := ht.resumed hresume
    simp only [resume, leaveLocked] at hresume
    split at hresume
    · split at hresume
      · cases hresume
        exact .reached (.stops h (List.suffix_refl _)) hth rfl
      · cases hresume
        exact .reached (.left _ h) hth rfl
    · cases hresume
      exact .reached (.left _ h) hth rfl

/-- The transport is being stopped, or the stop has succeeded. -/
theorem next_of_stops (h : verdict asking ds = some e) (ht : Turn role m u th role' m')
    (hsuffix : (.releasing :: .finishing e :: base) <:+ th.stack) (hf : Fits role m) (hth : m.thread? u = some th)
    (hb : m.balks u = false) : Inquiry.Next asking l base u ds m' := by
  rcases ht.below hf hth (fun h => by cases h) hsuffix with ⟨o, rfl⟩ | ⟨th', hth', hsuffix', -, hreceipt⟩
  · obtain ⟨-, hr, -⟩ := ht.of_resumes
    cases o with
    | value v =>
      obtain ⟨-, hth'⟩ := ht.resumed rfl
      exact .reached (.left .nothing h) hth' rfl
    | _ => simp [balks, hr, Frame.hold, Outcome.isValue] at hb
  · exact .reached (.stops h hsuffix') hth' (Thread.takes_of_receipt hreceipt)

end Loop

/-! ## All steps -/

section turn

variable {role role' : FutureId → Role} {m m' : Loop} {u : TaskId} {l : ListenerId} {asking : Request} {base : List Frame}
  {ds : List Delivery} {th : Thread Routine Frame Value Failure}

open Loop in
/-- **An exchange goes on as it should**, until it hands on what was decided. -/
theorem Inquiry.turn (h : Inquiry asking l base m ds th) (ht : Turn role m u th role' m') (hf : Fits role m)
    (hth : m.thread? u = some th) (hs : Thread.Uses th l → Sole role m l th m') (hsp : m.Spares u) (hb : m.balks u = false)
    (hm : m.mutes u = false) (hbase : ∀ l rest, base ≠ .receiving l :: rest) :
    Inquiry.Next asking l base u ds m' ∨ ∃ e, th = ⟨.resumes e, base⟩ ∧ verdict asking ds = some e := by
  have huses : ∀ {F : Frame}, F ∈ th.stack → F.about = some l → Sole role m l th m' := fun hF ha => hs (.inr ⟨_, hF, ha⟩)
  cases h with
  | opens opening h => exact .inl (h.next_of_opens ht (huses (.head _) rfl))
  | registers opening h =>
    have hs := huses (.head _) rfl
    obtain ⟨hstate, hth'⟩ := ht.begun rfl
    exact .inl (.reached (.enters opening (h.still hs hstate rfl) .begins) hth' rfl)
  | enters opening h hlocks =>
    refine .inl ?_
    rcases hlocks.turn ht hth hsp with ⟨v, rfl⟩ | ⟨th', hth', hlocks', habout⟩
    · exact h.next_of_registering ht (huses (.head _) rfl)
    · have hs := huses (hlocks.suffix.subset (.head _)) rfl
      have hne : Thread.about th ≠ some l := by rw [habout]; exact fun h => by cases h
      exact .reached (.enters opening (h.apart hs hne) hlocks') hth'
        (Thread.takes_of_receipt (hlocks'.receipt fun _ _ heq => by cases heq))
  | starts opening t h hsuffix =>
    exact .inl (h.next_of_starts ht hsuffix hf hth (huses (hsuffix.subset (.head _)) rfl) hb)
  | opened opening v h =>
    have hs := huses (.head _) rfl
    obtain ⟨hstate, hth'⟩ := ht.resumed rfl
    exact .inl (.reached (.introduced opening _ (h.still hs hstate rfl)) hth' rfl)
  | introduced opening v h => exact .inl (h.next_of_introduced ht (huses (.head _) rfl) hm)
  | asks h => exact .inl (h.next_of_asks ht (huses (.head _) rfl))
  | takes h => exact .inl (h.next_of_takes ht (huses (.head _) rfl))
  | waits g h => exact .inl (h.next ht hf hth (huses (.head _) rfl) hsp)
  | woken g v h => exact .inl (h.next_of_woken ht (huses (.head _) rfl))
  | took d h hds => exact .inl (h.next_of_took hds ht (huses (.head _) rfl))
  | got message h hds => exact .inl (h.next_of_got hds ht (huses (.head _) rfl))
  | broke failure h hf =>
    rcases hf with ⟨rfl, rfl⟩ | ⟨error, rfl, rfl⟩
    · obtain ⟨-, hth'⟩ := ht.resumed rfl
      exact .inl (.reached (.leaves h) hth' rfl)
    · obtain ⟨-, hth'⟩ := ht.resumed rfl
      exact .inl (.reached (.leaves h) hth' rfl)
  | leaves h =>
    obtain ⟨-, hth'⟩ := ht.begun rfl
    exact .inl (.reached (.exits h .begins) hth' rfl)
  | exits h hlocks =>
    refine .inl ?_
    rcases hlocks.turn ht hth hsp with ⟨v, rfl⟩ | ⟨th', hth', hlocks', -⟩
    · exact next_of_leaving h ht
    · exact .reached (.exits h hlocks') hth' (Thread.takes_of_receipt (hlocks'.receipt fun _ _ heq => by cases heq))
  | stops h hsuffix => exact .inl (next_of_stops h ht hsuffix hf hth hb)
  | left v h =>
    obtain ⟨-, hth'⟩ := ht.resumed rfl
    exact .inl (.reached (.finished h) hth' (Thread.takes_of_receipt (receipt_of_ne hbase)))
  | finished h => exact .inr ⟨_, rfl, h⟩

open Loop in
/-- An exchange that is all that a task does ends with what was decided. -/
theorem Inquiry.turn_alone (h : Inquiry asking l [] m ds th) (ht : Turn role m u th role' m') (hf : Fits role m)
    (hth : m.thread? u = some th) (hs : Thread.Uses th l → Sole role m l th m') (hsp : m.Spares u) (hb : m.balks u = false)
    (hm : m.mutes u = false) :
    Inquiry.Next asking l [] u ds m' ∨ ∃ o, m'.taskOutcome? u = some o ∧ verdict asking ds = some o := by
  rcases h.turn ht hf hth hs hsp hb hm (fun _ _ heq => by cases heq) with hnext | ⟨e, rfl, hverdict⟩
  · exact .inl hnext
  · exact .inr ⟨e, ht.of_ends, hverdict⟩

end turn

end DiagnosticsClient
