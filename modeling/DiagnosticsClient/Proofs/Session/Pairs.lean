import DiagnosticsClient.Proofs.Session.Lasting
import DiagnosticsClient.Proofs.Session.Numbers
/-
Who has requests to send.

Whoever asks for the diagnostics of a file is given two numbers for a pair of requests. From
then on the pair is in the hands of one task: the one that asked, or the one whose time it
limits, until that has sent it or has given it up (`Thread.pairs`, `Goes.bears`). So no
pair is in two hands, none that was sent is in anybody's, and none is sent twice
(`Tallied`).
-/
namespace DiagnosticsClient

open Async Async.Machine

/-! ## Pairs of requests -/

/-- Somebody asks for the diagnostics of a file, and is given a number for each of two requests. -/
structure Query where
  number : Nat
  file : Json

namespace Query

def opening (q : Query) : Request := .openFile q.number q.file

def asking (q : Query) : Request := .semanticDiagnostics (q.number + 1 : Nat) q.file

/-- The two requests, in order. -/
def pair (q : Query) : Request × Request := (q.opening, q.asking)

@[simp] theorem seq_opening (q : Query) : q.opening.seq = q.number := rfl

@[simp] theorem seq_asking (q : Query) : q.asking.seq = q.number + 1 := rfl

theorem number_of_pair {q q' : Query} (h : q.pair = q'.pair) : q.number = q'.number :=
  Int.ofNat.inj (congrArg (fun p => p.1.seq) h)

end Query

/-- Whoever begins to ask now. -/
def Moment.queries (a : Moment) : List Query :=
  match a.loop.running with
  | some (.begin _ (.request file _) _) => [⟨a.loop.state.nextSeq, file⟩]
  | _ => []

/-- Whoever has asked for diagnostics, the newest first. -/
def queries (moments : List Moment) : List Query := moments.flatMap Moment.queries

/-- The pairs of requests that come with a routine. -/
def Routine.pairs : Routine → List (Request × Request)
  | .exchange opening asking => [(opening, asking)]
  | .within _ (.exchange opening asking) => [(opening, asking)]
  | _ => []

theorem Routine.nodup_pairs (r : Routine) : r.pairs.Nodup := by
  unfold Routine.pairs
  split <;> simp

/-- The pairs of requests that are sent when a frame goes on. -/
def Frame.pairs : Frame → List (Request × Request)
  | .introducing _ first second => [(first, second)]
  | _ => []

/-- The pairs of requests in the hands of a thread. -/
def Thread.pairs (th : Thread Routine Frame Value Failure) : List (Request × Request) :=
  (match th.top with
    | .fresh r => r.pairs
    | .begins r => r.pairs
    | _ => []) ++ th.stack.flatMap Frame.pairs

/-- A task has a pair of requests in hand. -/
def Loop.Bears (m : Loop) (u : TaskId) (p : Request × Request) : Prop := ∃ th, m.thread? u = some th ∧ p ∈ Thread.pairs th

/-- The pairs of requests that come with what is done next. -/
def Move.pairs : Move → List (Request × Request)
  | .done _ => []
  | .await _ F => F.pairs
  | .call r F => r.pairs ++ F.pairs
  | .become r => r.pairs

namespace Loop

variable {role role' : FutureId → Role} {m m' : Loop} {u v : TaskId} {n : Nat} {roots : TaskId → Option Routine}
  {called r inner : Routine} {F : Frame} {stack : List Frame} {o : Ending} {th th' : Thread Routine Frame Value Failure}
  {file : Json} {limit : Option Seconds} {opening asking : Request} {a : Move} {l : ListenerId} {p : Request × Request}

/-! ## What a task does with its pairs -/

theorem pairs_nextThread (m : Loop) (stack : List Frame) (a : Move) :
    Thread.pairs (m.nextThread stack a) = a.pairs ++ stack.flatMap Frame.pairs := by
  cases a with
  | await f F =>
    simp only [nextThread, Move.pairs]
    split <;> simp [Thread.pairs]
  | call r F => simp [nextThread, Move.pairs, Thread.pairs]
  | _ => rfl

theorem pairs_of_isDriving (hd : r.isDriving = true) (hw : ∀ limit inner, r ≠ .within limit inner) : r.pairs = [] := by
  cases r with
  | within limit inner => exact absurd rfl (hw limit inner)
  | exchange => cases hd
  | _ => rfl

/-- Nothing that a routine does next has a pair, unless it asks for diagnostics or comes with one itself. -/
theorem MoveFits.pairs (h : MoveFits role m n called a) (hask : ∀ file limit, called ≠ .request file limit)
    (hnone : called.pairs = []) (hwithin : ∀ limit inner, called ≠ .within limit inner) : a.pairs = [] := by
  have hexchange : ∀ {opening asking}, ¬ called.Exchanges opening asking := by
    intro opening asking hx
    cases hx with
    | exchange => cases hnone
    | request => exact hask _ _ rfl
  cases h with
  | done => rfl
  | call hc hs =>
    cases hc with
    | requesting =>
      cases hs with
      | requesting => exact absurd rfl (hask _ _)
    | introducing =>
      cases hs with
      | introducing hx => exact absurd hx hexchange
    | _ => rfl
  | become hr =>
    cases hr with
    | refl => exact hnone
    | exchange => exact absurd rfl (hask _ _)
    | endTasks => rfl
  | await hs ha => cases ha <;> rfl

/-- Whoever asks for diagnostics comes to a pair. -/
theorem pairs_request : (begin (.request file limit) m).2.pairs = [Query.pair ⟨m.state.nextSeq, file⟩] := by
  cases limit <;> rfl

/-- Whoever limits the time of a task leaves its pair to it. -/
theorem pairs_within {limit : Seconds} : (begin (.within limit inner) m).2.pairs = [] := by
  simp only [begin, within]
  split
  · rfl
  · split <;> rfl

/-- What a routine begins with has the pair that came with it, but for one that limits the time of another or asks for
diagnostics. -/
theorem pairs_begin (hm : MoveFits role m' n called (begin r m).2) (hr : r.StandsFor called)
    (hask : ∀ file limit, r ≠ .request file limit) (hwithin : ∀ limit inner, r ≠ .within limit inner) :
    (begin r m).2.pairs = r.pairs := by
  cases hr with
  | exchange => rfl
  | endTasks => exact MoveFits.pairs hm (fun _ _ h => by cases h) rfl fun _ _ h => by cases h
  | refl =>
    by_cases hexchange : ∃ opening asking, called = .exchange opening asking
    · obtain ⟨opening, asking, rfl⟩ := hexchange
      rfl
    · have hnone : called.pairs = [] := by
        cases called with
        | exchange opening asking => exact absurd ⟨opening, asking, rfl⟩ hexchange
        | within limit inner => exact absurd rfl (hwithin limit inner)
        | _ => rfl
      rw [hnone]
      exact MoveFits.pairs hm hask hnone hwithin

/-- Whatever a frame goes on with has no pair any more. -/
theorem pairs_resume (hm : MoveFits role m' n called (resume F o m).2) (hs : F.Serves roots called) :
    (resume F o m).2.pairs = [] := by
  cases hs with
  | requesting =>
    simp only [resume, requestResumed]
    split <;> rfl
  | introducing =>
    simp only [resume, exchangeOpened]
    split
    · split <;> rfl
    · rfl
  | expecting =>
    simp only [resume, exchangeResumed]
    split
    · split <;> rfl
    · rfl
    · rfl
    · rfl
  | finishing =>
    simp only [resume, cleanedUp]
    split <;> rfl
  | timing =>
    simp only [resume, timeResumed]
    split
    · rfl
    · split <;> rfl
  | overdue =>
    simp only [resume, overdueResumed]
    split <;> rfl
  | lapsed =>
    simp only [resume, lapsedResumed]
    split <;> rfl
  | abandoned =>
    simp only [resume, abandonedResumed]
    split <;> rfl
  | _ => exact MoveFits.pairs hm (fun _ _ h => by cases h) rfl fun _ _ h => by cases h

/-- **What a turn makes of the pairs of a task.** -/
theorem Turn.pairs (ht : Turn role m u th role' m') (hf' : Fits role' m') (hth' : m'.thread? u = some th') :
    (Thread.pairs th').Sublist (Thread.pairs th) ∨
      ∃ file limit stack, m.running = some (.begin u (.request file limit) stack) ∧ th = ⟨.begins (.request file limit), stack⟩ ∧
        Thread.pairs th' = Query.pair ⟨m.state.nextSeq, file⟩ :: Thread.pairs th := by
  cases ht with
  | rests _ _ hold =>
    cases hold.symm.trans hth'
    exact .inl (.refl _)
  | awakes how switch =>
    cases switch.self.symm.trans hth'
    refine .inl ?_
    cases how with
    | dropped => exact List.nil_sublist _
    | _ => exact .refl _
  | ends outcome => cases (hf'.tidy.sound.taskOutcome?_of_thread? hth').symm.trans outcome
  | @begins _ r _ _ stack runs valid stands how deed =>
    cases deed.switch.self.symm.trans hth'
    rw [pairs_nextThread]
    by_cases hask : ∃ file limit, r = .request file limit
    · obtain ⟨file, limit, rfl⟩ := hask
      exact .inr ⟨file, limit, stack, runs, rfl, by rw [pairs_request]; rfl⟩
    · refine .inl ?_
      by_cases hwithin : ∃ limit inner, r = .within limit inner
      · obtain ⟨limit, inner, rfl⟩ := hwithin
        rw [pairs_within]
        exact List.sublist_append_right _ _
      · rw [pairs_begin deed.does.move stands (fun file limit h => hask ⟨file, limit, h⟩) fun limit inner h => hwithin ⟨limit, inner, h⟩]
        exact .refl _
  | resumes runs serves gets how deed =>
    cases deed.switch.self.symm.trans hth'
    rw [pairs_nextThread, pairs_resume deed.does.move serves]
    exact .inl (List.sublist_append_right _ _)

/-- The running task sends a pair of requests, gives it up, or leaves it to the task whose time it limits. -/
def Yields (m : Loop) (u : TaskId) (p : Request × Request) : Prop :=
  (∃ limit inner stack, m.running = some (.begin u (.within limit inner) stack) ∧ p ∈ inner.pairs) ∨
    ∃ o l stack, m.running = some (.resume u o (.introducing l p.1 p.2 :: stack))

/-- What the running task yields it had, and has no more. -/
theorem Yields.turn (h : m.Yields u p) (ht : Turn role m u th role' m') (hth : m.thread? u = some th)
    (hth' : m'.thread? u = some th') : p ∈ Thread.pairs th ∧ ((Thread.pairs th).Nodup → p ∉ Thread.pairs th') := by
  have hsplit : ∀ {ps rest : List (Request × Request)}, p ∈ ps → p ∈ ps ++ rest ∧ ((ps ++ rest).Nodup → p ∉ rest) :=
    fun hp => ⟨List.mem_append_left _ hp, fun hnodup hrest => (List.nodup_append.mp hnodup).2.2 _ hp _ hrest rfl⟩
  rcases h with ⟨limit, inner, stack, hr, hp⟩ | ⟨o, l, stack, hr⟩
  · cases hth.symm.trans (thread?_of_running hr)
    obtain ⟨-, hvalid, called, root, -, -, deed, rfl⟩ := ht.of_begins
    cases deed.switch.self.symm.trans hth'
    rw [pairs_nextThread, pairs_within]
    cases inner with
    | exchange opening asking => exact hsplit hp
    | within => cases hvalid
    | _ => cases hp
  · cases hth.symm.trans (thread?_of_running hr)
    obtain ⟨-, -, called, root, serves, -, deed, rfl⟩ := ht.of_resumes
    cases deed.switch.self.symm.trans hth'
    rw [pairs_nextThread, pairs_resume deed.does.move serves]
    exact hsplit (List.mem_singleton.mpr rfl)

/-- A task whose time begins to be limited is the only one that is made. -/
theorem size_within (m : Loop) (limit : Seconds) (inner : Routine) : (within limit inner m).1.tasks.size ≤ m.tasks.size + 1 := by
  have hspawn : (m.spawn inner).1.tasks.size = m.tasks.size + 1 := Array.size_push _
  unfold within
  split
  · exact Nat.le_of_eq hspawn
  · split
    · exact Nat.le_succ _
    · dsimp only
      unfold Machine.addCallback Machine.addTimer
      split <;> split <;> exact Nat.le_of_eq hspawn

end Loop

section goes

variable {role role' : FutureId → Role} {a b : Moment} {past : List Moment} {u v : TaskId} {p : Request × Request} {root : Routine}

/-- A task that was made has a thread, or has ended. -/
theorem IsRun.thread_or_ended (h : IsRun (a :: past)) (hroot : a.loop.routine? u = some root) :
    (∃ th, a.loop.thread? u = some th) ∨ ∃ o, a.loop.taskOutcome? u = some o := by
  have hall := h.follow (P := fun _ _ _ => True) (Q := fun _ _ _ => True) (fun _ _ => trivial) ?_ (fun _ _ _ _ _ _ => trivial) hroot
  · exact hall.imp (fun ⟨th, hth, _⟩ => ⟨th, hth⟩) fun ⟨o, ho, _⟩ => ⟨o, ho⟩
  · intro _ _ _ _ _ _ _ _ _ _ _ _ ht _
    exact ht.onward.imp (fun ⟨th, hth⟩ => ⟨th, hth, trivial⟩) fun ⟨o, ho⟩ => ⟨o, ho, trivial⟩

/-- Who goes on after a step went on before it, or is a new task. -/
theorem IsRun.was (h : IsRun (a :: past)) (ha : a.Holds role) (hb : b.Holds role') (hg : Goes role a role' b)
    {th' : Thread Routine Frame Value Failure} (hth' : b.loop.thread? u = some th') :
    (∃ th, a.loop.thread? u = some th) ∨
      a.loop.routine? u = none ∧ ∃ root, b.loop.routine? u = some root ∧ th' = ⟨.fresh root, []⟩ := by
  cases hroot : a.loop.routine? u with
  | none =>
    obtain ⟨root, hroot', -⟩ := hb.fits.threads hth'
    exact .inr ⟨rfl, root, hroot', Option.some.inj (hth'.symm.trans (hg.fresh ha hb hroot hroot'))⟩
  | some root =>
    refine .inl ((h.thread_or_ended hroot).resolve_right ?_)
    rintro ⟨o, ho⟩
    cases (hb.fits.tidy.sound.taskOutcome?_of_thread? hth').symm.trans (hg.ended ha hb ho)

/-- **Where a pair of requests was before a step**: in the same hands, or it is a new one, or another task has left it to
the one whose time it limits. -/
theorem Goes.bears (hg : Goes role a role' b) (hrun : IsRun (a :: past)) (ha : a.Holds role) (hb : b.Holds role')
    (honce : ∀ {u th}, a.loop.thread? u = some th → (Thread.pairs th).Nodup) (h : b.loop.Bears u p) :
    (a.loop.Bears u p ∧ ¬ a.loop.Yields u p) ∨
      (∃ file limit stack, a.loop.running = some (.begin u (.request file limit) stack) ∧ p = Query.pair ⟨a.loop.state.nextSeq, file⟩) ∨
      ∃ t limit inner stack, a.loop.running = some (.begin t (.within limit inner) stack) ∧ p ∈ inner.pairs ∧ a.loop.Bears t p ∧
        a.loop.routine? u = none ∧ ∀ {v root}, a.loop.routine? v = none → b.loop.routine? v = some root → v = u := by
  obtain ⟨th', hth', hp⟩ := h
  rcases hrun.was ha hb hg hth' with ⟨th, hth⟩ | ⟨hnone, root, hroot, rfl⟩
  · have ht := hg.turn ha hb hth
    have hyields : p ∈ Thread.pairs th → a.loop.Bears u p ∧ ¬ a.loop.Yields u p := fun hp' =>
      ⟨⟨th, hth, hp'⟩, fun hy => (hy.turn ht hth hth').2 (honce hth) hp⟩
    rcases ht.pairs hb.fits hth' with hsub | ⟨file, limit, stack, hr, -, hpairs⟩
    · exact .inl (hyields (hsub.subset hp))
    · rw [hpairs] at hp
      rcases List.mem_cons.mp hp with rfl | hp
      · exact .inr (.inl ⟨file, limit, stack, hr, rfl⟩)
      · exact .inl (hyields hp)
  · -- a new task has no pair unless another limits its time
    have hroot' : p ∈ root.pairs := by simpa [Thread.pairs] using hp
    rcases hg.born ha hnone hroot with hasked | hown | ⟨hinner, t, limit, stack, hr⟩ | ⟨hmember, -⟩
    · cases root <;> first | (cases hasked; done) | cases hroot'
    · cases root <;> first | (cases hown; done) | cases hroot'
    · refine .inr (.inr ⟨t, limit, root, stack, hr, hroot', ⟨_, thread?_of_running hr, ?_⟩, hnone, fun {v root'} hv hv' => ?_⟩)
      · cases root with
        | exchange opening asking => exact List.mem_append_left _ hroot'
        | _ => first | (cases hinner; done) | cases hroot'
      · have hsize : ∀ {w r}, a.loop.routine? w = none → b.loop.routine? w = some r → w = a.loop.tasks.size := by
          intro w r hw hw'
          obtain ⟨-, -, called, root', -, -, deed, hloop⟩ := (hg.turn ha hb (thread?_of_running hr)).of_begins
          rw [hloop, deed.switch.routine] at hw'
          have hlt := Loop.lt_size_of_routine? hw'
          have hle := Loop.size_within a.loop limit root
          have hge : a.loop.tasks.size ≤ w := Nat.le_of_not_lt fun hlt => by simp [Machine.routine?, hlt] at hw
          exact Nat.le_antisymm (Nat.le_of_lt_succ (Nat.lt_of_lt_of_le hlt hle)) hge
        exact (hsize hv hv').trans (hsize hnone hroot).symm
    · cases root <;> first | (cases hmember; done) | cases hroot'

/-! ## Pairs that are sent -/

/-- The pair of requests that the running task sends to the current transport, its listener being open. -/
def Moment.sends (a : Moment) : Option (TransportId × Request × Request) :=
  match a.loop.running, a.loop.state.current with
  | some (.resume _ (.value _) (.introducing _ opening asking :: _)), some t => some (t, opening, asking)
  | _, _ => none

/-- The pairs of requests that were sent, the newest first, and to which transport. -/
def sent (moments : List Moment) : List (TransportId × Request × Request) := moments.filterMap Moment.sends

theorem Moment.sends_eq_some {t : TransportId} (h : a.sends = some (t, p)) : a.loop.state.current = some t ∧
    ∃ u v l stack, a.loop.running = some (.resume u (.value v) (.introducing l p.1 p.2 :: stack)) := by
  unfold Moment.sends at h
  split at h
  · next hr hc =>
    cases h
    exact ⟨hc, _, _, _, _, hr⟩
  · cases h

theorem mem_sent_cons {x : TransportId × Request × Request} : x ∈ sent (a :: past) ↔ a.sends = some x ∨ x ∈ sent past := by
  simp only [sent, List.mem_filterMap, List.mem_cons, or_and_right, exists_or, exists_eq_left]

/-- Whoever sends a pair of requests had it. -/
theorem Moment.bears_of_sends {t : TransportId} (h : a.sends = some (t, p)) : ∃ u, a.loop.Bears u p ∧ a.loop.Yields u p := by
  obtain ⟨-, u, v, l, stack, hr⟩ := Moment.sends_eq_some h
  exact ⟨u, ⟨_, thread?_of_running hr, List.mem_append_right _ (List.mem_append_left _ (List.mem_singleton.mpr rfl))⟩,
    .inr ⟨_, l, stack, hr⟩⟩

/-- Where the pairs of requests are: everybody who asked got numbers of his own, and the pair of one who asked is in one
hand at most, and in none once it was sent. -/
structure Tallied (a : Moment) (past : List Moment) : Prop where
  issued : ∀ q ∈ queries past, q.number + 2 ≤ a.loop.state.nextSeq
  apart : (queries past).Pairwise fun q q' => q'.number + 2 ≤ q.number
  once : ∀ {u th}, a.loop.thread? u = some th → (Thread.pairs th).Nodup
  alone : ∀ {u v p}, a.loop.Bears u p → a.loop.Bears v p → u = v
  owed : ∀ {u p}, a.loop.Bears u p → ∃ q ∈ queries past, p = q.pair
  unsent : ∀ {u p}, a.loop.Bears u p → p ∉ (sent past).map Prod.snd
  sentOwed : ∀ x ∈ sent past, ∃ q ∈ queries past, x.2 = q.pair
  sentOnce : ((sent past).map Prod.snd).Nodup

theorem Moment.mem_queries {q : Query} (h : q ∈ a.queries) : q.number = a.loop.state.nextSeq ∧
    ∃ u limit stack, a.loop.running = some (.begin u (.request q.file limit) stack) := by
  unfold Moment.queries at h
  split at h
  · next u file limit stack hr =>
    cases List.mem_singleton.mp h
    exact ⟨rfl, u, limit, stack, hr⟩
  · cases h

theorem Moment.queries_of_running {file : Json} {limit : Option Seconds} {stack : List Frame}
    (hr : a.loop.running = some (.begin u (.request file limit) stack)) : a.queries = [⟨a.loop.state.nextSeq, file⟩] := by
  simp only [Moment.queries, hr]

theorem Loop.IsNew.tallied {m : Loop} (h : m.IsNew) : Tallied { loop := m } [] := by
  have hnone : ∀ {u p}, ¬ m.Bears u p := fun ⟨th, hth, _⟩ => by
    rw [h.isEmpty.thread?] at hth
    cases hth
  refine ⟨nofun, .nil, fun hth => ?_, fun h => absurd h hnone, fun h => absurd h hnone, fun h => absurd h hnone, nofun, .nil⟩
  rw [h.isEmpty.thread?] at hth
  cases hth

namespace Tallied

variable {q : Query} {file : Json}

/-- The pair of whoever asks now is a new one. -/
theorem pair_ne (h : Tallied a past) (hq : q ∈ queries past) : q.pair ≠ Query.pair ⟨a.loop.state.nextSeq, file⟩ := by
  intro heq
  have hle := h.issued q hq
  have hnumber : q.number = a.loop.state.nextSeq := Query.number_of_pair heq
  omega

theorem not_bears_new (h : Tallied a past) : ¬ a.loop.Bears u (Query.pair ⟨a.loop.state.nextSeq, file⟩) := fun hbears => by
  obtain ⟨q, hq, heq⟩ := h.owed hbears
  exact h.pair_ne hq heq.symm

/-- The numbers of those who have asked up to now. -/
theorem numbers (h : Tallied a past) : (queries (a :: past)).Pairwise fun q q' => q'.number + 2 ≤ q.number := by
  refine List.pairwise_append.mpr ⟨?_, h.apart, fun q hq q' hq' => (Moment.mem_queries hq).1 ▸ h.issued q' hq'⟩
  unfold Moment.queries
  split
  · exact List.pairwise_singleton _ _
  · exact .nil

/-- What is sent now was not sent before. -/
theorem sends (h : Tallied a past) : ((sent (a :: past)).map Prod.snd).Nodup ∧
    ∀ x ∈ sent (a :: past), ∃ q ∈ queries past, x.2 = q.pair := by
  cases hs : a.sends with
  | none =>
    rw [sent, List.filterMap_cons_none hs]
    exact ⟨h.sentOnce, h.sentOwed⟩
  | some x =>
    obtain ⟨u, hbears, -⟩ := Moment.bears_of_sends hs
    rw [sent, List.filterMap_cons_some hs]
    refine ⟨List.nodup_cons.mpr ⟨h.unsent hbears, h.sentOnce⟩, fun y hy => ?_⟩
    rcases List.mem_cons.mp hy with rfl | hy
    · exact h.owed hbears
    · exact h.sentOwed y hy

/-- **Pairs of requests stay where they should be.** -/
theorem step (h : Tallied a past) (hrun : IsRun (a :: past)) (ha : a.Holds role) (hb : b.Holds role')
    (hg : Goes role a role' b) : Tallied b (a :: past) := by
  have hbears := fun {u p} => hg.bears (u := u) (p := p) hrun ha hb h.once
  have hold : ∀ {q}, q ∈ queries past → q ∈ queries (a :: past) := fun hq => List.mem_append_right _ hq
  refine ⟨fun q hq => ?_, h.numbers, fun {u th'} hth' => ?_, fun {u v p} hu hv => ?_, fun {u p} hu => ?_, fun {u p} hu => ?_,
    fun x hx => ?_, h.sends.1⟩
  · rcases List.mem_append.mp hq with hq | hq
    · obtain ⟨hnumber, u, limit, stack, hr⟩ := Moment.mem_queries hq
      exact Nat.le_of_eq (by rw [hnumber, hg.nextSeq_of_request hr])
    · exact Nat.le_trans (h.issued q hq) (hg.nextSeq ha)
  · rcases hrun.was ha hb hg hth' with ⟨th, hth⟩ | ⟨-, root, -, rfl⟩
    · rcases (hg.turn ha hb hth).pairs hb.fits hth' with hsub | ⟨file, limit, stack, hr, -, hpairs⟩
      · exact hsub.nodup (h.once hth)
      · rw [hpairs]
        refine List.nodup_cons.mpr ⟨fun hmem => ?_, h.once hth⟩
        obtain ⟨q, hq, heq⟩ := h.owed ⟨th, hth, hmem⟩
        exact h.pair_ne hq heq.symm
    · simpa [Thread.pairs] using Routine.nodup_pairs root
  · rcases hbears hu with ⟨hu', hkept⟩ | ⟨file, limit, stack, hr, rfl⟩ | ⟨t, limit, inner, stack, hr, hp, ht, -, honly⟩
    · rcases hbears hv with ⟨hv', -⟩ | ⟨file, limit, stack, -, rfl⟩ | ⟨t, limit, inner, stack, hr, hp, ht, -, -⟩
      · exact h.alone hu' hv'
      · exact absurd hu' h.not_bears_new
      · exact absurd (.inl ⟨limit, inner, stack, h.alone hu' ht ▸ hr, hp⟩) hkept
    · rcases hbears hv with ⟨hv', -⟩ | ⟨file', limit', stack', hr', -⟩ | ⟨t, limit', inner, stack', -, -, ht, -, -⟩
      · exact absurd hv' h.not_bears_new
      · cases hr.symm.trans hr'
        rfl
      · exact absurd ht h.not_bears_new
    · rcases hbears hv with ⟨hv', hkept⟩ | ⟨file, limit', stack', -, rfl⟩ | ⟨-, -, -, -, -, -, -, hnone, -⟩
      · exact absurd (.inl ⟨limit, inner, stack, h.alone hv' ht ▸ hr, hp⟩) hkept
      · exact absurd ht h.not_bears_new
      · obtain ⟨th, hth, -⟩ := hv
        obtain ⟨root, hroot, -⟩ := hb.fits.threads hth
        exact (honly hnone hroot).symm
  · rcases hbears hu with ⟨hu', -⟩ | ⟨file, limit, stack, hr, rfl⟩ | ⟨t, -, -, -, -, -, ht, -, -⟩
    · obtain ⟨q, hq, heq⟩ := h.owed hu'
      exact ⟨q, hold hq, heq⟩
    · refine ⟨_, List.mem_append_left _ ?_, rfl⟩
      rw [Moment.queries_of_running hr]
      exact List.mem_singleton.mpr rfl
    · obtain ⟨q, hq, heq⟩ := h.owed ht
      exact ⟨q, hold hq, heq⟩
  · intro hmem
    obtain ⟨⟨t', p'⟩, hx, hxp⟩ := List.mem_map.mp hmem
    obtain rfl : p' = p := hxp
    rcases hbears hu with ⟨hu', hkept⟩ | ⟨file, limit, stack, hr, rfl⟩ | ⟨t, limit, inner, stack, hr, -, ht, -, -⟩
    · rcases mem_sent_cons.mp hx with hs | hx
      · obtain ⟨w, hw, hyields⟩ := Moment.bears_of_sends hs
        exact hkept (h.alone hw hu' ▸ hyields)
      · exact h.unsent hu' (List.mem_map.mpr ⟨_, hx, rfl⟩)
    · obtain ⟨q, hq, heq⟩ := h.sends.2 _ hx
      exact h.pair_ne hq heq.symm
    · rcases mem_sent_cons.mp hx with hs | hx
      · obtain ⟨-, w, v, l, stack', hr'⟩ := Moment.sends_eq_some hs
        cases hr.symm.trans hr'
      · exact h.unsent ht (List.mem_map.mpr ⟨_, hx, rfl⟩)
  · obtain ⟨q, hq, heq⟩ := h.sends.2 x hx
    exact ⟨q, hold hq, heq⟩

end Tallied

/-- **At every moment of a run no two have asked under the same numbers**, and no pair of requests is in two hands, or sent
twice. -/
theorem IsRun.tallied (h : IsRun (a :: past)) : Tallied a past :=
  (h.induction (P := fun a past => IsRun (a :: past) ∧ Tallied a past) (fun hm => ⟨.new hm, hm.tallied⟩)
    fun ha hb hg ⟨hrun, ht⟩ => ⟨.step hrun hg.step, ht.step hrun ha hb hg⟩).2.2

end goes

end DiagnosticsClient
