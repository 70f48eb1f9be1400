import DiagnosticsClient.Proofs.Async.Turn
import DiagnosticsClient.Proofs.Session.Frames
/-
The threads of a session.

`Fits` says that every thread of a loop fits the routine its task was made for,
that no two threads wait for one future of the lock or of a listener, and that
every outcome is one its routine may give. `Does` is what has to be shown of
each routine and each frame: what it does at once is an effect, and what it does
next fits the routine it serves. Then every step of the loop keeps `Fits`
(`Fits.extends`, `Fits.switch`).
-/
namespace DiagnosticsClient

open Async Async.Machine

/-- What a loop is used for. -/
inductive Usage where
  /-- It is that of a session, which starts its transports itself. -/
  | session
  /-- Somebody starts and stops a transport, and watches what it passes on. -/
  | transport

namespace Usage

/-- Who is told what transports receive. -/
def receiver : Usage → Receiver
  | session => .session
  | transport => .watcher

/-- What tasks may be made for. -/
def roots : Usage → Routine → Bool
  | transport, .start _ => true
  | _, r => r.isRoot

theorem roots_of_isSpawned {usage : Usage} {r : Routine} (h : r.isSpawned = true) : usage.roots r = true := by
  have hroot := Routine.isRoot_of_isSpawned h
  cases usage <;> cases r <;> first | exact hroot | rfl

end Usage

namespace Loop

variable {role role' : FutureId → Role} {usage : Usage} {m m' m₁ : Loop} {t u : TaskId} {f : FutureId} {root called : Routine}
  {x : Running Routine Frame Value Failure} {th : Thread Routine Frame Value Failure} {stack : List Frame}

/-- A task that the session may cancel: one of its own that does not run, and that reads from a child or is to be cancelled
and waited for now. -/
def Cancellable (m : Loop) (t : TaskId) : Prop :=
  (∃ r, m.routine? t = some r ∧ r.isInner = true ∧
    (r.reads = true ∨ ∃ u stack, m.running = some (.begin u (.cancelAndWait t) stack))) ∧
  ∀ x, m.running = some x → x.task ≠ t

/-- What a routine of the session may do at once. -/
abbrev grant (role : FutureId → Role) (D : ChildId → Prop) (m : Loop) (called : Routine) : Licence Routine :=
  { permit role D m.Cancellable called.Spawns with gather := called.gathers = true }

theorem grant_covers {role : FutureId → Role} {D : ChildId → Prop} {m : Loop} {called : Routine} :
    (grant role D m called).Covers (permit role D m.Cancellable called.Spawns) where
  target := id
  wake := id
  cancel := id
  spawn := id
  gather := False.elim

/-- All threads fit. -/
structure Fits (role : FutureId → Role) (m : Loop) (usage : Usage := .session) : Prop where
  tidy : m.Tidy role
  receiver : m.state.receiver = usage.receiver
  roots : ∀ {t : TaskId} {r : Routine}, m.routine? t = some r → usage.roots r = true
  threads : ∀ {t : TaskId} {th : Thread Routine Frame Value Failure}, m.thread? t = some th →
    ∃ root, m.routine? t = some root ∧ ThreadFits role m root th
  apart : ∀ {t u : TaskId} {f : FutureId} {s s' : List Frame}, role f ≠ .other → m.thread? t = some ⟨.waits f, s⟩ →
    m.thread? u = some ⟨.waits f, s'⟩ → t = u
  gave : ∀ {t : TaskId} {root : Routine} {v : Value}, m.routine? t = some root →
    m.taskOutcome? t = some (.value v) → root.Gives m.state v

/-- What a routine or frame does next fits the routine that was called; a future of the lock or a listener that is
waited for is new. -/
inductive MoveFits (role : FutureId → Role) (m : Loop) (size : Nat) (called : Routine) : Move → Prop
  | done {o : Ending} (h : ∀ v, o = .value v → called.Gives m.state v) : MoveFits role m size called (.done o)
  | call {r : Routine} {F : Frame} (hc : F.Calls r) (hs : F.Serves m.routine? called) (hu : r.Minds m.routine? called)
      (hv : r.Valid m.routine?) : MoveFits role m size called (.call r F)
  | become {r : Routine} (hr : r.StandsFor called) (hv : r.Valid m.routine?) : MoveFits role m size called (.become r)
  | await {f : FutureId} {F : Frame} (hs : F.Serves m.routine? called) (ha : F.Awaits role m f)
      (hn : role f ≠ .other → size ≤ f) : MoveFits role m size called (.await f F)

/-- What a routine or frame does is an effect, and fits the routine that was called. -/
structure Does (role role' : FutureId → Role) (m : Loop) (called : Routine) (s : Loop × Move) : Prop where
  effect : Effect (grant role s.1.state.IsDead m called) m s.1
  dead : ∀ {c}, m.state.IsDead c → s.1.state.IsDead c
  tidy : s.1.Tidy role'
  agrees : Agrees role role' m
  receiver : s.1.state.receiver = m.state.receiver
  move : MoveFits role' s.1 m.futures.size called s.2

theorem Does.of_spawns {s : Loop × Move} (h : Works role m.Cancellable called.Spawns m s.1)
    (hm : MoveFits role s.1 m.futures.size called s.2) : Does role role m called s :=
  ⟨h.effect.mono grant_covers, h.dead, h.tidy, fun _ _ => rfl, h.receiver, hm⟩

theorem Does.of_works {s : Loop × Move} (h : Works role m.Cancellable (·.isOwn = true) m s.1)
    (hm : MoveFits role s.1 m.futures.size called s.2) : Does role role m called s :=
  .of_spawns ⟨h.effect.mono ⟨id, id, id, .inl, id⟩, h.dead, h.tidy, h.receiver⟩ hm

theorem keeps_of_switch {th : Option (Thread Routine Frame Value Failure)} (h : m.Switch t th m') : m.Keeps m' :=
  ⟨fun hr => by rw [h.routine, hr], fun hx => by rw [h.owner, hx], fun hf ho => by rw [h.outcome hf, ho]⟩

/-- What is run as a task is about no other tasks. -/
theorem Fits.valid_root (hf : Fits role m usage) (hr : m.routine? t = some root) : root.Valid m.routine? := by
  have hroot := hf.roots hr
  cases usage <;> cases root <;> trivial

/-- Threads fit while the loop is extended. -/
theorem Fits.extends {may : Licence Routine} (hf : Fits role m usage) (he : m.Extends may m')
    (hs : ∀ {r}, may.spawn r → usage.roots r = true) (ht : m'.Tidy role') (hr : Agrees role role' m)
    (hrec : m'.state.receiver = m.state.receiver) (hd : ∀ {c}, m.state.IsDead c → m'.state.IsDead c) : Fits role' m' usage := by
  have hkeeps := keeps_of_extends he
  have hcases : ∀ {t th}, m'.thread? t = some th → m.thread? t = some th ∨
      ∃ r, may.spawn r ∧ m.tasks.size ≤ t ∧ m'.routine? t = some r ∧ th = ⟨.fresh r, []⟩ :=
    he.thread?_cases hf.tidy.sound ht.sound
  have hwaits : ∀ {t f s}, m'.thread? t = some ⟨.waits f, s⟩ → m.thread? t = some ⟨.waits f, s⟩ := by
    intro t f s hth
    rcases hcases hth with hth | ⟨_, -, -, -, heq⟩
    · exact hth
    · cases heq
  refine ⟨ht, hrec.trans hf.receiver, ?_, ?_, ?_, ?_⟩
  · intro t r hroutine
    obtain ⟨task, htask, rfl⟩ := Option.map_eq_some_iff.mp hroutine
    rcases he.task_cases htask with ⟨task', held, htask', rfl, -⟩ | ⟨-, hspawn, -⟩
    · exact hf.roots (t := t) (by simp [routine?, htask'])
    · exact hs hspawn
  · intro t th hth
    rcases hcases hth with hth | ⟨r, -, -, hroot, rfl⟩
    · obtain ⟨root, hroot, hfits⟩ := hf.threads hth
      exact ⟨root, hkeeps.routine hroot, hfits.keeps hkeeps hr hd⟩
    · exact ⟨r, hroot, .fresh⟩
  · intro t u f s s' hne ht' hu'
    have hrole : role' f = role f := by
      obtain ⟨root, -, hfits⟩ := hf.threads (hwaits ht')
      cases hfits with
      | waits _ ha _ => exact hr _ ha.lt_size
    exact hf.apart (hrole ▸ hne) (hwaits ht') (hwaits hu')
  · intro t root v hroutine hout
    obtain ⟨task, htask, rfl⟩ := Option.map_eq_some_iff.mp hroutine
    rcases he.task_cases htask with ⟨task', held, htask', rfl, -⟩ | ⟨hge, -⟩
    · have hlt := (Array.getElem?_eq_some_iff.mp htask').1
      rw [he.taskOutcome? ht.sound.owned hlt] at hout
      exact (hf.gave (by simp [routine?, htask']) hout).mono hd
    · have hfresh := he.thread?_new hf.tidy.sound.owned ht.sound hge htask fun x hx => (hf.tidy.sound.running hx).lt_size
      rw [ht.sound.taskOutcome?_of_thread? hfresh] at hout
      cases hout

/-- Threads fit while one of them moves. -/
theorem Fits.switch {th : Option (Thread Routine Frame Value Failure)} (hf : Fits role m usage) (hs : m.Switch t th m')
    (hsound : m'.Sound fun f => (role f).isScheduled = true)
    (hth : ∀ th', th = some th' → ∃ root, m.routine? t = some root ∧ ThreadFits role m root th')
    (hap : ∀ f s, th = some ⟨.waits f, s⟩ → role f ≠ .other → ∀ u s', u ≠ t → m.thread? u ≠ some ⟨.waits f, s'⟩)
    (hend : ∀ root v, m.routine? t = some root → m'.taskOutcome? t = some (.value v) → root.Gives m.state v) :
    Fits role m' usage := by
  have hkeeps := keeps_of_switch hs
  have hdead : ∀ {c}, m.state.IsDead c → m'.state.IsDead c := fun hc => by rwa [hs.state]
  refine ⟨⟨hsound, fun hne => hkeeps.owner (hf.tidy.special hne), ?_, fun {f c v} hrole ho => ?_⟩, by rw [hs.state, hf.receiver], ?_, ?_, ?_, ?_⟩
  · rw [hs.state]
    exact names_keeps hf.tidy.names hkeeps
  · have hplain := hf.tidy.special (f := f) (by rw [hrole]; exact Role.noConfusion)
    exact hdead (hf.tidy.exits hrole ((hs.outcome hplain).symm.trans ho))
  · intro u r hr
    exact hf.roots (hs.routine u ▸ hr)
  · intro u th' hu
    by_cases hut : u = t
    · subst hut
      rw [hs.self] at hu
      obtain ⟨root, hroot, hfits⟩ := hth th' hu
      exact ⟨root, hkeeps.routine hroot, hfits.keeps hkeeps (fun _ _ => rfl) hdead⟩
    · rw [hs.other hut] at hu
      obtain ⟨root, hroot, hfits⟩ := hf.threads hu
      exact ⟨root, hkeeps.routine hroot, hfits.keeps hkeeps (fun _ _ => rfl) hdead⟩
  · intro u w f s s' hne hu hw
    by_cases hut : u = t
    · subst hut
      by_cases hwt : w = u
      · exact hwt.symm
      · rw [hs.self] at hu
        rw [hs.other hwt] at hw
        exact absurd hw (hap f s hu hne w s' hwt)
    · rw [hs.other hut] at hu
      by_cases hwt : w = t
      · subst hwt
        rw [hs.self] at hw
        exact absurd hu (hap f s' hw hne u s hut)
      · rw [hs.other hwt] at hw
        exact hf.apart hne hu hw
  · intro u root v hroot hout
    rw [hs.routine] at hroot
    by_cases hut : u = t
    · subst hut
      exact (hend root v hroot hout).mono hdead
    · rw [hs.ended hut] at hout
      exact (hf.gave hroot hout).mono hdead

/-! ## Steps between the turns of tasks -/

/-- A task that is set going fits. -/
theorem Fits.awakes {th' : Thread Routine Frame Value Failure} (hf : Fits role m usage) (hth : m.thread? t = some th)
    (ha : m.Awakes t th th') : ∃ root, m.routine? t = some root ∧ ThreadFits role m root th' := by
  obtain ⟨root, hroot, hfits⟩ := hf.threads hth
  refine ⟨root, hroot, ?_⟩
  cases ha with
  | begins h =>
    cases hfits with
    | fresh => exact .begins (hf.valid_root hroot) (.refl root) .nil
  | dropped h => exact .ends fun v hv => by cases hv
  | resumes h ho =>
    cases hfits with
    | waits hs ha h => exact .resumes hs (.inl ha.isWait) (ha.woke hf.tidy ho (.inl rfl)) h
  | interrupted h hset =>
    obtain ⟨o, ho⟩ := isSettled_iff.mp hset
    cases hfits with
    | waits hs ha h => exact .resumes hs (.inl ha.isWait) (ha.woke hf.tidy ho (.inr rfl)) h

/-! ## Steps of the running task -/

/-- What the running task does next fits. -/
theorem MoveFits.next {size : Nat} {a : Move} (h : MoveFits role m size called a) (ht : m.Tidy role)
    (hs : Stacked m.routine? root called stack) : ThreadFits role m root (m.nextThread stack a) := by
  cases h with
  | done h =>
    cases hs with
    | nil => exact .ends h
    | cons hc hs hu hstack => exact .resumes hs (.inr ⟨_, hc, h⟩) hc.woke hstack
  | call hc hf hu hv => exact .begins hv (.refl _) (.cons hc hf hu hs)
  | become hr hv => exact .begins hv hr hs
  | await hf ha hn =>
    unfold nextThread
    dsimp only
    split
    · next o ho => exact .resumes hf (.inl ha.isWait) (ha.woke ht ho (.inl rfl)) hs
    · exact .waits hf ha hs

/-- Threads fit after a step of the running task, if what it does is an effect that fits. -/
theorem Fits.tick_of_does (hf : Fits role m usage) (hr : m.running = some x) (hroot : m.routine? x.task = some root)
    (hstack : Stacked m.routine? root called stack) {s : Loop × Move} (hd : Does role role' m called s) :
    Fits role' s.1 usage ∧ Fits role' (s.1.perform x.task stack s.2) usage ∧
      s.1.Switch x.task (some (s.1.nextThread stack s.2)) (s.1.perform x.task stack s.2) := by
  have he := hd.effect.extends
  have hfits := hf.extends he (fun hr => Usage.roots_of_isSpawned hr.isSpawned) hd.tidy hd.agrees hd.receiver hd.dead
  have hrun : s.1.running = some x := he.running.trans hr
  obtain ⟨hsound, hswitch⟩ := perform_switch hd.tidy.sound hrun stack s.2 fun f F hawait => by
    have hmove := hd.move
    rw [hawait] at hmove
    cases hmove with
    | await hs ha hn => exact ha.lt_size
  refine ⟨hfits, hfits.switch hswitch hsound ?_ ?_ ?_, hswitch⟩
  · rintro _ ⟨⟩
    exact ⟨root, he.routine? hroot, hd.move.next hd.tidy (hstack.mono he.routine?)⟩
  · -- a future of the lock or of a listener is new, so nobody else waits for it
    intro f stack' hawait hne u s' hu hth
    have hwait : m.futures.size ≤ f := by
      have hmove := hd.move
      cases ha : s.2 with
      | await g F =>
        rw [ha] at hmove hawait
        unfold nextThread at hawait
        dsimp only at hawait
        split at hawait
        · cases hawait
        · cases hawait
          cases hmove with
          | await hs ha hn => exact hn hne
      | _ => rw [ha] at hawait; cases hawait
    rcases he.thread?_cases hf.tidy.sound hd.tidy.sound hth with hold | ⟨_, -, -, -, heq⟩
    · obtain ⟨_, -, hfits'⟩ := hf.threads hold
      cases hfits' with
      | waits _ ha _ => exact Nat.not_lt_of_le hwait ha.lt_size
    · cases heq
  · intro root' v _ hout
    rw [hsound.taskOutcome?_of_thread? hswitch.self] at hout
    cases hout

/-! ## New roles -/

/-- The roles of futures, with one more. -/
def assign (role : FutureId → Role) (f : FutureId) (k : Role) : FutureId → Role := fun g => if g = f then k else role g

theorem agrees_assign (k : Role) (hf : m.futures.size ≤ f) : Agrees role (assign role f k) m :=
  fun _ hlt => if_neg (Nat.ne_of_lt (Nat.lt_of_lt_of_le hlt hf))

/-- A new future may get the role of what is waited for. -/
theorem Tidy.assign (h : m.Tidy role) (k : Role) :
    m.future.1.Tidy (assign role m.futures.size k) ∧ m.future.1.HasRole (assign role m.futures.size k) k m.futures.size := by
  have hroles : Agrees role (Loop.assign role m.futures.size k) m := agrees_assign k (Nat.le_refl _)
  obtain ⟨hnew, hrole⟩ := Aside.future (K := fun _ => False) (S := fun _ => False) h
  have hkeeps := keeps_of_extends hnew.effect.extends
  have hkind : ∀ {k' f}, m.HasRole role k' f → m.future.1.HasRole (Loop.assign role m.futures.size k) k' f :=
    fun hf => (hf.agrees hroles).keeps hkeeps
  refine ⟨⟨?_, ?_, ?_, ?_⟩, hrole.1, if_pos rfl⟩
  · exact (h.sound.mono fun hf hs => (congrArg Role.isScheduled (hroles _ hf.lt_size)).trans hs).newFuture
  · intro f hne
    by_cases hf : f = m.futures.size
    · exact hf ▸ hrole.1
    · exact hkeeps.owner (h.special (by rwa [Loop.assign, if_neg hf] at hne))
  · exact h.names.mono hkind hkind hkind hkind (·.keeps hkeeps)
  · intro f c v hexit ho
    have hold : m.outcome? f = some (.value v) := (outcome?_push rfl f).symm.trans ho
    obtain ⟨future, hget, -⟩ := Option.bind_eq_some_iff.mp hold
    exact h.exits ((hroles f (Array.getElem?_eq_some_iff.mp hget).1).symm.trans hexit) hold

/-- A future that was made a moment ago, and that nobody names, may be reserved. -/
theorem Tidy.reserve (h : m.Tidy role) (h' : m'.Tidy role) (hk : m.Keeps m') (hs : m'.state = m.state)
    (hlt : m.futures.size ≤ f) (hf : m'.IsPlain f) : m'.Tidy (Loop.assign role f .reserved) := by
  have hroles : Agrees role (Loop.assign role f .reserved) m := agrees_assign .reserved hlt
  have hkind : ∀ {k' g}, m.HasRole role k' g → m'.HasRole (Loop.assign role f .reserved) k' g :=
    fun hg => (hg.agrees hroles).keeps hk
  refine ⟨h'.sound.mono fun {g} _ hg => ?_, fun {g} hne => ?_, ?_, fun {g c v} hexit ho => ?_⟩
  · unfold Loop.assign
    split
    · rfl
    · exact hg
  · unfold Loop.assign at hne
    split at hne
    · next heq => exact heq ▸ hf
    · exact h'.special hne
  · rw [hs]
    exact h.names.mono hkind hkind hkind hkind (·.keeps hk)
  · unfold Loop.assign at hexit
    split at hexit
    · cases hexit
    · exact h'.exits hexit ho

end Loop

end DiagnosticsClient
