import DiagnosticsClient.Proofs.Async.Calls
import DiagnosticsClient.Session.Stimulus
/-
What the futures of a session are for.

Every plain future has a role: it stands in the queue of the lock, it stands in
the queue of a listener, it stands for the end of a child, it is reserved for what
the loop itself settles, or it is for something else. Futures of the last kind may
be settled by anybody with anything, those of a listener with a value, those of a
child with a value once it has ended, those of the lock by nobody but who gives the
lock up, and those that are reserved between turns only. `Tidy` says that each list
of the session names futures of its own role, and that a child has ended if the
wait for its end is over.

`Aside` is what most routines do: an effect that leaves the core of the session
alone, that is the lock, the listeners, the current transport, and what was
received and delivered.
-/
namespace DiagnosticsClient

open Async Async.Machine

/-- What a future is for. -/
inductive Role where
  | lock
  | getter
  /-- The end of a child. -/
  | exit (c : ChildId)
  /-- The end of a time limit. -/
  | reserved
  | other
deriving DecidableEq

/-- A future that timers and callbacks may settle. -/
def Role.isScheduled : Role → Bool
  | .reserved => true
  | .other => true
  | _ => false

namespace Routine

/-- What a session has run as tasks that it may cancel. -/
def isInner : Routine → Bool
  | .exchange .. => true
  | .awaitExit .. => true
  | .readOutput .. => true
  | .drainErrors .. => true
  | _ => false

/-- What reads from a child. -/
def reads : Routine → Bool
  | .readOutput .. => true
  | .drainErrors .. => true
  | _ => false

/-- What a session has run as tasks of its own accord. -/
def isOwn : Routine → Bool
  | .stop _ => true
  | r => r.reads

/-- What a check has run as its members. -/
def isMember : Routine → Bool
  | .checkFile .. => true
  | _ => false

/-- A routine that makes a group. -/
def gathers : Routine → Bool
  | .checkFiles .. => true
  | _ => false

/-- What a session has run as tasks. -/
def isSpawned : Routine → Bool
  | .stop _ => true
  | .checkFile .. => true
  | r => r.isInner

theorem isInner_of_reads {r : Routine} (h : r.reads = true) : r.isInner = true := by
  cases r <;> first | rfl | cases h

theorem isSpawned_of_isInner {r : Routine} (h : r.isInner = true) : r.isSpawned = true := by
  cases r <;> first | rfl | cases h

theorem isSpawned_of_isOwn {r : Routine} (h : r.isOwn = true) : r.isSpawned = true := by
  cases r <;> first | rfl | cases h

theorem isSpawned_of_isMember {r : Routine} (h : r.isMember = true) : r.isSpawned = true := by
  cases r <;> first | rfl | cases h

theorem isOwn_of_reads {r : Routine} (h : r.reads = true) : r.isOwn = true := by
  cases r <;> first | rfl | cases h

/-- A routine has another one run as a task: one of the session's own, the one whose time it limits, or a member of its check. -/
def Spawns (called r : Routine) : Prop :=
  r.isOwn = true ∨ (r.isInner = true ∧ ∃ limit, called = .within limit r) ∨ (r.isMember = true ∧ called.gathers = true)

theorem Spawns.isSpawned {called r : Routine} (h : called.Spawns r) : r.isSpawned = true := by
  rcases h with h | ⟨h, -⟩ | ⟨h, -⟩
  · exact isSpawned_of_isOwn h
  · exact isSpawned_of_isInner h
  · exact isSpawned_of_isMember h

end Routine

/-! ## What a state names -/

/-- The futures of a transport satisfy `P`, its tasks `R`. -/
def Transport.Names (P : FutureId → Prop) (R : TaskId → Prop) : Transport → Prop
  | .child c => (∀ u ∈ c.reader, R u) ∧ ∀ u ∈ c.drain, R u
  | .rehearsed r => (∀ f ∈ r.startGate.waiters, P f) ∧ ∀ f ∈ r.stopGate.waiters, P f

/-- The futures of a child satisfy `P`, those that stand for its end `E`. -/
structure Child.Names (P E : FutureId → Prop) (c : Child) : Prop where
  exits : ∀ f ∈ c.exitWaiters, E f
  output : ∀ f ∈ c.output.waiter, P f
  errors : ∀ f ∈ c.errors.waiter, P f

/-- The futures of the lock satisfy `L`, those of the listeners `G`, those for the end of a child `E`, all others `P`;
tasks satisfy `R`. -/
structure State.Names (P L G : FutureId → Prop) (E : ChildId → FutureId → Prop) (R : TaskId → Prop) (s : State) :
    Prop where
  transports : ∀ t ∈ s.transports, t.Names P R
  children : ∀ {c : ChildId} {child : Child}, s.children[c]? = some child → child.Names P (E c)
  lock : ∀ f ∈ s.lock.waiters, L f
  getters : ∀ l ∈ s.listeners, ∀ f ∈ l.getters, G f

section names

variable {P P' L L' G G' : FutureId → Prop} {E E' : ChildId → FutureId → Prop} {R R' : TaskId → Prop}

theorem Transport.Names.mono {t : Transport} (h : t.Names P R) (hP : ∀ {f}, P f → P' f) (hR : ∀ {u}, R u → R' u) :
    t.Names P' R' := by
  cases t with
  | child c => exact ⟨fun u hu => hR (h.1 u hu), fun u hu => hR (h.2 u hu)⟩
  | rehearsed r => exact ⟨fun f hf => hP (h.1 f hf), fun f hf => hP (h.2 f hf)⟩

theorem Child.Names.mono {Q Q' : FutureId → Prop} {c : Child} (h : c.Names P Q) (hP : ∀ {f}, P f → P' f)
    (hQ : ∀ {f}, Q f → Q' f) : c.Names P' Q' :=
  ⟨fun f hf => hQ (h.exits f hf), fun f hf => hP (h.output f hf), fun f hf => hP (h.errors f hf)⟩

theorem State.Names.mono {s : State} (h : s.Names P L G E R) (hP : ∀ {f}, P f → P' f) (hL : ∀ {f}, L f → L' f)
    (hG : ∀ {f}, G f → G' f) (hE : ∀ {c f}, E c f → E' c f) (hR : ∀ {u}, R u → R' u) : s.Names P' L' G' E' R' :=
  ⟨fun t ht => (h.transports t ht).mono hP hR, fun hc => (h.children hc).mono hP hE, fun f hf => hL (h.lock f hf),
    fun l hl f hf => hG (h.getters l hl f hf)⟩

theorem mem_modify {α : Type} {xs : List α} {i : Nat} {f : α → α} {y : α} (h : y ∈ xs.modify i f) :
    y ∈ xs ∨ ∃ x ∈ xs, xs[i]? = some x ∧ y = f x := by
  obtain ⟨j, hj⟩ := List.getElem?_of_mem h
  rw [List.getElem?_modify] at hj
  obtain ⟨x, hx, rfl⟩ := Option.map_eq_some_iff.mp hj
  split
  · next heq => subst heq; exact .inr ⟨x, List.mem_of_getElem? hx, hx, rfl⟩
  · exact .inl (List.mem_of_getElem? hx)

/-- A transport may be changed to one whose futures and tasks are of the right kind. -/
theorem State.Names.modifyTransports {s : State} (h : s.Names P L G E R) (i : Nat) {k : Transport → Transport}
    (hc : ∀ t, s.transports[i]? = some t → t.Names P R → (k t).Names P R) :
    State.Names P L G E R { s with transports := s.transports.modify i k } := by
  refine ⟨fun t ht => ?_, h.children, h.lock, h.getters⟩
  rcases mem_modify ht with hmem | ⟨t, hmem, hget, rfl⟩
  · exact h.transports t hmem
  · exact hc t hget (h.transports t hmem)

theorem State.Names.modifyChild {s : State} (h : s.Names P L G E R) (i : ChildId) {k : Child → Child}
    (hc : ∀ c, s.children[i]? = some c → c.Names P (E i) → (k c).Names P (E i)) :
    State.Names P L G E R (s.modifyChild i k) := by
  refine ⟨h.transports, fun {j child} hj => ?_, h.lock, h.getters⟩
  rw [show (s.modifyChild i k).children = s.children.modify i k from rfl, List.getElem?_modify] at hj
  obtain ⟨x, hx, rfl⟩ := Option.map_eq_some_iff.mp hj
  split
  · next heq => subst heq; exact hc x hx (h.children hx)
  · exact h.children hx

theorem State.Names.modifyListener {s : State} (h : s.Names P L G E R) (i : Nat) {k : Listener → Listener}
    (hc : ∀ l, s.listeners[i]? = some l → (∀ f ∈ l.getters, G f) → ∀ f ∈ (k l).getters, G f) :
    State.Names P L G E R (s.modifyListener i k) := by
  refine ⟨h.transports, h.children, h.lock, fun l hl => ?_⟩
  rcases mem_modify hl with hmem | ⟨l, hmem, hget, rfl⟩
  · exact h.getters l hmem
  · exact hc l hget (h.getters l hmem)

end names

/-! ## Children that have ended -/

namespace State

/-- Whether a child has ended. -/
def IsDead (s : State) (c : ChildId) : Prop := (s.child c).isAlive = false

theorem child_modifyChild (s : State) (c c' : ChildId) (k : Child → Child) :
    (s.modifyChild c k).child c' = if c' = c ∧ c < s.children.length then k (s.child c) else s.child c' := by
  unfold State.child State.modifyChild
  simp only [List.getElem?_modify]
  by_cases h : c = c'
  · subst h
    rcases Nat.lt_or_ge c s.children.length with hlt | hge
    · simp [hlt]
    · simp [Nat.not_lt.mpr hge]
  · simp [h, Ne.symm h]

theorem IsDead.lt_length {s : State} {c : ChildId} (h : s.IsDead c) : c < s.children.length := by
  refine Nat.lt_of_not_le fun hge => ?_
  rw [IsDead, State.child, List.getElem?_eq_none hge] at h
  cases h

theorem IsDead.append {s : State} {c : ChildId} (h : s.IsDead c) (child : Child) :
    State.IsDead { s with children := s.children ++ [child] } c := by
  have hlt := h.lt_length
  unfold IsDead State.child at h ⊢
  rwa [List.getElem?_append_left hlt]

/-- A child that has ended stays so, whatever else is changed of it. -/
theorem IsDead.modifyChild {s : State} {c' : ChildId} (h : s.IsDead c') (c : ChildId) {k : Child → Child}
    (hk : ∀ x : Child, x.isAlive = false → (k x).isAlive = false) : (s.modifyChild c k).IsDead c' := by
  unfold IsDead
  rw [child_modifyChild]
  split
  · next heq => exact hk _ (heq.1 ▸ h)
  · exact h

end State

/-! ## The core of a state -/

/-- Entries about what was received and what became of it. -/
def Entry.isHeard : Entry → Bool
  | .received .. => true
  | .reported .. => true
  | .delivered .. => true
  | _ => false

/-- The part of the transcript about what was received. -/
def State.log (s : State) : List Entry := s.transcript.toList.filter Entry.isHeard

/-- What the listeners of a session have to do with. -/
structure Core where
  receiver : Receiver
  lock : Lock
  listeners : List Listener
  registered : List ListenerId
  current : Option TransportId
  nextSeq : Nat
  log : List Entry

def State.core (s : State) : Core :=
  ⟨s.receiver, s.lock, s.listeners, s.registered, s.current, s.nextSeq, s.log⟩

@[simp] theorem State.log_record (s : State) (e : Entry) :
    (s.record e).log = s.log ++ if e.isHeard then [e] else [] := by
  simp [State.log, State.record, List.filter_append, List.filter_cons]

theorem State.core_record {s : State} {e : Entry} (h : e.isHeard = false) : (s.record e).core = s.core := by
  have hlog : (s.record e).log = s.log := by simp [h]
  simp only [State.core, hlog]
  rfl

namespace Loop

variable {role role' : FutureId → Role} {K : TaskId → Prop} {S : Routine → Prop} {m m' m'' : Loop}
  {f : FutureId} {u : TaskId}

/-! ## What a session may do -/

/-- The licence of what a session does: to settle futures of no special role, to wake those who wait for a listener or
for the end of a child in `D`. -/
def licence (role : FutureId → Role) (D : ChildId → Prop) (K : TaskId → Prop) (S : Routine → Prop) : Licence Routine where
  target f := role f = .other
  wake f := role f = .getter ∨ ∃ c, role f = .exit c ∧ D c
  cancel := K
  spawn := S

theorem licence_covers {D D' : ChildId → Prop} (h : ∀ {c}, D' c → D c) : (licence role D K S).Covers (licence role D' K S) where
  target := id
  wake hf := hf.imp_right fun ⟨c, hrole, hc⟩ => ⟨c, hrole, h hc⟩
  cancel := id
  spawn := id
  gather := id

/-- The licence of the session: what it does aside, and to wake those who wait for the lock. -/
def permit (role : FutureId → Role) (D : ChildId → Prop) (K : TaskId → Prop) (S : Routine → Prop) : Licence Routine :=
  { licence role D K S with wake := fun f => role f = .lock ∨ (licence role D K S).wake f }

theorem permit_covers {D D' : ChildId → Prop} (h : ∀ {c}, D' c → D c) : (permit role D K S).Covers (permit role D' K S) where
  target := id
  wake hf := hf.imp_right (licence_covers (K := K) (S := S) h).wake
  cancel := id
  spawn := id
  gather := id

theorem permit_covers_licence {D : ChildId → Prop} : (permit role D K S).Covers (licence role D K S) where
  target := id
  wake := .inr
  cancel := id
  spawn := id
  gather := id

/-- A plain future with a role. -/
def HasRole (role : FutureId → Role) (k : Role) (m : Loop) (f : FutureId) : Prop := m.IsPlain f ∧ role f = k

/-- A task that reads from a child. -/
def IsReader (m : Loop) (u : TaskId) : Prop := ∃ r, m.routine? u = some r ∧ r.reads = true

/-- Every list of a state names futures of its own role. -/
abbrev Names (role : FutureId → Role) (m : Loop) (s : State) : Prop :=
  s.Names (m.HasRole role .other) (m.HasRole role .lock) (m.HasRole role .getter) (fun c => m.HasRole role (.exit c))
    m.IsReader

/-- The queues are in order, every list of the session names futures of its own role, and a child has ended if a future
for its end has a value. -/
structure Tidy (role : FutureId → Role) (m : Loop) : Prop where
  sound : m.Sound fun f => (role f).isScheduled = true
  special : ∀ {f : FutureId}, role f ≠ .other → m.IsPlain f
  names : Names role m m.state
  exits : ∀ {f : FutureId} {c : ChildId} {v : Value}, role f = .exit c → m.outcome? f = some (.value v) → m.state.IsDead c

/-- A future that is not there has no special role. -/
theorem Tidy.unused (h : m.Tidy role) (hf : m.futures.size ≤ f) : role f = .other := by
  refine Decidable.byContradiction fun hne => ?_
  exact Nat.not_lt_of_le hf (h.special hne).lt_size

/-- The future of a task has no special role. -/
theorem Tidy.role_of_owner (h : m.Tidy role) (hf : m.owner? f = some (some u)) : role f = .other := by
  refine Decidable.byContradiction fun hne => ?_
  have hplain := h.special hne
  rw [IsPlain, hf] at hplain
  cases hplain

/-- What tasks and futures are for stays as it was. -/
structure Keeps (m m' : Loop) : Prop where
  routine : ∀ {u : TaskId} {r : Routine}, m.routine? u = some r → m'.routine? u = some r
  owner : ∀ {f : FutureId} {x : Option TaskId}, m.owner? f = some x → m'.owner? f = some x
  outcome : ∀ {f : FutureId} {o : Ending}, m.IsPlain f → m.outcome? f = some o → m'.outcome? f = some o

theorem IsReader.keeps (hr : m.IsReader u) (h : m.Keeps m') : m'.IsReader u := by
  obtain ⟨r, hroutine, hreads⟩ := hr
  exact ⟨r, h.routine hroutine, hreads⟩

theorem HasRole.keeps {k : Role} (hf : m.HasRole role k f) (h : m.Keeps m') : m'.HasRole role k f :=
  ⟨h.owner hf.1, hf.2⟩

theorem keeps_of_extends {may : Licence Routine} (h : m.Extends may m') : m.Keeps m' :=
  ⟨h.routine?, h.owner, fun _ => h.outcome⟩

theorem HasRole.extends {may : Licence Routine} {k : Role} (hf : m.HasRole role k f) (h : m.Extends may m') :
    m'.HasRole role k f :=
  hf.keeps (keeps_of_extends h)

/-- What is named stays of the right kind. -/
theorem names_keeps {s : State} (hs : Names role m s) (h : m.Keeps m') : Names role m' s :=
  hs.mono (·.keeps h) (·.keeps h) (·.keeps h) (·.keeps h) (·.keeps h)

theorem names_extends {may : Licence Routine} {s : State} (hs : Names role m s) (h : m.Extends may m') : Names role m' s :=
  names_keeps hs (keeps_of_extends h)

/-- An effect leaves a loop tidy, if what it makes the session name is of the right kind. -/
theorem Tidy.effect {D : ChildId → Prop} (h : m.Tidy role) (he : Effect (permit role D K S) m m')
    (hD : ∀ {c}, D c → m'.state.IsDead c) (hd : ∀ {c}, m.state.IsDead c → m'.state.IsDead c)
    (hn : Names role m' m'.state) : m'.Tidy role where
  sound := he.sound (fun hf => congrArg Role.isScheduled hf) h.sound
  special hf := he.extends.owner (h.special hf)
  names := hn
  exits {f c v} hf ho := by
    have hplain := h.special (f := f) (by rw [hf]; exact Role.noConfusion)
    rcases he.extends.settled ho with ho | ⟨-, hset⟩
    · exact hd (h.exits hf ho)
    · rcases hset hplain.lt_size with hother | ⟨hlock | hgetter | ⟨c', hexit, hc⟩, -⟩ | ⟨hcancel, -⟩
      · cases hf.symm.trans hother
      · cases hf.symm.trans hlock
      · cases hf.symm.trans hgetter
      · cases hf.symm.trans hexit
        exact hD hc
      · cases hcancel

/-- What is done at once: an effect that leaves the session tidy, and wakes nobody who waits for a child but once it has
ended. -/
structure Acts (role : FutureId → Role) (K : TaskId → Prop) (S : Routine → Prop) (m m' : Loop) : Prop where
  effect : Effect (licence role m'.state.IsDead K S) m m'
  dead : ∀ {c}, m.state.IsDead c → m'.state.IsDead c
  tidy : m'.Tidy role

theorem Acts.refl (h : m.Tidy role) : Acts role K S m m := ⟨.refl, id, h⟩

theorem Acts.trans (h : Acts role K S m m') (h' : Acts role K S m' m'') : Acts role K S m m'' :=
  ⟨(h.effect.mono (licence_covers h'.dead)).trans h'.effect, fun hc => h'.dead (h.dead hc), h'.tidy⟩

/-- What is done without a change of what is shared. -/
theorem Acts.of_effect (h : m.Tidy role) (he : Effect (licence role m.state.IsDead K S) m m') (hs : m'.state = m.state) :
    Acts role K S m m' := by
  have hdead : ∀ {c}, m.state.IsDead c → m'.state.IsDead c := fun hc => by rwa [hs]
  exact ⟨he.mono (licence_covers hdead), hdead,
    h.effect (he.mono permit_covers_licence) hdead hdead (by rw [hs]; exact names_extends h.names he.extends)⟩

/-- A change of what is shared. -/
theorem Acts.modify (h : m.Tidy role) (k : State → State) (hd : ∀ {c}, m.state.IsDead c → (k m.state).IsDead c)
    (hn : Names role m (k m.state)) : Acts role K S m (m.modify k) := by
  have he : Effect (licence role (m.modify k).state.IsDead K S) m (m.modify k) := .single (.share m (k m.state))
  exact ⟨he, hd, h.effect (he.mono permit_covers_licence) id hd (names_extends hn he.extends)⟩

/-- What is done that leaves the core of the session alone. -/
structure Aside (role : FutureId → Role) (K : TaskId → Prop) (S : Routine → Prop) (m m' : Loop) : Prop
    extends Acts role K S m m' where
  core : m'.state.core = m.state.core

theorem Aside.refl (h : m.Tidy role) : Aside role K S m m := ⟨.refl h, rfl⟩

theorem Aside.trans (h : Aside role K S m m') (h' : Aside role K S m' m'') :
    Aside role K S m m'' :=
  ⟨h.toActs.trans h'.toActs, h'.core.trans h.core⟩

/-- What does not touch what is shared is aside. -/
theorem Aside.of_effect (h : m.Tidy role) (he : Effect (licence role m.state.IsDead K S) m m') (hs : m'.state = m.state) :
    Aside role K S m m' :=
  ⟨.of_effect h he hs, by rw [hs]⟩

/-- A change of what is shared, beside the core. -/
theorem Aside.modify (h : m.Tidy role) (k : State → State) (hc : (k m.state).core = m.state.core)
    (hd : ∀ {c}, m.state.IsDead c → (k m.state).IsDead c) (hn : Names role m (k m.state)) :
    Aside role K S m (m.modify k) :=
  ⟨.modify h k hd hn, hc⟩

theorem Aside.settle (h : m.Tidy role) (hf : m.HasRole role .other f) (o : Ending) :
    Aside role K S m (m.settle f o) :=
  .of_effect h (.single (.settle o hf.1 (.inl hf.2))) settle_state

/-- Futures of no special role are settled one after the other. -/
theorem Aside.settleAll (h : m.Tidy role) (fs : List FutureId) (hf : ∀ f ∈ fs, m.HasRole role .other f) (o : Ending) :
    Aside role K S m (fs.foldl (fun m f => m.settle f o) m) := by
  induction fs generalizing m with
  | nil => exact .refl h
  | cons f fs ih =>
    have hset := Aside.settle (K := K) (S := S) h (hf f List.mem_cons_self) o
    refine hset.trans (ih hset.tidy fun g hg => ?_)
    exact (hf g (List.mem_cons_of_mem _ hg)).extends hset.effect.extends

/-- A new future is of no special role until it is put somewhere. -/
theorem Aside.future (h : m.Tidy role) : Aside role K S m m.future.1 ∧ m.future.1.HasRole role .other m.future.2 := by
  have hnew : m.future.1.owner? m.futures.size = some none := by
    rw [Loop.future, newFuture, owner?_push, if_pos rfl]
  exact ⟨.of_effect h (.single (.newFuture m)) rfl, hnew, h.unused (Nat.le_refl _)⟩

theorem Aside.record (h : m.Tidy role) {e : Entry} (he : e.isHeard = false) : Aside role K S m (m.record e) :=
  .modify h _ (State.core_record he) id ⟨h.names.transports, h.names.children, h.names.lock, h.names.getters⟩

theorem Aside.note (h : m.Tidy role) (level : Level) (text : Text) : Aside role K S m (m.note level text) :=
  .record h rfl

/-! ## What the session does at once -/

/-- What the session does at once: an effect that leaves it tidy. -/
structure Works (role : FutureId → Role) (K : TaskId → Prop) (S : Routine → Prop) (m m' : Loop) : Prop where
  effect : Effect (permit role m'.state.IsDead K S) m m'
  dead : ∀ {c}, m.state.IsDead c → m'.state.IsDead c
  tidy : m'.Tidy role
  receiver : m'.state.receiver = m.state.receiver

theorem Works.refl (h : m.Tidy role) : Works role K S m m := ⟨.refl, id, h, rfl⟩

theorem Works.trans (h : Works role K S m m') (h' : Works role K S m' m'') : Works role K S m m'' :=
  ⟨(h.effect.mono (permit_covers h'.dead)).trans h'.effect, fun hc => h'.dead (h.dead hc), h'.tidy,
    h'.receiver.trans h.receiver⟩

theorem Acts.works (h : Acts role K S m m') (hr : m'.state.receiver = m.state.receiver) : Works role K S m m' :=
  ⟨h.effect.mono permit_covers_licence, h.dead, h.tidy, hr⟩

theorem Aside.works (h : Aside role K S m m') : Works role K S m m' := h.toActs.works (congrArg Core.receiver h.core)

/-- A change of what is shared. -/
theorem Works.modify (h : m.Tidy role) (k : State → State) (hr : (k m.state).receiver = m.state.receiver)
    (hd : ∀ {c}, m.state.IsDead c → (k m.state).IsDead c) (hn : Names role m (k m.state)) :
    Works role K S m (m.modify k) :=
  (Acts.modify h k hd hn).works hr

end Loop

end DiagnosticsClient
