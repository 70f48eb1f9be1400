import DiagnosticsClient.Proofs.Session.Members
/-
What lasts while a session goes on.

Transports are built and never taken away, a transport that was begun is not idle
again, a child that has ended stays so, and what was done stays in the transcript.
The current transport stays, or it is let go and a task is made to stop it
(`Succession`). All this is `Ages`; and most of what is done leaves every child
with the transport that drives it, too (`Lasts`).

There is a lemma for each thing that is done at once, with no condition on the loop.
-/
namespace DiagnosticsClient

open Async Async.Machine

/-- What a transport is. -/
def Transport.medium : Transport → Medium
  | .child _ => .children
  | .rehearsed _ => .rehearsals

/-- All transports are what those of the session are to be. -/
def State.Uniform (s : State) : Prop := ∀ x ∈ s.transports, x.medium = s.medium

/-- The child that a transport drives. -/
def State.drives (s : State) (t : TransportId) : Option ChildId := (s.childTransport t).child

/-- What a session is set up with, for good. -/
structure Setup where
  settings : Settings
  medium : Medium
  workingDirectory : Text
  source : Text → Except Failure Text

namespace State

def setup (s : State) : Setup := ⟨s.settings, s.medium, s.workingDirectory, s.source⟩

theorem childTransport_modifyChildTransport (s : State) (t t' : TransportId) (k : ChildTransport → ChildTransport) :
    (s.modifyChildTransport t k).childTransport t' = s.childTransport t' ∨
      t' = t ∧ (s.modifyChildTransport t k).childTransport t' = k (s.childTransport t) := by
  unfold childTransport modifyChildTransport
  by_cases h : t = t'
  · subst h
    cases ht : s.transports[t]? with
    | none => simp [ht]
    | some transport => cases transport <;> simp [ht]
  · simp [h]

theorem childTransport_modifyRehearsedTransport (s : State) (t t' : TransportId)
    (k : RehearsedTransport → RehearsedTransport) :
    (s.modifyRehearsedTransport t k).childTransport t' = s.childTransport t' := by
  unfold childTransport modifyRehearsedTransport
  simp only [List.getElem?_modify]
  cases s.transports[t']? with
  | none => rfl
  | some transport => cases transport <;> by_cases h : t = t' <;> simp [h]

/-- A transport stays what it is when it is changed. -/
theorem Uniform.modify {s : State} (h : s.Uniform) (t : TransportId) {k : Transport → Transport}
    (hk : ∀ x, (k x).medium = x.medium) : ({ s with transports := s.transports.modify t k } : State).Uniform := by
  intro x hx
  obtain ⟨i, hi⟩ := List.mem_iff_getElem?.mp hx
  rw [List.getElem?_modify] at hi
  obtain ⟨y, hy, rfl⟩ := Option.map_eq_some_iff.mp hi
  have hmedium := h y (List.mem_of_getElem? hy)
  split
  · exact (hk y).trans hmedium
  · exact hmedium

theorem Uniform.modifyChildTransport {s : State} (h : s.Uniform) (t : TransportId) (k : ChildTransport → ChildTransport) :
    (s.modifyChildTransport t k).Uniform :=
  h.modify t fun x => by cases x <;> rfl

theorem Uniform.modifyRehearsedTransport {s : State} (h : s.Uniform) (t : TransportId)
    (k : RehearsedTransport → RehearsedTransport) : (s.modifyRehearsedTransport t k).Uniform :=
  h.modify t fun x => by cases x <;> rfl

end State

namespace Loop

variable {m m' m'' : Loop} {t : TransportId} {c : ChildId}

/-- What becomes of the current transport. -/
inductive Succession (m m' : Loop) : Prop
  | stays (hc : m'.state.current = m.state.current)
      (hn : ∀ {u t}, m'.routine? u = some (.stop t) → m.routine? u = some (.stop t))
  /-- It reported its end. -/
  | lapses {t : TransportId} {u : TaskId} (hc : m.state.current = some t) (hc' : m'.state.current = none)
      (hr : ∃ e, .reported t e ∈ m'.state.transcript.toList) (hu : m.routine? u = none)
      (hu' : m'.routine? u = some (.stop t))
      (hn : ∀ {v t'}, m'.routine? v = some (.stop t') → m.routine? v = some (.stop t') ∨ v = u)

theorem routine?_spawn (m : Loop) (r : Routine) (u : TaskId) :
    (m.spawn r).1.routine? u = if u = m.tasks.size then some r else m.routine? u := by
  simp only [Machine.routine?, getElem?_spawn]
  split <;> rfl

theorem lt_size_of_routine? {u : TaskId} {r : Routine} (h : m.routine? u = some r) : u < m.tasks.size := by
  obtain ⟨task, htask, -⟩ := Option.map_eq_some_iff.mp h
  exact (Array.getElem?_eq_some_iff.mp htask).1

theorem routine?_spawn_of_some (m : Loop) (r : Routine) {u : TaskId} {r' : Routine} (h : m.routine? u = some r') :
    (m.spawn r).1.routine? u = some r' := by
  rw [routine?_spawn, if_neg (Nat.ne_of_lt (lt_size_of_routine? h)), h]

/-- What there was is there still, and the session is set up as it was. -/
structure Endures (m m' : Loop) : Prop where
  launched : m.state.children.length ≤ m'.state.children.length
  begun : ∀ {t}, (m'.state.childTransport t).phase = .idle → (m.state.childTransport t).phase = .idle
  dead : ∀ {c}, m.state.IsDead c → m'.state.IsDead c
  transcript : m.state.transcript.toList <+: m'.state.transcript.toList
  routine : ∀ {u r}, m.routine? u = some r → m'.routine? u = some r
  setup : m'.state.setup = m.state.setup
  uniform : m.state.Uniform → m'.state.Uniform

/-- No transport is built, and each child stays with its transport. -/
structure Rests (m m' : Loop) : Prop extends Endures m m' where
  built : m'.state.transports.length = m.state.transports.length
  children : m'.state.children.length = m.state.children.length
  drives : ∀ t, m'.state.drives t = m.state.drives t

/-- No transport is built, and the current one stays, or lapses. -/
structure Ages (m m' : Loop) : Prop extends Endures m m' where
  built : m'.state.transports.length = m.state.transports.length
  succession : Succession m m'

/-- And no child is launched, nor taken from its transport. -/
structure Lasts (m m' : Loop) : Prop extends Ages m m' where
  children : m'.state.children.length = m.state.children.length
  drives : ∀ t, m'.state.drives t = m.state.drives t

theorem Succession.trans (h : Succession m m') (h' : Succession m' m'')
    (ht : m'.state.transcript.toList <+: m''.state.transcript.toList)
    (hr : ∀ {u r}, m.routine? u = some r → m'.routine? u = some r)
    (hr' : ∀ {u r}, m'.routine? u = some r → m''.routine? u = some r) : Succession m m'' := by
  cases h with
  | stays hc hn =>
    cases h' with
    | stays hc' hn' => exact .stays (hc'.trans hc) fun hv => hn (hn' hv)
    | @lapses t u hc' hnone hrep hu hu' hn' =>
      refine .lapses (hc ▸ hc') hnone hrep ?_ hu' fun hv => (hn' hv).imp_left hn
      cases hold : m.routine? u with
      | none => rfl
      | some r => rw [hr hold] at hu; cases hu
  | lapses hc hnone hrep hu hu' hn =>
    cases h' with
    | stays hc' hn' =>
      obtain ⟨e, he⟩ := hrep
      exact .lapses hc (hc'.trans hnone) ⟨e, ht.subset he⟩ hu (hr' hu') fun hv => hn (hn' hv)
    | lapses hc' =>
      rw [hnone] at hc'
      cases hc'

theorem Endures.trans (h : Endures m m') (h' : Endures m' m'') : Endures m m'' where
  launched := Nat.le_trans h.launched h'.launched
  begun hi := h.begun (h'.begun hi)
  dead hd := h'.dead (h.dead hd)
  transcript := h.transcript.trans h'.transcript
  routine hr := h'.routine (h.routine hr)
  setup := h'.setup.trans h.setup
  uniform hu := h'.uniform (h.uniform hu)

theorem Endures.of_state (hs : m'.state = m.state) (hr : ∀ {u r}, m.routine? u = some r → m'.routine? u = some r) :
    Endures m m' := by
  refine ⟨?_, ?_, ?_, ?_, hr, ?_, ?_⟩ <;> simp [hs]

theorem Ages.trans (h : Ages m m') (h' : Ages m' m'') : Ages m m'' where
  toEndures := h.toEndures.trans h'.toEndures
  built := h'.built.trans h.built
  succession := h.succession.trans h'.succession h'.transcript h.routine h'.routine

theorem Rests.trans (h : Rests m m') (h' : Rests m' m'') : Rests m m'' where
  toEndures := h.toEndures.trans h'.toEndures
  built := h'.built.trans h.built
  children := h'.children.trans h.children
  drives t := (h'.drives t).trans (h.drives t)

/-- The registered listeners and the current transport are changed. -/
theorem Rests.modifyDesk (m : Loop) (registered : List ListenerId → List ListenerId)
    (current : Option TransportId → Option TransportId) :
    Rests m (m.modify fun s => { s with registered := registered s.registered, current := current s.current }) :=
  ⟨⟨Nat.le_refl _, id, id, List.prefix_refl _, id, rfl, id⟩, rfl, rfl, fun _ => rfl⟩

namespace Lasts

theorem rests (h : Lasts m m') : Rests m m' := ⟨h.toEndures, h.built, h.children, h.drives⟩

theorem trans (h : Lasts m m') (h' : Lasts m' m'') : Lasts m m'' where
  toAges := h.toAges.trans h'.toAges
  children := h'.children.trans h.children
  drives t := (h'.drives t).trans (h.drives t)

theorem of_rests (h : Rests m m') (hs : Succession m m') : Lasts m m' :=
  ⟨⟨h.toEndures, h.built, hs⟩, h.children, h.drives⟩

/-- What the tasks share stays, and no task is made to stop a transport. -/
theorem of_same (hs : m'.state = m.state) (hr : ∀ {u r}, m.routine? u = some r → m'.routine? u = some r)
    (hn : ∀ {u t}, m'.routine? u = some (.stop t) → m.routine? u = some (.stop t)) : Lasts m m' := by
  refine ⟨⟨⟨?_, ?_, ?_, ?_, hr, ?_, ?_⟩, ?_, .stays ?_ hn⟩, ?_, ?_⟩ <;> simp [hs]

theorem of_tasks (hs : m'.state = m.state) (ht : m'.tasks = m.tasks) : Lasts m m' :=
  have hr : ∀ u, m'.routine? u = m.routine? u := fun u => by simp only [Machine.routine?, ht]
  .of_same hs (fun h => (hr _).trans h) fun h => (hr _).symm.trans h

theorem refl (m : Loop) : Lasts m m := .of_tasks rfl rfl

theorem settle (m : Loop) (f : FutureId) (o : Ending) : Lasts m (m.settle f o) := .of_tasks settle_state settle_tasks

theorem settleAll (m : Loop) (fs : List FutureId) (o : Ending) : Lasts m (fs.foldl (fun m f => m.settle f o) m) := by
  induction fs generalizing m with
  | nil => exact .refl m
  | cons f fs ih => exact (settle m f o).trans (ih _)

theorem spawn (m : Loop) {r : Routine} (hr : ∀ t, r ≠ .stop t) : Lasts m (m.spawn r).1 := by
  refine .of_same rfl (routine?_spawn_of_some m r) fun {u t} h => ?_
  rw [routine?_spawn] at h
  split at h
  · exact absurd (Option.some.inj h) (hr t)
  · exact h

theorem spawnGroup (m : Loop) {routines : List Routine} (hr : ∀ r ∈ routines, ∀ t, r ≠ .stop t) :
    Lasts m (m.spawnGroup routines).1 := by
  have heff : Effect { target := fun _ => True, wake := fun _ => False, cancel := fun _ => False, spawn := (· ∈ routines), gather := True }
      m (m.spawnGroup routines).1 := spawnGroup_effect (fun _ hmem => hmem) trivial fun _ _ => trivial
  refine .of_same (spawnGroup_state m routines) heff.extends.routine? fun {u t} h => ?_
  obtain ⟨task, htask, hroutine⟩ := Option.map_eq_some_iff.mp h
  rcases heff.extends.task_cases htask with ⟨task', held, htask', rfl, -⟩ | ⟨-, hmem, -⟩
  · simp [Machine.routine?, htask', ← hroutine]
  · exact absurd hroutine (hr _ hmem t)

/-- What is shared is changed beside the transports, the children and the transcript. -/
theorem modify (m : Loop) (k : State → State) (ht : (k m.state).transports = m.state.transports)
    (hc : (k m.state).children = m.state.children) (hlog : (k m.state).transcript = m.state.transcript)
    (hcur : (k m.state).current = m.state.current) (hset : (k m.state).setup = m.state.setup := by rfl) :
    Lasts m (m.modify k) where
  built := congrArg List.length ht
  launched := Nat.le_of_eq (congrArg List.length hc).symm
  begun {t} h := by
    have hsame : (k m.state).childTransport t = m.state.childTransport t := by simp only [State.childTransport, ht]
    exact hsame ▸ h
  dead {c} h := by
    have hsame : (k m.state).child c = m.state.child c := by simp only [State.child, hc]
    exact (congrArg Child.isAlive hsame).trans h
  transcript := by
    have hsame : (m.modify k).state.transcript = m.state.transcript := hlog
    exact hsame ▸ List.prefix_refl _
  routine := id
  setup := hset
  uniform hu := by
    have hmedium : (k m.state).medium = m.state.medium := congrArg Setup.medium hset
    intro x hx
    exact (hu x (ht ▸ hx)).trans hmedium.symm
  succession := .stays hcur id
  children := congrArg List.length hc
  drives t := by
    have hsame : (k m.state).childTransport t = m.state.childTransport t := by simp only [State.childTransport, ht]
    exact congrArg ChildTransport.child hsame

theorem record (m : Loop) (e : Entry) : Lasts m (m.record e) where
  built := rfl
  launched := Nat.le_refl _
  begun := id
  dead := id
  transcript := by
    rw [show (m.record e).state.transcript = m.state.transcript.push e from rfl, Array.toList_push]
    exact List.prefix_append _ _
  routine := id
  setup := rfl
  uniform := id
  succession := .stays rfl id
  children := rfl
  drives _ := rfl

theorem note (m : Loop) (level : Level) (text : Text) : Lasts m (m.note level text) := .record m _

theorem modifyChild (m : Loop) (c : ChildId) {k : Child → Child}
    (hk : ∀ x : Child, x.isAlive = false → (k x).isAlive = false) : Lasts m (m.modify (·.modifyChild c k)) where
  built := rfl
  launched := Nat.le_of_eq (List.length_modify _ _ _).symm
  begun := id
  dead h := h.modifyChild c hk
  transcript := List.prefix_refl _
  routine := id
  setup := rfl
  uniform := id
  succession := .stays rfl id
  children := List.length_modify _ _ _
  drives _ := rfl

theorem modifyTransport (m : Loop) (t : TransportId) {k : ChildTransport → ChildTransport}
    (hk : ∀ x : ChildTransport, (k x).child = x.child ∧ ((k x).phase = .idle → x.phase = .idle)) :
    Lasts m (m.modifyTransport t k) where
  built := List.length_modify _ _ _
  launched := Nat.le_refl _
  begun {t'} h := by
    rcases State.childTransport_modifyChildTransport m.state t t' k with heq | ⟨rfl, heq⟩
    · exact heq ▸ h
    · exact (hk _).2 (heq ▸ h)
  dead := id
  transcript := List.prefix_refl _
  routine := id
  setup := rfl
  uniform hu := hu.modifyChildTransport t k
  succession := .stays rfl id
  children := rfl
  drives t' := by
    unfold State.drives
    rcases State.childTransport_modifyChildTransport m.state t t' k with heq | ⟨rfl, heq⟩
    · exact congrArg ChildTransport.child heq
    · exact (congrArg ChildTransport.child heq).trans (hk _).1

theorem setPhase (m : Loop) (t : TransportId) {phase : Phase} (hp : phase ≠ .idle) : Lasts m (m.setPhase t phase) :=
  .modifyTransport m t fun _ => ⟨rfl, fun h => absurd h hp⟩

theorem modifyGate (m : Loop) (t : TransportId) (call : Call) (k : Gate → Gate) : Lasts m (m.modifyGate t call k) where
  built := List.length_modify _ _ _
  launched := Nat.le_refl _
  begun {t'} h := State.childTransport_modifyRehearsedTransport m.state t t' _ ▸ h
  dead := id
  transcript := List.prefix_refl _
  routine := id
  setup := rfl
  uniform hu := hu.modifyRehearsedTransport t _
  succession := .stays rfl id
  children := rfl
  drives t' := congrArg ChildTransport.child (State.childTransport_modifyRehearsedTransport m.state t t' _)

/-! ## Streams and children -/

theorem modifyStream (m : Loop) (c : ChildId) (pipe : Pipe) (k : Stream → Stream) : Lasts m (m.modifyStream c pipe k) :=
  .modifyChild m c fun x h => by cases pipe <;> exact h

theorem wakeReader (m : Loop) (c : ChildId) (pipe : Pipe) (o : Ending) : Lasts m (m.wakeReader c pipe o) := by
  unfold Loop.wakeReader
  split
  · exact .refl m
  · exact (modifyStream m c pipe _).trans (.settle _ _ o)

theorem feedStream {octets : Bytes} {pipe : Pipe} (h : m.feedStream c pipe octets = .ok m') : Lasts m m' := by
  unfold Loop.feedStream at h
  split at h
  · cases h
  · split at h <;> cases h
    · exact .refl m
    · exact (modifyStream m c pipe _).trans (.wakeReader _ c pipe _)

theorem endStream (m : Loop) (c : ChildId) (pipe : Pipe) : Lasts m (m.endStream c pipe) :=
  (modifyStream m c pipe _).trans (.wakeReader _ c pipe _)

theorem breakStream (m : Loop) (c : ChildId) (pipe : Pipe) (e : SystemError) : Lasts m (m.breakStream c pipe e) :=
  (modifyStream m c pipe _).trans (.wakeReader _ c pipe _)

theorem exitChild (m : Loop) (c : ChildId) (code : Int) : Lasts m (m.exitChild c code) := by
  unfold Loop.exitChild
  dsimp only
  split
  · have hexit := modifyChild m c (k := fun child => { child with returnCode := some code, exitWaiters := [] }) fun _ _ => rfl
    exact ((hexit.trans (.endStream _ c .output)).trans (.endStream _ c .errors)).trans (.settleAll _ _ _)
  · exact .refl m

theorem signal (m : Loop) (c : ChildId) (s : Signal) : Lasts m (m.signal c s) := by
  have hrec := record m (.signalled c s)
  unfold Loop.signal
  dsimp only
  split
  · exact hrec
  · exact hrec.trans (.exitChild _ c _)

/-! ## Writing -/

theorem put (m : Loop) (c : ChildId) (octets : Bytes) : Lasts m (m.put c octets) := by
  unfold Loop.put
  split
  · next h => exact .feedStream h
  · exact .refl m

theorem reply (m : Loop) (c : ChildId) (script : Script) (request : Request) : Lasts m (m.reply c script request) := by
  have hscript : ∀ s : Script, Lasts m (m.modify (·.modifyChild c fun child => { child with script := some s })) :=
    fun s => .modifyChild m c fun _ h => h
  unfold Loop.reply
  dsimp only
  split
  · split
    · exact hscript _
    · exact (hscript _).trans (.put _ c _)
  · exact .put m c _
  · exact .exitChild m c _
  · exact .refl m

theorem react (m : Loop) (c : ChildId) (request : Request) : Lasts m (m.react c request) := by
  unfold Loop.react
  split
  · split
    · exact .reply m c _ request
    · exact .refl m
  · exact .refl m

theorem writeLine (m : Loop) (t : TransportId) (line : Except EncodeError Bytes) : Lasts m (m.writeLine t line).1 := by
  unfold Loop.writeLine
  dsimp only
  split
  · split
    · exact .note m _ _
    · split
      · exact .refl m
      · exact .record m _
  · exact .note m _ _

theorem write (m : Loop) (t : TransportId) (request : Request) : Lasts m (m.write t request).1 := by
  unfold Loop.write
  split
  · exact .record m _
  · have hline := writeLine m t (encodeMessage m.state.settings.encoding (.request request))
    split <;> rename_i hm <;> rw [hm] at hline
    · exact hline
    · exact hline.trans (.react _ _ request)
    · exact hline

theorem send (m : Loop) (request : Request) : Lasts m (m.send request).1 := by
  unfold Loop.send
  dsimp only
  split
  · exact .note m _ _
  · exact (note m .debug _).trans (.write _ _ request)

theorem sendAll (m : Loop) (requests : List Request) : Lasts m (m.sendAll requests).1 := by
  induction requests generalizing m with
  | nil => exact .refl m
  | cons r rest ih =>
    have hsend := send m r
    unfold Loop.sendAll
    split <;> rename_i hm <;> rw [hm] at hsend
    · exact hsend.trans (ih _)
    · exact hsend

/-! ## Listeners -/

theorem modifyListener (m : Loop) (l : ListenerId) (k : Listener → Listener) : Lasts m (m.modifyListener l k) :=
  .modify m _ rfl rfl rfl rfl

theorem modifyLock (m : Loop) (k : Lock → Lock) : Lasts m (m.modifyLock k) := .modify m _ rfl rfl rfl rfl

theorem wakeLock (m : Loop) : Lasts m m.wakeLock := by
  unfold Loop.wakeLock
  split
  · exact .refl m
  · exact .settle m _ _

theorem releaseLock (m : Loop) : Lasts m m.releaseLock := (modifyLock m _).trans (.wakeLock _)

theorem wakeNext (m : Loop) (fs : List FutureId) : Lasts m (m.wakeNext fs).1 := by
  induction fs with
  | nil => exact .refl m
  | cons f rest ih =>
    unfold Loop.wakeNext
    split
    · exact ih
    · exact .settle m f _

theorem wakeGetter (m : Loop) (l : ListenerId) : Lasts m (m.wakeGetter l) :=
  (wakeNext m _).trans (.modifyListener _ l _)

theorem deliver (m : Loop) (l : ListenerId) (d : Delivery) : Lasts m (m.deliver l d) :=
  ((record m _).trans (.modifyListener _ l _)).trans (.wakeGetter _ l)

theorem deliverAll (m : Loop) (ls : List ListenerId) (d : Delivery) : Lasts m (m.deliverAll ls d) := by
  induction ls generalizing m with
  | nil => exact .refl m
  | cons l ls ih => exact (deliver m l d).trans (ih _)

theorem listen (m : Loop) : Lasts m m.listen.1 :=
  .modify m (fun s => { s with listeners := s.listeners ++ [{}] }) rfl rfl rfl rfl

theorem issueSeq (m : Loop) : Lasts m m.issueSeq.1 :=
  .modify m (fun s => { s with nextSeq := s.nextSeq + 1 }) rfl rfl rfl rfl

theorem future (m : Loop) : Lasts m m.future.1 := .of_tasks rfl rfl

/-! ## What transports report -/

theorem receive (m : Loop) (t : TransportId) (v : Json) : Lasts m (m.receive t v).1 := by
  have hrec := record m (.received t v)
  unfold Loop.receive
  split
  · refine hrec.trans ?_
    unfold Loop.dispatch
    split
    · exact .deliverAll _ _ _
    · exact .note _ _ _
  · split
    · exact .refl m
    · exact hrec

theorem receiveAll (m : Loop) (t : TransportId) (vs : List Json) : Lasts m (m.receiveAll t vs).1 := by
  induction vs generalizing m with
  | nil => exact .refl m
  | cons v vs ih =>
    have hone := receive m t v
    unfold Loop.receiveAll
    split <;> rename_i hm <;> rw [hm] at hone
    · exact hone.trans (ih _)
    · exact hone

/-- All listeners are detached, and there is no current transport. -/
theorem detachAll (m : Loop) (e : Option ServerError) : Rests m (m.detachAll e) ∧
    (m.detachAll e).state.current = none ∧
    ∀ {u t}, (m.detachAll e).routine? u = some (.stop t) → m.routine? u = some (.stop t) := by
  have hall := deliverAll (m.modify fun s => { s with registered := [], current := none }) m.state.registered (.ended e)
  refine ⟨(Rests.modifyDesk m (fun _ => []) fun _ => none).trans hall.rests, ?_⟩
  cases hall.succession with
  | stays hc hn => exact ⟨hc, hn⟩
  | lapses hc => cases hc

/-- The current transport is let go once its end is reported, and a task is made to stop it. -/
theorem lapse (h : Lasts m m') (hc : m.state.current = some t) (hc' : m'.state.current = some t)
    {e : Option ServerError} (he : .reported t e ∈ m'.state.transcript.toList) :
    Lasts m ((m'.detachAll e).spawn (.stop t)).1 := by
  obtain ⟨hrests, hnone, hn⟩ := detachAll m' e
  have hall := h.rests.trans hrests
  have hspawn : Rests (m'.detachAll e) ((m'.detachAll e).spawn (.stop t)).1 :=
    ⟨⟨Nat.le_refl _, id, id, List.prefix_refl _, routine?_spawn_of_some _ _, rfl, id⟩, rfl, rfl, fun _ => rfl⟩
  have hold : ∀ {u t'}, m'.routine? u = some (.stop t') → m.routine? u = some (.stop t') := by
    cases h.succession with
    | stays _ hn' => exact hn'
    | lapses _ hnone' => rw [hc'] at hnone'; cases hnone'
  refine .of_rests (hall.trans hspawn)
    (.lapses hc hnone ⟨e, hrests.transcript.subset he⟩ (u := (m'.detachAll e).tasks.size) ?_ ?_ fun {v t'} hv => ?_)
  · cases hu : m.routine? (m'.detachAll e).tasks.size with
    | none => rfl
    | some r => exact absurd (lt_size_of_routine? (hall.routine hu)) (Nat.lt_irrefl _)
  · rw [routine?_spawn, if_pos rfl]
  · rw [routine?_spawn] at hv
    split at hv
    · next heq => exact .inr heq
    · exact .inl (hold (hn hv))

/-- A transport reports its end; if it is the current one, it lapses. -/
theorem report (m : Loop) (t : TransportId) (e : Option ServerError) : Lasts m (m.report t e) := by
  have hrec := record m (.reported t e)
  have hmem : Entry.reported t e ∈ (m.record (.reported t e)).state.transcript.toList := by
    rw [show (m.record (.reported t e)).state.transcript = m.state.transcript.push (.reported t e) from rfl]
    simp
  unfold Loop.report
  dsimp only
  split
  · exact hrec
  · split
    · next hc =>
      cases e with
      | none => exact lapse hrec hc hc hmem
      | some error =>
        have hnote := note (m.record (.reported t (some error))) .error (lit "tsserver failed: " ++ error.message)
        exact lapse (hrec.trans hnote) hc hc (hnote.transcript.subset hmem)
    · exact hrec

/-! ## Driving -/

theorem concludeCall (m : Loop) (t : TransportId) (call : Call) (fails : Bool) :
    Lasts m (m.concludeCall t call fails).1 := by
  unfold Loop.concludeCall
  split
  · exact .refl m
  · exact .record m _

theorem passGate (m : Loop) (t : TransportId) (call : Call) (fails : Bool) : Lasts m (m.passGate t call fails).1 := by
  unfold Loop.passGate
  split
  · exact .concludeCall m t call fails
  · exact (future m).trans (.modifyGate m.future.1 t call fun gate => { gate with waiters := gate.waiters ++ [m.future.2] })

theorem gateResumed (m : Loop) (t : TransportId) (call : Call) (fails : Bool) (w : FutureId) (o : Ending) :
    Lasts m (gateResumed t call fails w o m).1 := by
  have hgate := modifyGate m t call fun gate => { gate with waiters := gate.waiters.erase w }
  unfold Loop.gateResumed
  dsimp only
  split
  · exact hgate.trans (.concludeCall _ t call fails)
  · exact hgate

theorem openGate (m : Loop) (t : TransportId) (call : Call) : Lasts m (m.openGate t call) :=
  (modifyGate m t call _).trans (.settleAll _ _ _)

theorem rehearse (m : Loop) (t : TransportId) (call : Call) (conduct : Conduct) :
    Lasts m (m.rehearse t call conduct).1 := by
  cases conduct with
  | succeeds => exact .concludeCall m t call false
  | fails => exact .concludeCall m t call true
  | timesOut => exact .refl m
  | waits => exact .passGate m t call false
  | waitsAndFails => exact .passGate m t call true

theorem startRehearsed (m : Loop) (t : TransportId) (rehearsal : Rehearsal) :
    Lasts m (startRehearsed t rehearsal m).1 := by
  have hcalled := record m (.called t .start)
  -- whether or not it has said something
  have hrest : ∀ greeted, Lasts m greeted →
      Lasts m ((if rehearsal.endsAtStart then greeted.report t none else greeted).rehearse t .start rehearsal.start).1 := by
    intro greeted hgreet
    split
    · exact (hgreet.trans (.report _ t none)).trans (.rehearse _ t .start _)
    · exact hgreet.trans (.rehearse _ t .start _)
  unfold Loop.startRehearsed
  cases rehearsal.greeting with
  | none => exact hrest _ hcalled
  | some v => exact hrest _ (hcalled.trans (.receive _ t v))

theorem stop (m : Loop) (t : TransportId) : Lasts m (stop t m).1 := by
  unfold Loop.stop
  split
  · exact (record m _).trans (.rehearse _ t .stop _)
  · unfold Loop.stopChild
    dsimp only
    split <;> exact .setPhase m t (by intro h; cases h)

theorem endResumed (m : Loop) (t : TransportId) (rest : List TaskId) (o : Ending) : Lasts m (endResumed t rest o m).1 := by
  unfold Loop.endResumed
  split <;> exact .refl m

theorem terminateResumed (m : Loop) (c : ChildId) (o : Ending) : Lasts m (terminateResumed c o m).1 := by
  unfold Loop.terminateResumed
  split
  · exact .note m _ _
  · exact .signal m c .kill
  · exact .refl m

theorem killResumed (m : Loop) (c : ChildId) (o : Ending) : Lasts m (killResumed c o m).1 := by
  unfold Loop.killResumed
  split
  · exact .note m _ _
  · exact .refl m

theorem awaitExit (m : Loop) (c : ChildId) : Lasts m (awaitExit c m).1 := by
  unfold Loop.awaitExit
  split
  · exact .refl m
  · exact (future m).trans (.modifyChild _ c fun _ h => h)

/-! ## Reading -/

theorem conclude (m : Loop) (t : TransportId) (error : Option ServerError) : Lasts m (m.conclude t error) := by
  unfold Loop.conclude
  split
  · exact (setPhase m t (by intro h; cases h)).trans (.report _ t error)
  · exact .refl m

theorem breakOff (m : Loop) (t : TransportId) (failure : Failure) : Lasts m (m.breakOff t failure).1 :=
  (note m .error _).trans (.conclude _ t _)

theorem awaitStream (m : Loop) (c : ChildId) (pipe : Pipe) (F : Frame) : Lasts m (m.awaitStream c pipe F).1 :=
  (future m).trans (.modifyStream m.future.1 c pipe fun s => { s with waiter := some m.future.2 })

theorem recordNotes (m : Loop) (notes : List Note) :
    Lasts m (m.modify fun s => notes.foldl (fun s n => s.record (.note n)) s) := by
  have hfold : ∀ m : Loop, m.modify (fun s => notes.foldl (fun s n => s.record (.note n)) s) =
      notes.foldl (fun m n => m.record (.note n)) m := by
    induction notes with
    | nil => exact fun _ => rfl
    | cons n notes ih => exact fun m => ih (m.record (.note n))
  rw [hfold]
  clear hfold
  induction notes generalizing m with
  | nil => exact .refl m
  | cons n notes ih => exact (record m _).trans (ih _)

theorem readChunks (t : TransportId) (c : ChildId) (fuel : Nat) (decoder : Decoder) (m : Loop) :
    Lasts m (readChunks t c fuel decoder m).1 := by
  induction fuel generalizing m decoder with
  | zero => exact .awaitStream m c .output _
  | succ fuel ih =>
    unfold Loop.readChunks
    split
    · exact .awaitStream m c .output _
    · exact .breakOff m t _
    · exact .refl m
    · next chunk rest _ _ =>
      have hread := (modifyStream m c .output fun s => { s with buffer := rest }).trans
        (.recordNotes _ (decoder.feed chunk).notes)
      dsimp only
      split
      · exact hread.trans (.breakOff _ t _)
      · next messages _ =>
        have hall := hread.trans (.receiveAll _ t messages)
        split <;> rename_i hm <;> rw [hm] at hall
        · exact hall.trans (.breakOff _ t _)
        · exact hall.trans (ih _ _)

theorem readResumed (m : Loop) (t : TransportId) (c : ChildId) (decoder : Decoder) (o : Ending) :
    Lasts m (readResumed t c decoder o m).1 := by
  have hfree := modifyStream m c .output fun s => { s with waiter := none }
  unfold Loop.readResumed
  dsimp only
  split
  · exact hfree.trans (.readChunks t c _ decoder _)
  · exact hfree.trans (.breakOff _ t _)
  · exact hfree

theorem outputResumed (m : Loop) (t : TransportId) (c : ChildId) (pending : Nat) (o : Ending) :
    Lasts m (outputResumed t c pending o m).1 := by
  unfold Loop.outputResumed
  split
  · dsimp only
    have hpend : Lasts m (if pending = 0 then m
        else m.note .debug (lit "tsserver exited with " ++ Text.ofNat pending ++ lit " undecoded bytes")) := by
      split
      · exact .refl m
      · exact .note m _ _
    split
    · exact (hpend.trans (.note _ _ _)).trans (.conclude _ t none)
    · exact hpend.trans (.conclude _ t _)
  · exact .refl m

theorem drainLines (c : ChildId) (fuel : Nat) (m : Loop) : Lasts m (drainLines c fuel m).1 := by
  induction fuel generalizing m with
  | zero => exact .awaitStream m c .errors _
  | succ fuel ih =>
    unfold Loop.drainLines
    split
    · exact .awaitStream m c .errors _
    · exact .refl m
    · next line rest _ =>
      have hread := modifyStream m c .errors fun s => { s with buffer := rest }
      dsimp only
      split
      · exact hread
      · split
        · exact hread
        · exact (hread.trans (.note _ _ _)).trans (ih _)

theorem drainResumed (m : Loop) (c : ChildId) (o : Ending) : Lasts m (drainResumed c o m).1 := by
  have hfree := modifyStream m c .errors fun s => { s with waiter := none }
  unfold Loop.drainResumed
  dsimp only
  split
  · exact hfree.trans (.drainLines c _ _)
  · exact hfree

/-! ## Limits -/

theorem hold (m : Loop) (u : TaskId) : Lasts m (m.modifyTask u fun task => { task with mustCancel := true }) := by
  have hr : ∀ v, (m.modifyTask u fun task => { task with mustCancel := true }).routine? v = m.routine? v := by
    intro v
    simp only [Machine.routine?, modifyTask, Array.getElem?_modify]
    split
    · rw [Option.map_map]
      rfl
    · rfl
  exact .of_same rfl (fun h => (hr _).trans h) fun h => (hr _).symm.trans h

/-- A cancellation settles a future, or is held back. -/
theorem cancelFuture (fuel : Nat) (m : Loop) (f : FutureId) : Lasts m (m.cancelFuture fuel f).1 := by
  induction fuel generalizing m f with
  | zero => exact .refl m
  | succ fuel ih =>
    unfold Machine.cancelFuture
    split
    · exact .refl m
    · split
      · exact .refl m
      · split
        · exact .settle m f _
        · next u _ =>
          cases hw : m.tasks[u]?.bind (·.waiting) with
          | none => exact .hold m u
          | some g =>
            have hdown := ih m g
            dsimp only
            split
            · exact hdown
            · exact hdown.trans (.hold _ u)

theorem cancelTask (m : Loop) (u : TaskId) : Lasts m (m.cancelTask u).1 := .cancelFuture _ m _

theorem addCallback (m : Loop) (f : FutureId) (c : Callback) : Lasts m (m.addCallback f c) := by
  unfold Machine.addCallback
  split <;> exact .of_tasks rfl rfl

theorem addTimer (m : Loop) (time : Binary64) (f : FutureId) : Lasts m (m.addTimer time f) := by
  unfold Machine.addTimer
  split <;> exact .of_tasks rfl rfl

theorem within (m : Loop) (limit : Seconds) {inner : Routine} (hi : inner.isInner = true) :
    Lasts m (within limit inner m).1 := by
  have hspawn := spawn m (r := inner) fun t h => by rw [h] at hi; cases hi
  unfold Loop.within
  split
  · exact hspawn
  · split
    · exact .refl m
    · exact ((hspawn.trans (.future _)).trans (.addTimer _ _ _)).trans (.addCallback _ _ _)

theorem timeResumed (m : Loop) (u : TaskId) (w : FutureId) (o : Ending) : Lasts m (timeResumed u w o m).1 := by
  unfold Loop.timeResumed
  split
  · exact .of_tasks rfl rfl
  · dsimp only
    split <;> exact .of_tasks rfl rfl

theorem cancelAndWait (m : Loop) (u : TaskId) : Lasts m (cancelAndWait u m).1 :=
  ((future m).trans (.addCallback _ _ _)).trans (.cancelTask _ u)

end Lasts

end Loop

end DiagnosticsClient
