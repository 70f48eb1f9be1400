import DiagnosticsClient.Proofs.Session.Roles
/-
What is done beside the core of a session.

Children write and end, streams are read, requests are written, transports
change their phase: each is `Aside`. They settle futures that a stream or a gate
names, which are of no special role, and those that stand for the end of a child
once it has ended.
-/
namespace DiagnosticsClient

open Async Async.Machine

namespace Loop

variable {role : FutureId → Role} {K : TaskId → Prop} {S : Routine → Prop} {m m' : Loop} {f : FutureId}

/-! ## Streams -/

theorem Tidy.child_names (h : m.Tidy role) (c : ChildId) :
    (m.state.child c).Names (m.HasRole role .other) (m.HasRole role (.exit c)) := by
  unfold State.child
  cases hc : m.state.children[c]? with
  | none => exact ⟨by simp, by simp, by simp⟩
  | some child => exact h.names.children hc

theorem Tidy.stream_waiter (h : m.Tidy role) {c : ChildId} {pipe : Pipe} (hf : (m.streamOf c pipe).waiter = some f) :
    m.HasRole role .other f := by
  cases pipe with
  | output => exact (h.child_names c).output f hf
  | errors => exact (h.child_names c).errors f hf

/-- A change of a child beside the core. -/
theorem Aside.modifyChild (h : m.Tidy role) (c : ChildId) {k : Child → Child}
    (hd : ∀ child : Child, child.isAlive = false → (k child).isAlive = false)
    (hc : ∀ child : Child, child.Names (m.HasRole role .other) (m.HasRole role (.exit c)) →
      (k child).Names (m.HasRole role .other) (m.HasRole role (.exit c))) :
    Aside role K S m (m.modify (·.modifyChild c k)) :=
  .modify h _ rfl (fun hdead => hdead.modifyChild c hd) (h.names.modifyChild c fun child _ => hc child)

theorem Aside.modifyStream (h : m.Tidy role) (c : ChildId) (pipe : Pipe) {k : Stream → Stream}
    (hc : ∀ s : Stream, ∀ f ∈ (k s).waiter, f ∈ s.waiter ∨ m.HasRole role .other f) :
    Aside role K S m (m.modifyStream c pipe k) := by
  refine .modifyChild h c (fun child hdead => ?_) fun child hchild => ?_
  · cases pipe <;> exact hdead
  cases pipe with
  | output => exact ⟨hchild.exits, fun f hf => (hc _ f hf).elim (hchild.output f) id, hchild.errors⟩
  | errors => exact ⟨hchild.exits, hchild.output, fun f hf => (hc _ f hf).elim (hchild.errors f) id⟩

theorem Aside.wakeReader (h : m.Tidy role) (c : ChildId) (pipe : Pipe) (o : Ending) :
    Aside role K S m (m.wakeReader c pipe o) := by
  unfold Loop.wakeReader
  split
  · exact .refl h
  · next f hf =>
    have hfree := Aside.modifyStream (K := K) (S := S) h c pipe
      (k := fun s => { s with waiter := none }) fun s f hf => by cases hf
    exact hfree.trans (.settle hfree.tidy ((h.stream_waiter hf).extends hfree.effect.extends) o)

theorem Aside.feedStream (h : m.Tidy role) {c : ChildId} {pipe : Pipe} {octets : Bytes}
    (hm : m.feedStream c pipe octets = .ok m') : Aside role K S m m' := by
  unfold Loop.feedStream at hm
  split at hm
  · cases hm
  · split at hm
    · cases hm
      exact .refl h
    · cases hm
      have hfed := Aside.modifyStream (K := K) (S := S) h c pipe
        (k := fun s => { s with buffer := s.buffer ++ octets }) fun s f hf => .inl hf
      exact hfed.trans (.wakeReader hfed.tidy c pipe _)

theorem Aside.endStream (h : m.Tidy role) (c : ChildId) (pipe : Pipe) :
    Aside role K S m (m.endStream c pipe) := by
  have hended := Aside.modifyStream (K := K) (S := S) h c pipe
    (k := fun s => { s with ended := true }) fun s f hf => .inl hf
  exact hended.trans (.wakeReader hended.tidy c pipe _)

theorem Aside.breakStream (h : m.Tidy role) (c : ChildId) (pipe : Pipe) (e : SystemError) :
    Aside role K S m (m.breakStream c pipe e) := by
  have hbroken := Aside.modifyStream (K := K) (S := S) h c pipe
    (k := fun s => { s with broken := some e }) fun s f hf => .inl hf
  exact hbroken.trans (.wakeReader hbroken.tidy c pipe _)

/-! ## Children -/

/-- Those who wait for the end of a child that has ended are woken one after the other. -/
theorem Aside.wakeAll (h : m.Tidy role) {c : ChildId} (hc : m.state.IsDead c) (fs : List FutureId)
    (hf : ∀ f ∈ fs, m.HasRole role (.exit c) f) (v : Value) :
    Aside role K S m (fs.foldl (fun m f => m.settle f (.value v)) m) := by
  induction fs generalizing m with
  | nil => exact .refl h
  | cons f fs ih =>
    obtain ⟨hplain, hrole⟩ := hf f List.mem_cons_self
    have hset : Aside role K S m (m.settle f (.value v)) :=
      .of_effect h (.single (.settle _ hplain (.inr ⟨.inr ⟨c, hrole, hc⟩, rfl⟩))) settle_state
    refine hset.trans (ih hset.tidy (hset.dead hc) fun g hg => ?_)
    exact (hf g (List.mem_cons_of_mem _ hg)).extends hset.effect.extends

theorem lt_length_of_exitWaiters {s : State} {c : ChildId} (h : f ∈ (s.child c).exitWaiters) : c < s.children.length := by
  refine Nat.lt_of_not_le fun hle => ?_
  rw [State.child, List.getElem?_eq_none hle] at h
  cases h

theorem Aside.exitChild (h : m.Tidy role) (c : ChildId) (code : Int) :
    Aside role K S m (m.exitChild c code) := by
  unfold Loop.exitChild
  dsimp only
  split
  · have hexit := Aside.modifyChild (K := K) (S := S) h c
      (k := fun child => { child with returnCode := some code, exitWaiters := [] }) (fun _ _ => rfl)
      fun child hchild => ⟨by simp, hchild.output, hchild.errors⟩
    have hout := Aside.endStream (K := K) (S := S) hexit.tidy c .output
    have herr := Aside.endStream (K := K) (S := S) hout.tidy c .errors
    have hall := (hexit.trans hout).trans herr
    by_cases hnone : (m.state.child c).exitWaiters = []
    · rw [hnone]
      exact hall
    · obtain ⟨f, hf⟩ := List.exists_mem_of_ne_nil _ hnone
      have hdead : (m.modify (·.modifyChild c fun child => { child with returnCode := some code, exitWaiters := [] })).state.IsDead c := by
        change Child.isAlive (State.child (State.modifyChild _ _ _) _) = false
        rw [State.child_modifyChild, if_pos ⟨rfl, lt_length_of_exitWaiters hf⟩]
        rfl
      exact hall.trans (.wakeAll hall.tidy ((hout.trans herr).dead hdead) _
        (fun f hf => ((h.child_names c).exits f hf).extends hall.effect.extends) _)
  · exact .refl h

theorem Aside.signal (h : m.Tidy role) (c : ChildId) (s : Signal) : Aside role K S m (m.signal c s) := by
  have hrec := Aside.record (K := K) (S := S) h (e := .signalled c s) rfl
  unfold Loop.signal
  dsimp only
  split
  · exact hrec
  · exact hrec.trans (.exitChild hrec.tidy c _)

theorem Aside.addChild (h : m.Tidy role) (manner : Manner) : Aside role K S m (m.addChild manner).1 := by
  unfold Loop.addChild
  dsimp only
  refine .modify h (fun s => { s with children := s.children ++ [_] }) rfl (fun hc => hc.append _)
    ⟨h.names.transports, fun {c child} hc => ?_, h.names.lock, h.names.getters⟩
  change (m.state.children ++ [_])[c]? = some child at hc
  rcases Nat.lt_or_ge c m.state.children.length with hlt | hge
  · rw [List.getElem?_append_left hlt] at hc
    exact h.names.children hc
  · rw [List.getElem?_append_right hge] at hc
    rw [List.mem_singleton.mp (List.mem_of_getElem? hc)]
    split <;> exact ⟨by simp, by simp, by simp⟩

theorem Aside.launch (h : m.Tidy role) : Aside role K S m m.launch.1 := by
  unfold Loop.launch
  dsimp only
  have hnext := fun launches => Aside.modify (K := K) (S := S) h (fun s => { s with launches }) rfl id
    ⟨h.names.transports, h.names.children, h.names.lock, h.names.getters⟩
  have hrec := fun launches => Aside.record (K := K) (S := S) (hnext launches).tidy
    (e := .launched ⟨m.state.settings.command, m.state.settings.workingDirectory, m.state.settings.«variables»⟩) rfl
  have hall := fun launches => (hnext launches).trans (hrec launches)
  split
  · exact hall _
  · exact (hall _).trans (.addChild (hrec _).tidy _)

/-! ## Writing -/

theorem Aside.put (h : m.Tidy role) (c : ChildId) (octets : Bytes) : Aside role K S m (m.put c octets) := by
  unfold Loop.put
  split
  · next hm => exact .feedStream h hm
  · exact .refl h

theorem Aside.reply (h : m.Tidy role) (c : ChildId) (script : Script) (request : Request) :
    Aside role K S m (m.reply c script request) := by
  have hscript : ∀ s : Script, Aside role K S m (m.modify (·.modifyChild c fun child => { child with script := some s })) :=
    fun s => .modifyChild h c (fun _ => id) fun child hchild => ⟨hchild.exits, hchild.output, hchild.errors⟩
  unfold Loop.reply
  dsimp only
  split
  · split
    · exact hscript _
    · exact (hscript _).trans (.put (hscript _).tidy c _)
  · exact .put h c _
  · exact .exitChild h c _
  · exact .refl h

theorem Aside.react (h : m.Tidy role) (c : ChildId) (request : Request) :
    Aside role K S m (m.react c request) := by
  unfold Loop.react
  split
  · split
    · exact .reply h c _ request
    · exact .refl h
  · exact .refl h

theorem Aside.writeLine (h : m.Tidy role) (t : TransportId) (line : Except EncodeError Bytes) :
    Aside role K S m (m.writeLine t line).1 := by
  unfold Loop.writeLine
  dsimp only
  split
  · split
    · exact .note h _ _
    · split
      · exact .refl h
      · exact .record h rfl
  · exact .note h _ _

theorem Aside.write (h : m.Tidy role) (t : TransportId) (request : Request) :
    Aside role K S m (m.write t request).1 := by
  unfold Loop.write
  split
  · exact .record h rfl
  · have hline := Aside.writeLine (K := K) (S := S) h t
      (encodeMessage m.state.settings.encoding (.request request))
    split <;> rename_i hm <;> rw [hm] at hline
    · exact hline
    · exact hline.trans (.react hline.tidy _ request)
    · exact hline

theorem Aside.send (h : m.Tidy role) (request : Request) : Aside role K S m (m.send request).1 := by
  unfold Loop.send
  dsimp only
  split
  · exact .note h _ _
  · have hnote := Aside.note (K := K) (S := S) h .debug
      (lit "Sending " ++ (request.command ++ lit " (seq=" ++ Text.ofInt request.seq ++ lit ")"))
    exact hnote.trans (.write hnote.tidy _ request)

theorem Aside.sendAll (h : m.Tidy role) (requests : List Request) : Aside role K S m (m.sendAll requests).1 := by
  induction requests generalizing m with
  | nil => exact .refl h
  | cons r rest ih =>
    have hsend := Aside.send (K := K) (S := S) h r
    unfold Loop.sendAll
    split <;> rename_i hm <;> rw [hm] at hsend
    · exact hsend.trans (ih hsend.tidy)
    · exact hsend

end Loop

end DiagnosticsClient
