import DiagnosticsClient.Proofs.Transport.Draining
/-
The error output of a child, on its way to the notes.

While nobody stops a transport, a child is not launched yet, or it has one drain, whose progress is known (`Outflow`). A step of
the loop keeps that (`Outflow.tick`): the drain gets on (`Outflow.drains`), the first start makes it (`Outflow.launches`), and
the reader, whatever it reads, and a start that launches no child ignore the error output (`Outflow.others`). Here the output of
the child may be anything; it may break, and be refused.
-/
namespace DiagnosticsClient

open Async Async.Machine

namespace Loop

variable {charset : Charset} {role role' : FutureId → Role} {m m' : Loop} {wrote more : Bytes} {t u : TaskId} {f : FutureId}
  {root called r : Routine} {F : Frame} {stack : List Frame} {o : Ending} {s : Loop × Move} {x : ChildTransport}
  {th : Option (Thread Routine Frame Value Failure)} {run : Running Routine Frame Value Failure} {may : Licence Routine}

/-! ## The invariant -/

/-- No child was launched yet, so nothing was written. -/
structure Unheard (m : Loop) (wrote : Bytes) : Prop where
  children : m.state.children = []
  wrote : wrote = []
  complaints : m.state.complaints = []
  drains : ∀ {u : TaskId}, m.routine? u ≠ some (.drainErrors 0)

/-- The child has one drain, and it is known how far that has got. -/
structure Drain (charset : Charset) (u : TaskId) (m : Loop) (wrote : Bytes) (th : Option (Thread Routine Frame Value Failure)) :
    Prop where
  made : m.routine? u = some (.drainErrors 0)
  one : ∀ {v : TaskId}, m.routine? v = some (.drainErrors 0) → v = u
  free : ¬ m.IsHeld u
  few : m.state.children.length = 1
  read : ∃ v, m.routine? v = some (.readOutput 0 0)
  sifted : Sifted charset m wrote
  stage : Stage m th

/-- What a child has written to its error output is on its way to the notes. -/
structure Outflow (charset : Charset) (m : Loop) (wrote : Bytes) : Prop where
  sound : m.Sound fun _ => False
  alone : m.Alone
  errands : ∀ {u : TaskId} {r : Routine}, m.routine? u = some r → r.IsErrand
  script : m.state.script = none
  plain : (m.state.child 0).script = none
  stage : Unheard m wrote ∨ ∃ u, Drain charset u m wrote (m.thread? u)

theorem Unheard.of_state (h : Unheard m wrote) (hs : m'.state = m.state) (hr : ∀ u, m'.routine? u = m.routine? u) :
    Unheard m' wrote :=
  ⟨by rw [hs, h.children], h.wrote, by rw [hs, h.complaints], fun hu => h.drains (hr _ ▸ hu)⟩

/-- What leaves the error output alone leaves it unheard, if nobody is made to drain it. -/
theorem Unheard.shunned (h : Unheard m wrote) (hi : Shuns m m')
    (hr : ∀ {u}, m'.routine? u = some (.drainErrors 0) → m.routine? u = some (.drainErrors 0)) : Unheard m' wrote where
  children := List.length_eq_zero_iff.mp (hi.children.trans (List.length_eq_zero_iff.mpr h.children))
  wrote := h.wrote
  complaints := hi.complaints.trans h.complaints
  drains hu := h.drains (hr hu)

/-- A step that moves one thread keeps the drain where it is. -/
theorem Drain.switch (h : Drain charset u m wrote th) {y : Option (Thread Routine Frame Value Failure)} (hs : m.Switch t y m')
    (hplain : ∀ {f s}, th = some ⟨.waits f, s⟩ → m.IsPlain f) : Drain charset u m' wrote th := by
  have hsame : ∀ pipe, m'.streamOf 0 pipe = m.streamOf 0 pipe := fun pipe => by
    cases pipe <;> rw [streamOf, streamOf, hs.state]
  obtain ⟨v, hv⟩ := h.read
  refine ⟨(hs.routine u).trans h.made, fun hv => h.one ((hs.routine _).symm.trans hv), fun hheld => h.free (hs.held hheld),
    by rw [hs.state]; exact h.few, ⟨v, (hs.routine v).trans hv⟩, ?_, ?_⟩
  · exact h.sifted.of_same (by rw [hs.state]) (by rw [hs.state]) (by rw [hs.state]) (by rw [hsame]) (by rw [hsame]) (by rw [hsame])
  · exact h.stage.mono (hsame .errors) (fun _ => (hsame .output ▸ ·)) fun hth => .inl (hs.outcome (hplain hth))

/-- What leaves the error output alone keeps the drain where it is, if it neither makes nor cancels one. -/
theorem Drain.shunned (h : Drain charset u m wrote th) (hi : Shuns m m') (he : m.Extends may m') (hcancel : ¬ may.cancel u)
    (hr : ∀ {v}, m'.routine? v = some (.drainErrors 0) → m.routine? v = some (.drainErrors 0))
    (hlt : ∀ {f s}, th = some ⟨.waits f, s⟩ → f < m.futures.size)
    (hout : ∀ {f s}, th = some ⟨.waits f, s⟩ → m'.outcome? f = m.outcome? f ∨ ∃ v, m'.outcome? f = some (.value v)) :
    Drain charset u m' wrote th where
  made := he.routine? h.made
  one hv := h.one (hr hv)
  free := he.not_isHeld hcancel h.free
  few := hi.children.trans h.few
  read := h.read.imp fun _ => he.routine?
  sifted := hi.sifted h.sifted
  stage := hi.stage h.stage hlt hout

/-! ## Between turns -/

/-- The drain is set going when there is something to read. -/
theorem Stage.awakes {th th' : Thread Routine Frame Value Failure} (h : Stage m (some th)) (how : m.Awakes u th th')
    (hfree : ¬ m.IsHeld u) : Stage m (some th') := by
  cases how with
  | begins =>
    cases h with
    | fresh => exact .begins
  | dropped hheld => exact absurd hheld hfree
  | resumes _ ho =>
    cases h with
    | waits hw =>
      rcases hw with ⟨⟨hnone, -⟩, -⟩ | ⟨v, hv⟩
      · cases ho.symm.trans hnone
      · cases ho.symm.trans hv
        exact .resumes
  | interrupted hheld => exact absurd hheld hfree

namespace Outflow

/-- A step that moves a thread, and reads nothing, keeps the error output on its way. -/
theorem switch (h : Outflow charset m wrote) (hf : Fits role m .transport) (hs : m.Switch t th m') (hsound : m'.Sound fun _ => False)
    (hnot : ∀ {f s}, th ≠ some ⟨.waits f, s⟩) (hself : Stage m (m.thread? t) → ¬ m.IsHeld t → Stage m th) :
    Outflow charset m' wrote where
  sound := hsound
  alone := h.alone.switch hs fun hth => absurd hth hnot
  errands hu := h.errands ((hs.routine _).symm.trans hu)
  script := by rw [hs.state]; exact h.script
  plain := by rw [hs.state]; exact h.plain
  stage := by
    refine h.stage.imp (fun hnone => hnone.of_state hs.state hs.routine) fun ⟨u, hd⟩ => ⟨u, ?_⟩
    by_cases hut : u = t
    · subst hut
      rw [hs.self]
      have hd' : Drain charset u m wrote th := ⟨hd.made, hd.one, hd.free, hd.few, hd.read, hd.sifted, hself hd.stage hd.free⟩
      exact hd'.switch hs fun hth => absurd hth hnot
    · rw [hs.other hut]
      exact hd.switch hs fun hth => hf.isPlain_of_errand h.errands hth

/-- What leaves the error output alone keeps it on its way, if nobody is made but for errands and no drain is made, cancelled or
given anything but a value. -/
theorem shunned (h : Outflow charset m wrote) (hf : Fits role m .transport) (hi : Shuns m m') (he : m.Extends may m')
    (hsound : m'.Sound fun _ => False) (hspawn : ∀ r, may.spawn r → r = .start 0)
    (hcancel : ∀ u, may.cancel u → m.routine? u ≠ some (.drainErrors 0))
    (hout : ∀ {u f s}, m.routine? u = some (.drainErrors 0) → m.thread? u = some ⟨.waits f, s⟩ →
      m'.outcome? f = m.outcome? f ∨ ∃ v, m'.outcome? f = some (.value v)) : Outflow charset m' wrote := by
  have hmade : ∀ {u r}, m'.routine? u = some r → m.routine? u = some r ∨ r = .start 0 := fun hu =>
    (he.routine?_cases hu).imp_right (hspawn _)
  have hdrain : ∀ {u}, m'.routine? u = some (.drainErrors 0) → m.routine? u = some (.drainErrors 0) := fun hu =>
    (hmade hu).resolve_right Routine.noConfusion
  refine ⟨hsound, h.alone.extends he h.sound hsound, fun hu => ?_, hi.script.trans h.script, hi.plain.trans h.plain, ?_⟩
  · rcases hmade hu with hu | rfl
    · exact h.errands hu
    · exact .start
  · refine h.stage.imp (fun hnone => hnone.shunned hi hdrain) fun ⟨u, hd⟩ => ⟨u, ?_⟩
    rw [he.thread? hsound.owned (lt_size_of_routine? hd.made)]
    exact hd.shunned hi he (fun hu => hcancel u hu hd.made) hdrain (fun hth => hf.lt_size_of_waits hth) (hout hd.made)

/-- A step between turns that moves no task keeps the error output on its way. -/
theorem settled (h : Outflow charset m wrote) (hf : Fits role m .transport) (hs : Settled quiet m m') : Outflow charset m' wrote :=
  h.shunned hf (.of_state hs.state) hs.extends_ hs.sound (fun _ => False.elim) (fun _ => False.elim)
    fun _ hth => .inl (outcome?_of_quiet hs.extends_ (hf.lt_size_of_waits hth))

/-- A step between the turns of tasks keeps the error output on its way. -/
theorem turn (h : Outflow charset m wrote) (hf : Fits role m .transport) (idle : m.running = none) (hne : m.ready ≠ []) :
    Outflow charset (m.tick program) wrote := by
  obtain ⟨hsound, hor⟩ := Machine.tick_of_not_running program (show m.Sound quiet.target from h.sound) idle hne
  rcases hor with ⟨t, th, th', hth, how, hs⟩ | ⟨he, hstate⟩
  · refine h.switch hf hs hsound (fun heq => ?_) fun hstage hfree => ?_
    · cases heq
      cases how
    · rw [hth] at hstage
      exact hstage.awakes how hfree
  · exact h.settled hf ⟨hsound, he, hstate⟩

/-- The end of a task keeps the error output on its way. -/
theorem ends (h : Outflow charset m wrote) (hf : Fits role m .transport) (runs : m.running = some (.resume t o [])) :
    Outflow charset (m.endTask t o) wrote := by
  obtain ⟨hsound, hs, -⟩ := h.sound.endTask runs o
  refine h.switch hf hs hsound (by rintro _ _ ⟨⟩) fun hstage _ => ?_
  have hth : m.thread? (Running.resume t o []).task = some ⟨.resumes o, []⟩ := thread?_of_running runs
  rw [hth] at hstage
  cases hstage with
  | ends hg => exact .finished hg

end Outflow

/-! ## Steps of the running task -/

namespace Outflow

/-- What the running task does keeps the error output on its way, if it settles nothing, waits for something new if it waits,
and leaves the drain where it is known to be. -/
theorem perform (h : Outflow charset m wrote) (hf : Fits role m .transport) (runs : m.running = some run)
    (hd : Deed role role' m run.task root called stack s .transport) (hf' : Fits role' (s.1.perform run.task stack s.2) .transport)
    (he : m.Extends may s.1) (hsound : s.1.Sound fun _ => False) (hnew : m.AwaitsNew s.2)
    (herrands : ∀ {u r}, s.1.routine? u = some r → r.IsErrand) (hscript : s.1.state.script = none)
    (hplain : (s.1.state.child 0).script = none)
    (hstage : Unheard s.1 wrote ∨ ∃ u, Drain charset u s.1 wrote ((s.1.perform run.task stack s.2).thread? u)) :
    Outflow charset (s.1.perform run.task stack s.2) wrote where
  sound := by
    refine (perform_switch hsound (he.running.trans runs) stack s.2 fun f F hawait => ?_).1
    have hmove := hd.does.move
    rw [hawait] at hmove
    cases hmove with
    | await hs ha hn => exact ha.lt_size
  alone := by
    refine (h.alone.extends he h.sound hsound).switch hd.switch fun {f s'} hth {v s''} hne hv => ?_
    have hge : m.futures.size ≤ f := by
      have hnext : s.1.nextThread stack s.2 = ⟨.waits f, s'⟩ := Option.some.inj hth
      cases ha : s.2 with
      | await g F =>
        rw [ha] at hnext hnew
        unfold nextThread at hnext
        dsimp only at hnext
        split at hnext <;> cases hnext
        exact hnew rfl
      | _ => rw [ha] at hnext; cases hnext
    rcases he.thread?_cases h.sound hsound hv with hold | ⟨_, -, -, -, heq⟩
    · exact absurd (hf.lt_size_of_waits hold) (Nat.not_lt_of_le hge)
    · cases heq
  errands hu := herrands ((hd.switch.routine _).symm.trans hu)
  script := by rw [hd.switch.state]; exact hscript
  plain := by rw [hd.switch.state]; exact hplain
  stage := by
    refine hstage.imp (fun hnone => hnone.of_state hd.switch.state hd.switch.routine) fun ⟨u, hdrain⟩ => ⟨u, ?_⟩
    refine hdrain.switch hd.switch fun {f s'} hth => ?_
    have hwaits := hf'.isPlain_of_errand (fun hu => herrands ((hd.switch.routine _).symm.trans hu)) hth
    rwa [IsPlain, hd.switch.owner] at hwaits

/-- Whoever ignores the error output keeps it on its way. -/
theorem others (h : Outflow charset m wrote) (hf : Fits role m .transport) (runs : m.running = some run)
    (hd : Deed role role' m run.task root called stack s .transport) (hf' : Fits role' (s.1.perform run.task stack s.2) .transport)
    (ho : Overlooks m s) (hroot : root ≠ .drainErrors 0) : Outflow charset (s.1.perform run.task stack s.2) wrote := by
  have he := ho.ignores.effect.extends
  have hsound := ho.ignores.effect.sound (fun h => h) h.sound
  have hroutine := he.routine?_eq fun _ => id
  refine h.perform hf runs hd hf' he hsound ho.news (fun hu => h.errands ((hroutine _).symm.trans hu))
    (ho.ignores.script.trans h.script) (ho.ignores.plain.trans h.plain) ?_
  refine h.stage.imp (fun hnone => hnone.shunned ho.ignores.toShuns fun hu => (hroutine _).symm.trans hu) fun ⟨u, hdrain⟩ => ⟨u, ?_⟩
  have hne : u ≠ run.task := by
    rintro rfl
    exact hroot (Option.some.inj (hd.made.symm.trans hdrain.made))
  rw [hd.switch.other hne, he.thread? hsound.owned (lt_size_of_routine? hdrain.made)]
  exact hdrain.shunned ho.ignores.toShuns he id (fun hu => (hroutine _).symm.trans hu) (fun hth => hf.lt_size_of_waits hth)
    fun hth => .inl (outcome?_of_quiet he (hf.lt_size_of_waits hth))

/-- The drain keeps the error output on its way, if it gets on. -/
theorem drains (h : Outflow charset m wrote) (hf : Fits role m .transport) (runs : m.running = some run)
    (hd : Deed role role' m run.task root called stack s .transport) (hf' : Fits role' (s.1.perform run.task stack s.2) .transport)
    (hdrain : Drain charset run.task m wrote (m.thread? run.task)) (hg : Drains charset m wrote stack s) :
    Outflow charset (s.1.perform run.task stack s.2) wrote := by
  have he := hg.handles.effect.extends
  have hsound := hg.handles.effect.sound (fun h => h) h.sound
  have hroutine := he.routine?_eq fun _ => id
  refine h.perform hf runs hd hf' he hsound hg.news (fun hu => h.errands ((hroutine _).symm.trans hu))
    (hg.handles.steady.script.trans h.script) (hg.handles.steady.plain.trans h.plain) (.inr ⟨run.task, ?_⟩)
  rw [hd.switch.self]
  exact ⟨he.routine? hdrain.made, fun hv => hdrain.one ((hroutine _).symm.trans hv), he.not_isHeld id hdrain.free,
    hg.handles.steady.children.trans hdrain.few, hdrain.read.imp fun _ => he.routine?, hg.sifted, hg.stage⟩

end Outflow

/-! ## Launching -/

/-- A child that was just launched has a new drain, which has everything before it. -/
structure Equips (charset : Charset) (m m' : Loop) : Prop where
  effect : Effect launching m m'
  script : m'.state.script = none
  plain : (m'.state.child 0).script = none
  errands : ∀ {u : TaskId} {r : Routine}, m'.routine? u = some r → m.routine? u = some r ∨ r.IsErrand
  few : m'.state.children.length = 1
  sifted : Sifted charset m' []
  read : m'.routine? m.tasks.size = some (.readOutput 0 0)
  drain : m'.routine? (m.tasks.size + 1) = some (.drainErrors 0)
  one : ∀ {v : TaskId}, m'.routine? v = some (.drainErrors 0) → v = m.tasks.size + 1

theorem launch_complaints (m : Loop) : m.launch.1.state.complaints = m.state.complaints := by
  have hnext : ∀ launches l, ((m.modify fun s => { s with launches }).record (.launched l)).state.complaints = m.state.complaints :=
    fun launches l => State.complaints_record_of_none rfl
  unfold Loop.launch
  dsimp only
  split
  · exact hnext _ _
  · exact hnext _ _

/-- What follows on a launch makes a drain that has everything before it. -/
theorem Unheard.equips (h : Unheard m wrote) {m₁ : Loop} (he : Effect quiet m m₁) (htasks : m₁.tasks = m.tasks) {manner : Manner}
    (hc : m₁.state.children = [{ manner }]) (hscript : m₁.state.script = none) (htold : m₁.state.complaints = []) (text : Text)
    (htext : complaintMark.isPrefixOf text = false) :
    let m₂ := m₁.modifyTransport 0 fun x => { x with phase := .running, child := some 0 }
    let m₃ : Loop := (m₂.spawn (.readOutput 0 0)).1
    let m₄ : Loop := (m₃.spawn (.drainErrors 0)).1
    Equips charset m
      ((m₄.modifyTransport 0 fun x => { x with reader := some m₂.tasks.size, drain := some m₃.tasks.size }).note .info text) := by
  intro m₂ m₃ m₄
  let m₅ := (m₄.modifyTransport 0 fun x => { x with reader := some m₂.tasks.size, drain := some m₃.tasks.size }).note .info text
  have hsize : m₂.tasks.size = m.tasks.size := congrArg Array.size htasks
  have hgrown : m₃.tasks.size = m.tasks.size + 1 := (Array.size_push ..).trans (congrArg (· + 1) hsize)
  have hroutine : ∀ u, m₅.routine? u = if u = m.tasks.size + 1 then some (.drainErrors 0)
      else if u = m.tasks.size then some (.readOutput 0 0) else m.routine? u := by
    intro u
    have hold : m₂.routine? u = m.routine? u := by rw [Machine.routine?, Machine.routine?, ← htasks]; rfl
    change m₄.routine? u = _
    rw [routine?_spawn, routine?_spawn, hold, hgrown, hsize]
  have hcovers : launching.Covers quiet := ⟨False.elim, False.elim, False.elim, False.elim, id⟩
  have hreads : launching.spawn (.readOutput 0 0) ∧ launching.spawn (.drainErrors 0) := ⟨rfl, rfl⟩
  have heffect : Effect launching m m₅ :=
    (((((he.mono hcovers).tail (.share m₁ m₂.state)).tail (.spawn m₂ hreads.1)).tail (.spawn m₃ hreads.2)).tail
      (.share m₄ _)).tail (.share _ m₅.state)
  have hchildren : m₅.state.children = [{ manner }] := hc
  have hchild : m₅.state.child 0 = { manner } := by
    rw [State.child, hchildren]
    rfl
  have hstream : m₅.streamOf 0 .errors = {} := by rw [streamOf, hchild]
  have hcomplaints : m₅.state.complaints = [] := by
    have hnote : (Entry.note ⟨.info, text⟩).complaint? = none := if_neg (Bool.eq_false_iff.mp htext)
    exact (State.complaints_record_of_none hnote).trans htold
  have hsifted : Sifted charset m₅ [] := by
    refine ⟨?_, by rw [hstream], by rw [hstream, hchild]; rfl, fun _ => ?_, fun _ => ?_⟩
    · rw [hchildren]
      exact Nat.one_pos
    · rw [hcomplaints, hstream]
      rfl
    · rw [hstream]
  refine ⟨heffect, hscript, by rw [hchild], fun {u r} hu => ?_, congrArg List.length hchildren, hsifted, ?_, ?_, fun {v} hv => ?_⟩
  · rw [hroutine] at hu
    split at hu
    · cases hu
      exact .inr .drainErrors
    · split at hu
      · cases hu
        exact .inr .readOutput
      · exact .inl hu
  · rw [hroutine, if_neg (Nat.ne_of_lt (Nat.lt_succ_self _)), if_pos rfl]
  · rw [hroutine, if_pos rfl]
  · rw [hroutine] at hv
    split at hv
    · assumption
    · split at hv
      · cases hv
      · exact absurd hv h.drains

/-- To start an idle transport launches its child, or the error output is ignored. -/
theorem Unheard.startChild (h : Unheard m wrote) (hp : Posture x m) (hidle : x.phase = .idle) (hscript : m.state.script = none) :
    Ignores quiet m (startChild 0 m).1 ∨ Equips charset m (startChild 0 m).1 := by
  unfold Loop.startChild
  dsimp only
  rw [hp.childTransport, hidle]
  dsimp only
  split
  · exact .inl (.modifyTransport m 0 _)
  · have hpass := Passes.launch m
    have htold := launch_complaints m
    rcases launch_cases m hscript with ⟨m₁, e, hlaunch, hh, hc⟩ | ⟨m₁, manner, hlaunch, he, htasks, hc, hscript'⟩
    · rw [hlaunch] at hpass htold ⊢
      have hi : Ignores quiet m m₁ :=
        { settings := hh.steady.settings, receiver := hpass.receiver, script := hh.steady.script, complaints := htold
          children := congrArg List.length hc, code := hh.steady.code, plain := hh.steady.plain
          errors := by rw [streamOf, streamOf, State.child, State.child, hc]
          waiter := fun hf => .inl (by rwa [hh.other Pipe.noConfusion] at hf), effect := hh.effect }
      exact .inl (hi.trans (.modifyTransport m₁ 0 _))
    · rw [hlaunch] at htold ⊢
      rw [h.children] at hc ⊢
      exact .inr (h.equips he htasks hc hscript' (htold.trans h.complaints) _ rfl)

namespace Outflow

/-- The drain of a child that was made to drain. -/
theorem drain (h : Outflow charset m wrote) (hu : m.routine? u = some (.drainErrors 0)) : Drain charset u m wrote (m.thread? u) := by
  rcases h.stage with hnone | ⟨v, hd⟩
  · exact absurd hu hnone.drains
  · cases hd.one hu
    exact hd

/-- To launch a child keeps its error output on its way: it has a drain now. -/
theorem launches (h : Outflow charset m wrote) (hf : Fits role m .transport) (runs : m.running = some run)
    (hd : Deed role role' m run.task root called stack s .transport) (hf' : Fits role' (s.1.perform run.task stack s.2) .transport)
    (hl : Equips charset m s.1) (hnew : m.AwaitsNew s.2) (hnone : Unheard m wrote) :
    Outflow charset (s.1.perform run.task stack s.2) wrote := by
  have he := hl.effect.extends
  have hsound := hl.effect.sound (fun h => h) h.sound
  refine h.perform hf runs hd hf' he hsound hnew (fun hu => (hl.errands hu).elim h.errands id) hl.script hl.plain
    (.inr ⟨m.tasks.size + 1, ?_⟩)
  have hne : m.tasks.size + 1 ≠ run.task := by
    obtain ⟨task, htask, -⟩ := Option.map_eq_some_iff.mp hd.made
    have hlt := (Array.getElem?_eq_some_iff.mp htask).1
    omega
  obtain ⟨task, htask, hroutine⟩ := Option.map_eq_some_iff.mp hl.drain
  have hth := he.thread?_new h.sound.owned hsound (Nat.le_succ _) htask fun y hy => (h.sound.running hy).lt_size
  have hfree : ¬ s.1.IsHeld (m.tasks.size + 1) := by
    rintro ⟨task', htask', hheld⟩
    exact (he.spawned (Nat.le_succ _) htask').2.2.2 hheld
  rw [hd.switch.other hne, hth, hroutine, hnone.wrote]
  exact ⟨hl.drain, hl.one, hfree, hl.few, ⟨_, hl.read⟩, hl.sifted, .fresh⟩

/-- What waits for the output of the child is there. -/
theorem lt_size_of_waiter (hf : Fits role m .transport) {f : FutureId} (hw : (m.streamOf 0 .output).waiter = some f) :
    f < m.futures.size :=
  (hf.tidy.stream_waiter hw).1.lt_size

/-- What begins keeps the error output on its way. -/
theorem begins (h : Outflow charset m wrote) (hp : Posture x m) (hf : Fits role m .transport)
    (runs : m.running = some (.begin t r stack)) (stands : r.StandsFor called)
    (hd : Deed role role' m t root called stack (begin r m) .transport)
    (hf' : Fits role' ((begin r m).1.perform t stack (begin r m).2) .transport)
    (hcharset : Charset.lookup m.state.settings.encoding = .ok charset) :
    Outflow charset ((begin r m).1.perform t stack (begin r m).2) wrote := by
  have hth : m.thread? t = some ⟨.begins r, stack⟩ := thread?_of_running runs
  cases h.errands hd.made with
  | readOutput =>
    obtain ⟨root', hroot, hfits⟩ := hf.threads hth
    cases hroot.symm.trans hd.made
    exact h.others hf runs hd hf' (.begins_reading hf.receiver hfits.reading) Routine.noConfusion
  | drainErrors =>
    have hdrain := h.drain hd.made
    have hstage := hdrain.stage
    rw [hth] at hstage
    exact h.drains hf runs hd hf' hdrain (hstage.begins_on hdrain.sifted hcharset (lt_size_of_waiter hf))
  | start =>
    obtain ⟨rfl, rfl⟩ := hd.stacked.under_start
    cases stands
    have heq : begin (.start 0) m = startChild 0 m := hp.start_eq
    rw [heq] at hd hf' ⊢
    have hnew : m.AwaitsNew (startChild 0 m).2 := awaitsNew_of_done (startChild_done 0 m)
    rcases hp.startChild with hsame | ⟨hidle, -⟩
    · have hi : Ignores quiet m (startChild 0 m).1 := by
        rw [hsame]
        exact .refl m
      exact h.others hf runs hd hf' ⟨hi, hnew⟩ Routine.noConfusion
    · have hnone : Unheard m wrote := h.stage.resolve_right fun ⟨u, hdrain⟩ =>
        have ⟨v, hv⟩ := hdrain.read
        hp.idle hidle hv
      have hor : Ignores quiet m (startChild 0 m).1 ∨ Equips charset m (startChild 0 m).1 := hnone.startChild hp hidle h.script
      rcases hor with hi | hl
      · exact h.others hf runs hd hf' ⟨hi, hnew⟩ Routine.noConfusion
      · exact h.launches hf runs hd hf' hl hnew hnone

/-- What goes on keeps the error output on its way. -/
theorem resumes (h : Outflow charset m wrote) (hf : Fits role m .transport) (runs : m.running = some (.resume t o (F :: stack)))
    (serves : F.Serves m.routine? called) (hd : Deed role role m t root called stack (resume F o m) .transport)
    (hf' : Fits role ((resume F o m).1.perform t stack (resume F o m).2) .transport)
    (hcharset : Charset.lookup m.state.settings.encoding = .ok charset) :
    Outflow charset ((resume F o m).1.perform t stack (resume F o m).2) wrote := by
  have hth : m.thread? t = some ⟨.resumes o, F :: stack⟩ := thread?_of_running runs
  cases h.errands hd.made with
  | readOutput =>
    obtain ⟨root', hroot, hfits⟩ := hf.threads hth
    cases hroot.symm.trans hd.made
    exact h.others hf runs hd hf' (.resumes_reading hf.receiver hfits.reading) Routine.noConfusion
  | drainErrors =>
    have hdrain := h.drain hd.made
    have hstage := hdrain.stage
    rw [hth] at hstage
    exact h.drains hf runs hd hf' hdrain (hstage.resumes_on hdrain.sifted hcharset (lt_size_of_waiter hf))
  | start =>
    obtain ⟨rfl, rfl⟩ := hd.stacked.under_start
    obtain ⟨fails, w, rfl⟩ := serves.of_start
    exact h.others hf runs hd hf' (.gateResumed m 0 .start fails w o) Routine.noConfusion

/-- **Every step of the loop keeps the error output on its way.** -/
theorem tick (h : Outflow charset m wrote) (hp : Posture x m) (hf : Fits role m .transport) (hq : m.isQuiet = false)
    (hcharset : Charset.lookup m.state.settings.encoding = .ok charset) : Outflow charset (m.tick program) wrote := by
  cases hrun : m.running with
  | none =>
    refine h.turn hf hrun fun hnil => ?_
    simp [isQuiet, hrun, hnil] at hq
  | some run =>
    obtain ⟨role', hstride, hf'⟩ := hf.stride hq
    generalize htick : m.tick program = m' at hstride hf' ⊢
    cases hstride with
    | awakes idle => cases hrun.symm.trans idle
    | passes idle => cases hrun.symm.trans idle
    | @ends _ t o runs =>
      have heq : m.tick program = m.endTask t o := by simp [Machine.tick, runs]
      rw [← htick, heq]
      exact h.ends hf runs
    | begins runs _ stands deed => exact h.begins hp hf runs stands deed hf' hcharset
    | resumes runs serves _ _ deed => exact h.resumes hf runs serves deed hf' hcharset

end Outflow

end Loop

end DiagnosticsClient
