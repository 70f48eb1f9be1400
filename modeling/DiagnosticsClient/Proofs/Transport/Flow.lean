import DiagnosticsClient.Proofs.Transport.Progress
/-
The output of a child, on its way to whoever watches the transport.

Nobody stops the transport, so there is nothing but its start, its reader and its
drain (`Routine.IsErrand`). No two of them wait for one future (`Alone`), and nothing
is settled but what a pipe names. Then a child is not launched yet, or has one reader,
whose progress is known (`Flow`); and a step of the loop keeps that (`Flow.tick`).
-/
namespace DiagnosticsClient

open Async Async.Machine

/-- What the tasks of a transport are made for that nobody stops. -/
inductive Routine.IsErrand : Routine → Prop
  | start : IsErrand (.start 0)
  | readOutput : IsErrand (.readOutput 0 0)
  | drainErrors : IsErrand (.drainErrors 0)

theorem Routine.IsErrand.isChore {r : Routine} (h : r.IsErrand) : r.IsChore := by
  cases h with
  | start => exact .start
  | readOutput => exact .readOutput 0
  | drainErrors => exact .drainErrors 0

namespace Loop

variable {role role' : FutureId → Role} {m m' : Loop} {said : Bytes} {t u : TaskId} {f : FutureId} {root called r : Routine}
  {F : Frame} {stack : List Frame} {o : Ending} {s : Loop × Move} {th : Option (Thread Routine Frame Value Failure)}
  {x : Running Routine Frame Value Failure} {may : Licence Routine}

/-! ## Who waits for what -/

/-- No two tasks wait for one future. -/
structure Alone (m : Loop) : Prop where
  one : ∀ {t u : TaskId} {f : FutureId} {s s' : List Frame}, m.thread? t = some ⟨.waits f, s⟩ →
    m.thread? u = some ⟨.waits f, s'⟩ → t = u

theorem Alone.extends {T T' : FutureId → Prop} (h : m.Alone) (he : m.Extends may m') (hs : m.Sound T) (hs' : m'.Sound T') :
    m'.Alone := by
  have hold : ∀ {t f s}, m'.thread? t = some ⟨.waits f, s⟩ → m.thread? t = some ⟨.waits f, s⟩ := by
    intro t f s hth
    rcases he.thread?_cases hs hs' hth with hth | ⟨_, -, -, -, heq⟩
    · exact hth
    · cases heq
  exact ⟨fun ht hu => h.one (hold ht) (hold hu)⟩

theorem Alone.switch (h : m.Alone) (hs : m.Switch t th m')
    (hnew : ∀ {f s}, th = some ⟨.waits f, s⟩ → ∀ {u s'}, u ≠ t → m.thread? u ≠ some ⟨.waits f, s'⟩) : m'.Alone := by
  refine ⟨fun {v w f s s'} hv hw => ?_⟩
  by_cases hvt : v = t <;> by_cases hwt : w = t
  · exact hvt.trans hwt.symm
  · subst hvt
    exact absurd ((hs.other hwt).symm.trans hw) (hnew (hs.self.symm.trans hv) hwt)
  · subst hwt
    exact absurd ((hs.other hvt).symm.trans hv) (hnew (hs.self.symm.trans hw) hvt)
  · exact h.one ((hs.other hvt).symm.trans hv) ((hs.other hwt).symm.trans hw)

/-- A future that whoever may be cancelled does not wait for is given nothing but a value, by what settles nothing else. -/
theorem outcome?_cases (he : m.Extends may m') (ht : ¬ may.target f) (hlt : f < m.futures.size)
    (hc : ∀ u, may.cancel u → m.waitsFor? u ≠ some f) :
    m'.outcome? f = m.outcome? f ∨ may.wake f ∧ ∃ v, m'.outcome? f = some (.value v) := by
  cases ho : m.outcome? f with
  | some o => exact .inl (he.outcome ho)
  | none =>
    cases ho' : m'.outcome? f with
    | none => exact .inl rfl
    | some o =>
      rcases he.settled ho' with hold | ⟨-, hsettles⟩
      · cases ho.symm.trans hold
      · rcases hsettles hlt with h | ⟨hwake, hvalue⟩ | ⟨-, u, hcancel, hwaits⟩
        · exact absurd h ht
        · cases o with
          | value v => exact .inr ⟨hwake, v, rfl⟩
          | _ => cases hvalue
        · exact absurd hwaits (hc u hcancel)

/-- What is quiet settles nothing. -/
theorem outcome?_of_quiet (he : m.Extends quiet m') (hlt : f < m.futures.size) : m'.outcome? f = m.outcome? f :=
  (outcome?_cases he id hlt fun _ h => h.elim).resolve_right fun h => h.1.elim

/-- What a task waits for that is not cancelled is given nothing but a value, where nobody else waits for it. -/
theorem Alone.outcome?_cases {T : FutureId → Prop} {stack : List Frame} (h : m.Alone) (hs : m.Sound T) (he : m.Extends may m')
    (hth : m.thread? u = some ⟨.waits f, stack⟩) (hlt : f < m.futures.size) (ht : ¬ may.target f) (hu : ¬ may.cancel u) :
    m'.outcome? f = m.outcome? f ∨ ∃ v, m'.outcome? f = some (.value v) := by
  refine (Loop.outcome?_cases he ht hlt fun v hv hw => ?_).imp_right And.right
  -- whoever else is cancelled waits for another future
  obtain ⟨task, htask, hwaiting⟩ := Option.bind_eq_some_iff.mp hw
  obtain ⟨stack', hth'⟩ := hs.waiting htask hwaiting
  exact hu (h.one hth' hth ▸ hv)

/-! ## The invariant -/

/-- No child was launched yet. -/
structure Unlaunched (m : Loop) (said : Bytes) : Prop where
  children : m.state.children = []
  said : said = []
  tidings : m.state.tidings = []
  readers : ∀ {u : TaskId} {c : ChildId}, m.routine? u ≠ some (.readOutput 0 c)

/-- The child has one reader, and it is known how far that has got. -/
structure Reader (u : TaskId) (m : Loop) (said : Bytes) (th : Option (Thread Routine Frame Value Failure)) : Prop where
  made : m.routine? u = some (.readOutput 0 0)
  one : ∀ {v : TaskId}, m.routine? v = some (.readOutput 0 0) → v = u
  free : ¬ m.IsHeld u
  few : m.state.children.length = 1
  progress : Progress m said th

/-- What a child has said is on its way to whoever watches the transport. -/
structure Flow (m : Loop) (said : Bytes) : Prop where
  sound : m.Sound fun _ => False
  alone : m.Alone
  errands : ∀ {u : TaskId} {r : Routine}, m.routine? u = some r → r.IsErrand
  tame : Tame m.state
  stage : Unlaunched m said ∨ ∃ u, Reader u m said (m.thread? u)

theorem Unlaunched.of_state (h : Unlaunched m said) (hs : m'.state = m.state) (hr : ∀ u, m'.routine? u = m.routine? u) :
    Unlaunched m' said :=
  ⟨by rw [hs, h.children], h.said, by rw [hs, h.tidings], fun hu => h.readers (hr _ ▸ hu)⟩

/-- A step that moves one thread keeps the reader where it is. -/
theorem Reader.switch (h : Reader u m said th) {y : Option (Thread Routine Frame Value Failure)} (hs : m.Switch t y m')
    (hplain : ∀ {f s}, th = some ⟨.waits f, s⟩ → m.IsPlain f) : Reader u m' said th where
  made := (hs.routine u).trans h.made
  one hv := h.one ((hs.routine _).symm.trans hv)
  free hheld := h.free (hs.held hheld)
  few := by rw [hs.state]; exact h.few
  progress := (Unmoved.of_state hs.state).progress h.progress fun hth => .inl (hs.outcome (hplain hth))

/-- What is quiet, and leaves the output of the child alone, keeps the reader where it is. -/
theorem Reader.extends_ (h : Reader u m said th) (he : m.Extends quiet m') (hu : Unmoved m m')
    (hlt : ∀ {f s}, th = some ⟨.waits f, s⟩ → f < m.futures.size) : Reader u m' said th where
  made := he.routine? h.made
  one hv := h.one ((he.routine?_eq (fun _ => id) _).symm.trans hv)
  free := he.not_isHeld id h.free
  few := hu.children.trans h.few
  progress := hu.progress h.progress fun hth => .inl (outcome?_of_quiet he (hlt hth))

/-! ## Between turns -/

/-- The reader is set going when there is something to read. -/
theorem Progress.awakes {th th' : Thread Routine Frame Value Failure} (h : Progress m said (some th)) (how : m.Awakes u th th')
    (hfree : ¬ m.IsHeld u) : Progress m said (some th') := by
  cases how with
  | begins =>
    cases h with
    | fresh ht => exact .begins ht
  | dropped hheld => exact absurd hheld hfree
  | resumes _ ho =>
    cases h with
    | waits ht hw =>
      rcases hw with ⟨hnone, -⟩ | ⟨v, hv⟩
      · cases ho.symm.trans hnone
      · cases ho.symm.trans hv
        exact .resumes ht
  | interrupted hheld => exact absurd hheld hfree

/-- The future that a task waits for is there. -/
theorem Fits.lt_size_of_waits {usage : Usage} {s : List Frame} (hf : Fits role m usage) (hth : m.thread? u = some ⟨.waits f, s⟩) :
    f < m.futures.size := by
  obtain ⟨root, -, hfits⟩ := hf.threads hth
  cases hfits with
  | waits _ ha _ => exact ha.lt_size

namespace Flow

/-- A step that moves a thread, and reads nothing, keeps the flow. -/
theorem switch (h : Flow m said) (hf : Fits role m .transport) (hs : m.Switch t th m') (hsound : m'.Sound fun _ => False)
    (hnot : ∀ {f s}, th ≠ some ⟨.waits f, s⟩) (hself : Progress m said (m.thread? t) → ¬ m.IsHeld t → Progress m said th) :
    Flow m' said where
  sound := hsound
  alone := h.alone.switch hs fun hth => absurd hth hnot
  errands hu := h.errands ((hs.routine _).symm.trans hu)
  tame := by rw [hs.state]; exact h.tame
  stage := by
    refine h.stage.imp (fun hnone => hnone.of_state hs.state hs.routine) fun ⟨u, hr⟩ => ⟨u, ?_⟩
    by_cases hut : u = t
    · subst hut
      rw [hs.self]
      have hr' : Reader u m said th := ⟨hr.made, hr.one, hr.free, hr.few, hself hr.progress hr.free⟩
      exact hr'.switch hs fun hth => absurd hth hnot
    · rw [hs.other hut]
      exact hr.switch hs fun hth => hf.isPlain_of_reading hr.made hth

/-- What is quiet and changes nothing that is shared keeps the flow. -/
theorem settled (h : Flow m said) (hf : Fits role m .transport) (hs : Settled quiet m m') : Flow m' said where
  sound := hs.sound
  alone := h.alone.extends hs.extends_ h.sound hs.sound
  errands hu := h.errands ((hs.extends_.routine?_eq (fun _ => id) _).symm.trans hu)
  tame := by rw [hs.state]; exact h.tame
  stage := by
    refine h.stage.imp (fun hnone => hnone.of_state hs.state (hs.extends_.routine?_eq fun _ => id)) fun ⟨u, hr⟩ => ⟨u, ?_⟩
    rw [hs.extends_.thread? hs.sound.owned (lt_size_of_routine? hr.made)]
    exact hr.extends_ hs.extends_ (.of_state hs.state) fun hth => hf.lt_size_of_waits hth

/-- A step between the turns of tasks keeps the flow. -/
theorem turn (h : Flow m said) (hf : Fits role m .transport) (idle : m.running = none) (hne : m.ready ≠ []) :
    Flow (m.tick program) said := by
  obtain ⟨hsound, hor⟩ := Machine.tick_of_not_running program (show m.Sound quiet.target from h.sound) idle hne
  rcases hor with ⟨t, th, th', hth, how, hs⟩ | ⟨he, hstate⟩
  · refine h.switch hf hs hsound (fun heq => ?_) fun hp hfree => ?_
    · cases heq
      cases how
    · rw [hth] at hp
      exact hp.awakes how hfree
  · exact h.settled hf ⟨hsound, he, hstate⟩

/-- The end of a task keeps the flow. -/
theorem ends (h : Flow m said) (hf : Fits role m .transport) (runs : m.running = some (.resume t o [])) :
    Flow (m.endTask t o) said := by
  obtain ⟨hsound, hs, -⟩ := h.sound.endTask runs o
  refine h.switch hf hs hsound (by rintro _ _ ⟨⟩) fun hp _ => ?_
  have hth : m.thread? (Running.resume t o []).task = some ⟨.resumes o, []⟩ := thread?_of_running runs
  rw [hth] at hp
  cases hp with
  | ends hr => exact .finished hr

end Flow

/-! ## Steps of the running task -/

namespace Flow

/-- What the running task does keeps the flow, if it settles nothing, waits for something new if it waits, and leaves the
reader where it is known to be. -/
theorem perform (h : Flow m said) (hf : Fits role m .transport) (runs : m.running = some x)
    (hd : Deed role role' m x.task root called stack s .transport) (hf' : Fits role' (s.1.perform x.task stack s.2) .transport)
    (he : m.Extends may s.1) (hsound : s.1.Sound fun _ => False) (hnew : m.AwaitsNew s.2)
    (herrands : ∀ {u r}, s.1.routine? u = some r → r.IsErrand) (htame : Tame s.1.state)
    (hstage : Unlaunched s.1 said ∨ ∃ u, Reader u s.1 said ((s.1.perform x.task stack s.2).thread? u)) :
    Flow (s.1.perform x.task stack s.2) said where
  sound := by
    refine (perform_switch hsound (he.running.trans runs) stack s.2 fun f F hawait => ?_).1
    have hmove := hd.does.move
    rw [hawait] at hmove
    cases hmove with
    | await hs ha hn => exact ha.lt_size
  alone := by
    refine (h.alone.extends he h.sound hsound).switch hd.switch fun {f s'} hth {v s''} hne hv => ?_
    have hge : m.futures.size ≤ f := by
      have hnext : s.1.nextThread stack s.2 = ⟨.waits f, s'⟩ := Option.some.inj hth
      cases ha : s.2 with
      | await g F =>
        rw [ha] at hnext hnew
        unfold nextThread at hnext
        dsimp only at hnext
        split at hnext <;> cases hnext
        exact hnew rfl
      | _ => rw [ha] at hnext; cases hnext
    rcases he.thread?_cases h.sound hsound hv with hold | ⟨_, -, -, -, heq⟩
    · exact absurd (hf.lt_size_of_waits hold) (Nat.not_lt_of_le hge)
    · cases heq
  errands hu := herrands ((hd.switch.routine _).symm.trans hu)
  tame := by rw [hd.switch.state]; exact htame
  stage := by
    refine hstage.imp (fun hnone => hnone.of_state hd.switch.state hd.switch.routine) fun ⟨u, hr⟩ => ⟨u, ?_⟩
    refine hr.switch hd.switch fun {f s'} hth => ?_
    have hplain := hf'.isPlain_of_reading ((hd.switch.routine u).trans hr.made) hth
    rwa [IsPlain, hd.switch.owner] at hplain

/-- Whoever does not read keeps the flow, if it leaves the output of the child alone, or there is no child. -/
theorem others (h : Flow m said) (hf : Fits role m .transport) (runs : m.running = some x)
    (hd : Deed role role' m x.task root called stack s .transport) (hf' : Fits role' (s.1.perform x.task stack s.2) .transport)
    (hh : Handles quiet .errors m s.1) (hnew : m.AwaitsNew s.2) (hroot : root ≠ .readOutput 0 0)
    (hstage : Unlaunched s.1 said ∨ Unmoved m s.1) : Flow (s.1.perform x.task stack s.2) said := by
  have he := hh.effect.extends
  have hsound := hh.effect.sound (fun h => h) h.sound
  have hroutine := he.routine?_eq fun _ => id
  refine h.perform hf runs hd hf' he hsound hnew (fun hu => h.errands ((hroutine _).symm.trans hu)) (hh.steady.tame h.tame) ?_
  rcases hstage with hnone | hu
  · exact .inl hnone
  · refine h.stage.imp (fun hnone => ?_) fun ⟨u, hr⟩ => ⟨u, ?_⟩
    · refine ⟨List.length_eq_zero_iff.mp (hu.children.trans ?_), hnone.said, hu.tidings.trans hnone.tidings,
        fun hr => hnone.readers ((hroutine _).symm.trans hr)⟩
      rw [hnone.children]
      rfl
    · have hne : u ≠ x.task := by
        rintro rfl
        exact hroot (Option.some.inj (hd.made.symm.trans hr.made))
      rw [hd.switch.other hne, he.thread? hsound.owned (lt_size_of_routine? hr.made)]
      exact hr.extends_ he hu fun hth => hf.lt_size_of_waits hth

/-- The reader keeps the flow, if it gets on. -/
theorem reads (h : Flow m said) (hf : Fits role m .transport) (runs : m.running = some x)
    (hd : Deed role role' m x.task root called stack s .transport) (hf' : Fits role' (s.1.perform x.task stack s.2) .transport)
    (hr : Reader x.task m said (m.thread? x.task)) (hg : GetsOn m said stack s) : Flow (s.1.perform x.task stack s.2) said := by
  have he := hg.handles.effect.extends
  have hsound := hg.handles.effect.sound (fun h => h) h.sound
  have hroutine := he.routine?_eq fun _ => id
  refine h.perform hf runs hd hf' he hsound hg.news (fun hu => h.errands ((hroutine _).symm.trans hu))
    (hg.handles.steady.tame h.tame) (.inr ⟨x.task, ?_⟩)
  rw [hd.switch.self]
  exact ⟨he.routine? hr.made, fun hv => hr.one ((hroutine _).symm.trans hv), he.not_isHeld id hr.free,
    hg.handles.steady.children.trans hr.few, hg.progress⟩

end Flow

/-! ## Launching -/

/-- To make futures, and tasks that read from a child. -/
def launching : Licence Routine := { quiet with spawn := fun r => r.isSpawned = true }

/-- A child that answers by no script is launched, or none is. -/
theorem launch_cases (m : Loop) (hscript : m.state.script = none) :
    (∃ m₁ e, m.launch = (m₁, .error e) ∧ Handles quiet .errors m m₁ ∧ m₁.state.children = m.state.children) ∨
    ∃ (m₁ : Loop) (manner : Manner), m.launch = (m₁, .ok m.state.children.length) ∧ Effect quiet m m₁ ∧ m₁.tasks = m.tasks ∧
      m₁.state.children = m.state.children ++ [({ manner } : Child)] ∧ m₁.state.script = none := by
  have hnext : ∀ launches l, Effect quiet m ((m.modify fun s => { s with launches }).record (.launched l)) := fun launches l =>
    .tail (.single (.share _ _)) (.share _ _)
  unfold Loop.launch
  dsimp only
  split
  · exact .inl ⟨_, _, rfl, .of_children (hnext _ _) rfl rfl rfl, rfl⟩
  · next manner _ =>
    refine .inr ⟨_, manner, rfl, .tail (hnext _ _) (.share _ _), rfl, ?_, hscript⟩
    simp only [addChild, Loop.record, Loop.modify, State.record, hscript]

/-- A child that was just launched has a new reader, which has everything before it. -/
structure Launched (m m' : Loop) (said : Bytes) : Prop where
  effect : Effect launching m m'
  tame : Tame m'.state
  errands : ∀ {u : TaskId} {r : Routine}, m'.routine? u = some r → m.routine? u = some r ∨ r.IsErrand
  few : m'.state.children.length = 1
  taken : Taken m' said m'.decoder
  reader : m'.routine? m.tasks.size = some (.readOutput 0 0)
  one : ∀ {v : TaskId}, m'.routine? v = some (.readOutput 0 0) → v = m.tasks.size

/-- What follows on a launch makes a reader that has everything before it. -/
theorem Unlaunched.launched (h : Unlaunched m said) {m₁ : Loop} {x : ChildTransport} (hp : Posture x m₁) (hidle : x.phase = .idle)
    (he : Effect quiet m m₁) (htasks : m₁.tasks = m.tasks) {child : Manner} (hc : m₁.state.children = [{ manner := child }])
    (hscript : m₁.state.script = none) (htidings : m₁.state.tidings = []) (hr : m₁.state.receiver = .watcher) (text : Text) :
    let m₂ := m₁.modifyTransport 0 fun x => { x with phase := .running, child := some 0 }
    let m₃ : Loop := (m₂.spawn (.readOutput 0 0)).1
    let m₄ : Loop := (m₃.spawn (.drainErrors 0)).1
    Launched m ((m₄.modifyTransport 0 fun x => { x with reader := some m₂.tasks.size, drain := some m₃.tasks.size }).note .info text)
      said := by
  intro m₂ m₃ m₄
  obtain ⟨x', hrunning, hruns⟩ := hp.runs hidle 0
  let m₅ := (m₄.modifyTransport 0 fun x => { x with reader := some m₂.tasks.size, drain := some m₃.tasks.size }).note .info text
  have hspawned : ∀ {u r}, m₅.routine? u = some r →
      m.routine? u = some r ∨ u = m.tasks.size ∧ r = .readOutput 0 0 ∨ r = .drainErrors 0 := by
    intro u r hu
    have hu₄ : m₄.routine? u = some r := hu
    rw [routine?_spawn] at hu₄
    split at hu₄
    · exact .inr (.inr (Option.some.inj hu₄).symm)
    · rw [routine?_spawn] at hu₄
      split at hu₄
      · next heq => exact .inr (.inl ⟨heq.trans (congrArg Array.size htasks), (Option.some.inj hu₄).symm⟩)
      · have hu₁ : m₁.routine? u = some r := hu₄
        rw [Machine.routine?, htasks] at hu₁
        exact .inl hu₁
  have hcovers : launching.Covers quiet := ⟨False.elim, False.elim, False.elim, False.elim, id⟩
  have hreads : ∀ c, launching.spawn (.readOutput 0 c) ∧ launching.spawn (.drainErrors c) := fun _ => ⟨rfl, rfl⟩
  have heffect : Effect launching m m₅ :=
    (((((he.mono hcovers).tail (.share m₁ m₂.state)).tail (.spawn m₂ (hreads 0).1)).tail (.spawn m₃ (hreads 0).2)).tail
      (.share m₄ _)).tail (.share _ m₅.state)
  have hchild : m₅.state.child 0 = { manner := child } := by
    have hc₅ : m₅.state.children = [{ manner := child }] := hc
    rw [State.child, hc₅]
    rfl
  have htold : m₅.state.tidings = [] := by
    have hnote := (Passes.note (m₄.modifyTransport 0 fun x =>
      { x with reader := some m₂.tasks.size, drain := some m₃.tasks.size }) text (Level.noConfusion : Level.info ≠ .error))
    exact hnote.stays.tidings.trans htidings
  have hstream : m₅.streamOf 0 .output = {} := by rw [streamOf, hchild]
  have hreader : m₅.routine? m.tasks.size = some (.readOutput 0 0) := by
    have hsize : m₂.tasks.size = m.tasks.size := congrArg Array.size htasks
    have hgrown : m₃.tasks.size = m₂.tasks.size + 1 := Array.size_push ..
    have hne : m.tasks.size ≠ m₃.tasks.size := by omega
    change m₄.routine? m.tasks.size = _
    rw [routine?_spawn, routine?_spawn, if_neg hne, if_pos hsize.symm]
  refine ⟨heffect, ?_, fun {u r} hu => ?_, congrArg List.length hc, ⟨rfl, ⟨hr, x', hruns.driven, hrunning⟩, ?_, [], ⟨[], 0, none⟩, ?_,
    .of_empty rfl, htold⟩, hreader, fun {v} hv => ?_⟩
  · refine ⟨hscript, ?_, ?_, ?_⟩ <;> rw [hchild]
    rfl
  · rcases hspawned hu with hu | ⟨-, rfl⟩ | rfl
    · exact .inl hu
    · exact .inr .readOutput
    · exact .inr .drainErrors
  · rw [show m₅.state.children.length = 1 from congrArg List.length hc]
    exact Nat.one_pos
  · rw [h.said, hstream]
    rfl
  · rcases hspawned hv with hv | ⟨rfl, -⟩ | heq
    · exact absurd hv h.readers
    · rfl
    · cases heq

/-- To start an idle transport launches its child, or stops it. -/
theorem Unlaunched.startChild (h : Unlaunched m said) {x : ChildTransport} (hp : Posture x m) (hidle : x.phase = .idle)
    (ht : Tame m.state) (hr : m.state.receiver = .watcher) :
    Handles quiet .errors m (startChild 0 m).1 ∧ Unlaunched (startChild 0 m).1 said ∨ Launched m (startChild 0 m).1 said := by
  unfold Loop.startChild
  dsimp only
  rw [hp.childTransport, hidle]
  dsimp only
  split
  · exact .inl ⟨.of_children (.single (.share _ _)) rfl rfl rfl, h.children, h.said, h.tidings, h.readers⟩
  · have hpass := Passes.launch m
    rcases launch_cases m ht.script with ⟨m₁, e, hlaunch, hh, hc⟩ | ⟨m₁, manner, hlaunch, he, htasks, hc, hscript⟩
    · rw [hlaunch] at hpass ⊢
      have hroutine := hh.effect.extends.routine?_eq fun _ => id
      exact .inl ⟨hh.trans (.of_children (.single (.share _ _)) rfl rfl rfl), hc.trans h.children, h.said,
        hpass.stays.tidings.trans h.tidings, fun hu => h.readers ((hroutine _).symm.trans hu)⟩
    · rw [hlaunch] at hpass ⊢
      rw [h.children] at hc ⊢
      exact .inr (h.launched (hp.passes hpass (.inl rfl)) hidle he htasks hc hscript
        (hpass.stays.tidings.trans h.tidings) (hpass.receiver.trans hr) _)

end Loop

end DiagnosticsClient
