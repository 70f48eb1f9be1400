import DiagnosticsClient.Proofs.Transport.Delivery
/-
What reaches a transport from outside while its child speaks.

Whatever reaches it keeps the flow, when nobody cancels the reader, asks for a stop or
breaks the output (`Watch.Flow.after`): what the child says is added and whoever waits
for it is woken (`Feeds`), and all else leaves its output alone (`Unmoved`).
-/
namespace DiagnosticsClient

open Async Async.Machine

namespace Loop

variable {role : FutureId → Role} {m m' : Loop} {said : Bytes} {t u : TaskId} {f : FutureId} {c : ChildId} {pipe : Pipe}
  {s : Stimulus} {may : Licence Routine}

/-! ## What is heard of a child -/

/-- To wake whoever waits, to cancel one task, and to make one. -/
def heeding (s : Stimulus) : Licence Routine where
  target _ := False
  wake _ := True
  cancel u := s = .cancel u
  spawn r := s = .ask r

/-- The output of the child was open, and gets more octets or ends; whoever waits for it is woken. -/
structure Feeds (m m' : Loop) (more : Bytes) : Prop where
  driven : m'.state.driven 0 = m.state.driven 0
  tidings : m'.state.tidings = m.state.tidings
  receiver : m'.state.receiver = m.state.receiver
  settings : m'.state.settings = m.state.settings
  children : m'.state.children.length = m.state.children.length
  child : 0 < m.state.children.length
  opened : (m.streamOf 0 .output).ended = false
  buffer : (m'.streamOf 0 .output).buffer = (m.streamOf 0 .output).buffer ++ more
  woken : ∀ {f : FutureId}, (m.streamOf 0 .output).waiter = some f → m.outcome? f = none →
    m'.outcome? f = some (.value .nothing)
  outcome : ∀ {f : FutureId} {o : Ending}, m.outcome? f = some o → m'.outcome? f = some o

namespace Feeds

variable {more : Bytes} {d : Decoder} {th : Option (Thread Routine Frame Value Failure)}

theorem taken (h : Feeds m m' more) (ht : Taken m said d) : Taken m' (said ++ more) d where
  encoding := by rw [ht.encoding, h.settings]
  runs := ⟨h.receiver.trans ht.runs.receiver, by rw [h.driven]; exact ht.runs.phase⟩
  child := by rw [h.children]; exact ht.child
  taken := by
    obtain ⟨seen, past, hsaid, hfollows, htold⟩ := ht.taken
    exact ⟨seen, past, by rw [h.buffer, hsaid, List.append_assoc], hfollows, h.tidings.trans htold⟩

/-- **What the child says while its output is open is on its way too.** -/
theorem progress (h : Feeds m m' more) (hp : Progress m said th) : Progress m' (said ++ more) th := by
  have hdecoder : m'.decoder = m.decoder := by rw [decoder, decoder, h.settings]
  have hopen : (m.streamOf 0 .output).ended ≠ true := Bool.eq_false_iff.mp h.opened
  cases hp with
  | fresh ht => exact .fresh (hdecoder ▸ h.taken ht)
  | begins ht => exact .begins (hdecoder ▸ h.taken ht)
  | waits ht hw =>
    refine .waits (h.taken ht) (.inr ?_)
    rcases hw with ⟨hnone, hwaiter, -, -⟩ | ⟨v, hv⟩
    · exact ⟨_, h.woken hwaiter hnone⟩
    · exact ⟨v, h.outcome hv⟩
  | resumes ht => exact .resumes (h.taken ht)
  | asks _ _ hended => exact absurd hended hopen
  | concludes _ _ hended _ => exact absurd hended hopen
  | ends ht => exact absurd ht.ended hopen
  | finished ht => exact absurd ht.ended hopen

end Feeds

/-- Nothing is heard from the child, or more of it. -/
inductive Overhears (m : Loop) (said : Bytes) (m' : Loop) : Bytes → Prop
  | nothing (h : Unmoved m m') : Overhears m said m' said
  | more {more : Bytes} (h : Feeds m m' more) : Overhears m said m' (said ++ more)

/-- What a stimulus does at once: it leaves the child tame, and perhaps more is heard of it. -/
structure Heeds (s : Stimulus) (m : Loop) (said : Bytes) (m' : Loop) (said' : Bytes) : Prop where
  effect : Effect (heeding s) m m'
  tame : Tame m'.state
  hears : Overhears m said m' said'

/-- What reaches a transport keeps the flow, if nobody cancels the reader and no task is made but to start. -/
theorem Flow.heeds {said' : Bytes} (h : Flow m said) (hf : Fits role m .transport) (hh : Heeds s m said m' said')
    (hstart : ∀ r, s = .ask r → r = .start 0) (hcancel : ∀ u, s = .cancel u → m.routine? u ≠ some (.readOutput 0 0)) :
    Flow m' said' := by
  have hears := hh.hears
  have hext := hh.effect.extends
  have hsound := hh.effect.sound (fun h => h) h.sound
  have hmade : ∀ {u r}, m'.routine? u = some r → m.routine? u = some r ∨ r = .start 0 := fun hu =>
    (hext.routine?_cases hu).imp_right (hstart _)
  have hread : ∀ {u c}, m'.routine? u = some (.readOutput 0 c) → m.routine? u = some (.readOutput 0 c) := fun hu =>
    (hmade hu).resolve_right Routine.noConfusion
  refine ⟨hsound, h.alone.extends hext h.sound hsound, fun hu => ?_, hh.tame, ?_⟩
  · rcases hmade hu with hu | rfl
    · exact h.errands hu
    · exact .start
  · rcases h.stage with hnone | ⟨u, hr⟩
    · refine .inl ?_
      cases hears with
      | nothing hu =>
        refine ⟨List.length_eq_zero_iff.mp (hu.children.trans ?_), hnone.said, hu.tidings.trans hnone.tidings,
          fun hr => hnone.readers (hread hr)⟩
        rw [hnone.children]
        rfl
      | more hfeeds =>
        have hchild := hfeeds.child
        rw [hnone.children] at hchild
        exact absurd hchild (Nat.lt_irrefl 0)
    · refine .inr ⟨u, ?_⟩
      have hnot : ∀ v, s = .cancel v → v ≠ u := fun v hv heq => hcancel v hv (heq ▸ hr.made)
      have hwaits : ∀ {f stack}, m.thread? u = some ⟨.waits f, stack⟩ →
          m'.outcome? f = m.outcome? f ∨ ∃ v, m'.outcome? f = some (.value v) := fun hth =>
        h.alone.outcome?_cases h.sound hext hth (hf.lt_size_of_waits hth) id fun hu => hnot u hu rfl
      rw [hext.thread? hsound.owned (lt_size_of_routine? hr.made)]
      have hbase : ∀ {said'}, m'.state.children.length = m.state.children.length → Progress m' said' (m.thread? u) →
          Reader u m' said' (m.thread? u) := fun hlen hp =>
        ⟨hext.routine? hr.made, fun hv => hr.one (hread hv), hext.not_isHeld (fun hu => hnot u hu rfl) hr.free, hlen.trans hr.few, hp⟩
      cases hears with
      | nothing hu => exact hbase hu.children (hu.progress hr.progress hwaits)
      | more hfeeds => exact hbase hfeeds.children (hfeeds.progress hr.progress)

/-! ## Streams -/

/-- Whoever waits for a stream is woken, and the stream is as it was otherwise. -/
theorem wakeReader_handles (m : Loop) (pipe : Pipe) (hplain : ∀ {f}, (m.streamOf 0 pipe).waiter = some f → m.IsPlain f)
    (hw : ∀ f, may.wake f) (v : Value) :
    Handles may pipe m (m.wakeReader 0 pipe (.value v)) ∧
    ((m.wakeReader 0 pipe (.value v)).streamOf 0 pipe).buffer = (m.streamOf 0 pipe).buffer ∧
    ∀ {f}, (m.streamOf 0 pipe).waiter = some f → m.outcome? f = none →
      (m.wakeReader 0 pipe (.value v)).outcome? f = some (.value v) := by
  unfold Loop.wakeReader
  split
  · next hnone => exact ⟨.refl _ m, rfl, fun hf => by cases hnone.symm.trans hf⟩
  · next g hg =>
    let m₁ := m.modifyStream 0 pipe fun s => { s with waiter := none }
    let m₂ : Loop := m₁.settle g (.value v)
    have hstate : m₂.state = m₁.state := settle_state
    have hstep : Op may m₁ m₂ := .settle _ (hplain hg) (.inr ⟨hw g, rfl⟩)
    refine ⟨.of_stream (.tail (.single (.share _ _)) hstep) hstate (fun _ => rfl) fun _ => rfl, ?_, fun {f} hf hnone => ?_⟩
    · have hstream : m₂.streamOf 0 pipe = m₁.streamOf 0 pipe := by
        unfold streamOf
        rw [hstate]
      change (m₂.streamOf 0 pipe).buffer = _
      rw [hstream, streamOf_modifyStream]
      split
      · rfl
      · rfl
    · cases hg.symm.trans hf
      obtain ⟨future, hget, -⟩ := Option.map_eq_some_iff.mp (hplain hg)
      have hout : future.outcome = none := by rwa [outcome?_of_getElem? hget] at hnone
      exact (outcome?_settle (m := m₁) hget hout g).trans (if_pos rfl)

theorem feedStream_nil (hm : m.feedStream c pipe [] = .ok m') : m' = m := by
  unfold Loop.feedStream at hm
  split at hm
  · cases hm
  · rw [if_pos rfl] at hm
    exact (Except.ok.inj hm).symm

/-- A child writes to a stream that is open. -/
theorem feedStream_handles (may : Licence Routine) (hf : Fits role m .transport) (hc : 0 < m.state.children.length)
    {octets : Bytes} (hne : octets ≠ []) (hw : ∀ f, may.wake f) (hm : m.feedStream 0 pipe octets = .ok m') :
    Handles may pipe m m' ∧ (m.streamOf 0 pipe).ended = false ∧
    (m'.streamOf 0 pipe).buffer = (m.streamOf 0 pipe).buffer ++ octets ∧
    ∀ {f}, (m.streamOf 0 pipe).waiter = some f → m.outcome? f = none → m'.outcome? f = some (.value .nothing) := by
  unfold Loop.feedStream at hm
  split at hm
  · cases hm
  · next hopen =>
    cases hm
    let m₁ := m.modifyStream 0 pipe fun s => { s with buffer := s.buffer ++ octets }
    have hstream : m₁.streamOf 0 pipe = { m.streamOf 0 pipe with buffer := (m.streamOf 0 pipe).buffer ++ octets } := by
      rw [streamOf_modifyStream, if_pos ⟨rfl, hc, rfl⟩]
    have hwaiter : (m₁.streamOf 0 pipe).waiter = (m.streamOf 0 pipe).waiter := by rw [hstream]
    obtain ⟨hh, hbuffer, hwoken⟩ := wakeReader_handles m₁ pipe
      (fun hf' => (hf.tidy.stream_waiter (hwaiter ▸ hf')).1) hw .nothing
    have hadd : Handles may pipe m m₁ := .modifyStream m 0 (fun _ => rfl) fun _ => rfl
    refine ⟨hadd.trans hh, Bool.eq_false_iff.mpr hopen, ?_, fun hf' => ?_⟩
    · rw [hbuffer, hstream]
    · exact hwoken (hwaiter.trans hf')

/-! ## The end of a child -/

/-- The child has a return code and its output has ended, and nobody was woken yet. -/
def exited (m : Loop) (code : Int) : Loop :=
  (m.modify (·.modifyChild 0 fun child => { child with returnCode := some code, exitWaiters := [] })).modifyStream 0 .output
    fun s => { s with ended := true }

theorem child_exited (hc : 0 < m.state.children.length) (code : Int) : (m.exited code).state.child 0 =
    { m.state.child 0 with
        returnCode := some code, exitWaiters := [], output := { (m.state.child 0).output with ended := true } } := by
  let m₁ := m.modify (·.modifyChild 0 fun child => { child with returnCode := some code, exitWaiters := [] })
  have hlength : 0 < m₁.state.children.length := by simpa [m₁, Loop.modify, State.modifyChild] using hc
  rw [show (m.exited code).state.child 0 = _ from State.child_modifyChild m₁.state 0 0 _, if_pos ⟨rfl, hlength⟩,
    show m₁.state.child 0 = _ from State.child_modifyChild m.state 0 0 _, if_pos ⟨rfl, hc⟩]

theorem output_exited (hc : 0 < m.state.children.length) (code : Int) :
    (m.exited code).streamOf 0 .output = { m.streamOf 0 .output with ended := true } := by
  rw [streamOf, child_exited hc]
  rfl

theorem errors_exited (hc : 0 < m.state.children.length) (code : Int) :
    (m.exited code).streamOf 0 .errors = m.streamOf 0 .errors := by
  rw [streamOf, child_exited hc]
  rfl

theorem tame_exited (ht : Tame m.state) (hc : 0 < m.state.children.length) (code : Int) : Tame (m.exited code).state := by
  have hchild := child_exited hc code
  refine ⟨ht.script, ?_, ?_, ?_⟩ <;> rw [hchild]
  · exact ht.plain
  · rfl

/-- The errors of a child end, and whoever waits for that is woken. -/
theorem endErrors_handles (hplain : ∀ {f}, (m.streamOf 0 .errors).waiter = some f → m.IsPlain f) (hw : ∀ f, may.wake f) :
    Handles may .errors m (m.endStream 0 .errors) := by
  let m₁ := m.modifyStream 0 .errors fun s => { s with ended := true }
  have hend : Handles may .errors m m₁ :=
    ⟨.single (.share _ _), .modifyChild _ 0 (fun _ => rfl) (fun _ => rfl) (fun _ => rfl) (fun _ => rfl) fun _ => rfl,
      fun hne => by rw [streamOf_modifyStream, if_neg fun h => hne h.2.2]⟩
  obtain ⟨hwake, -, -⟩ := wakeReader_handles m₁ .errors (fun hf => hplain (by
    rw [streamOf_modifyStream] at hf
    split at hf <;> exact hf)) hw .nothing
  exact hend.trans hwake

/-- A child that has not ended ends, and its output with it. -/
theorem exitChild_feeds (may : Licence Routine) (hf : Fits role m .transport) (ht : Tame m.state) (hc : 0 < m.state.children.length)
    (hlive : (m.state.child 0).returnCode = none) (hw : ∀ f, may.wake f) (code : Int) :
    Effect may m (m.exitChild 0 code) ∧ Tame (m.exitChild 0 code).state ∧ Feeds m (m.exitChild 0 code) [] := by
  let m₁ := m.exited code
  let m₂ := m₁.wakeReader 0 .output (.value .nothing)
  let m₃ := m₂.endStream 0 .errors
  have heq : m.exitChild 0 code = m₃ := by
    unfold Loop.exitChild
    simp only [Child.isAlive, hlive, Option.isNone_none, if_true, ht.exits, List.foldl_nil]
    rfl
  have houtput : m₁.streamOf 0 .output = _ := output_exited hc code
  have h₁ : Effect may m m₁ := .tail (.single (.share _ _)) (.share _ _)
  obtain ⟨h₂, hbuffer, hwoken⟩ := wakeReader_handles m₁ .output (fun {f} hf' => by
    have hold : (m.streamOf 0 .output).waiter = some f := by
      rw [houtput] at hf'
      exact hf'
    exact (hf.tidy.stream_waiter hold).1) hw .nothing
  have hwaked : Effect may m m₂ := h₁.trans h₂.effect
  have h₃ : Handles may .errors m₂ m₃ := endErrors_handles (fun {f} hf' => by
    have hold : (m.streamOf 0 .errors).waiter = some f := by
      rw [← errors_exited hc code, ← h₂.other Pipe.noConfusion]
      exact hf'
    exact hwaked.extends.owner (hf.tidy.stream_waiter hold).1) hw
  have hpass := Passes.exitChild m 0 code
  rw [heq] at hpass ⊢
  have hsteady := h₂.steady.trans h₃.steady
  have hall : Effect may m m₃ := hwaked.trans h₃.effect
  refine ⟨hall, hsteady.tame (tame_exited ht hc code), hpass.driven 0, hpass.stays.tidings, hpass.receiver, hsteady.settings, ?_, hc, ?_, ?_,
    fun hf' hnone => ?_, hall.extends.outcome⟩
  · rw [hsteady.children]
    simp [m₁, exited, Loop.modifyStream, Loop.modify, State.modifyChild]
  · rw [streamOf, ht.ended, hlive]
    rfl
  · rw [h₃.other Pipe.noConfusion, List.append_nil, hbuffer, houtput]
  · exact h₃.effect.extends.outcome (hwoken (by rw [houtput]; exact hf') hnone)

/-! ## Writing -/

/-- Nothing changes, or something is noted that is no tiding. -/
def Jots (m m' : Loop) : Prop := m' = m ∨ ∃ e : Entry, (∀ s : State, (s.record e).tidings = s.tidings) ∧ m' = m.record e

theorem writeLine_jots (m : Loop) (t : TransportId) (line : Except EncodeError Bytes) : Jots m (m.writeLine t line).1 := by
  have hnote : ∀ text, Jots m (m.note .debug text) := fun text => .inr ⟨_, fun s => by simp [State.tidings_record], rfl⟩
  unfold Loop.writeLine
  dsimp only
  split
  · split
    · exact hnote _
    · split
      · exact .inl rfl
      · exact .inr ⟨_, fun s => by simp [State.tidings_record], rfl⟩
  · exact hnote _

/-- A child that answers by no script does nothing about a request. -/
theorem write_jots (hplain : ∀ c, (m.state.child c).script = none) (t : TransportId) (request : Request) :
    Jots m (m.write t request).1 := by
  unfold Loop.write
  split
  · exact .inr ⟨_, fun s => by simp [State.tidings_record], rfl⟩
  · have hline := writeLine_jots m t (encodeMessage m.state.settings.encoding (.request request))
    split <;> rename_i hm <;> rw [hm] at hline
    · exact hline
    · next m₁ c =>
      have hscript : (m₁.state.child c).script = none := by
        rcases hline with rfl | ⟨e, -, rfl⟩
        · exact hplain c
        · exact hplain c
      have hreact : m₁.react c request = m₁ := by
        unfold Loop.react
        rw [hscript]
      rw [hreact]
      exact hline
    · exact hline

theorem Jots.handles (h : Jots m m') : Handles may .errors m m' ∧ Unmoved m m' := by
  rcases h with rfl | ⟨e, htidings, rfl⟩
  · exact ⟨.refl _ m', .of_state rfl⟩
  · have hh : Handles may .errors m (m.record e) := .record m e
    exact ⟨hh, rfl, htidings _, rfl, rfl, rfl, rfl, hh.other Pipe.noConfusion⟩

/-! ## Stimuli -/

/-- No child answers by a script if there is at most one, and that does not. -/
theorem child_script_of_few (hfew : m.state.children.length ≤ 1) (hplain : (m.state.child 0).script = none) (c : ChildId) :
    (m.state.child c).script = none := by
  cases c with
  | zero => exact hplain
  | succ c =>
    have hle : m.state.children.length ≤ c + 1 := Nat.le_trans hfew (Nat.succ_le_succ (Nat.zero_le c))
    rw [State.child, List.getElem?_eq_none hle]
    rfl

/-- Where there is at most one child a stimulus is for that, or for none. -/
theorem withChild_cases_of_few (hfew : m.state.children.length ≤ 1) (c : ChildId) (k : Loop → Loop × Reaction) :
    m.withChild c k = (m, .absent) ∨ c = 0 ∧ 0 < m.state.children.length ∧ m.withChild c k = k m := by
  unfold Loop.withChild
  split
  · next hlt =>
    have hc : c = 0 := Nat.lt_one_iff.mp (Nat.lt_of_lt_of_le hlt hfew)
    exact .inr ⟨hc, hc ▸ hlt, rfl⟩
  · exact .inl rfl

namespace Flow

theorem few (h : Flow m said) : m.state.children.length ≤ 1 := by
  rcases h.stage with hnone | ⟨u, hr⟩
  · rw [hnone.children]
    exact Nat.zero_le 1
  · exact Nat.le_of_eq hr.few

/-- No child answers by a script. -/
theorem child_script (h : Flow m said) (c : ChildId) : (m.state.child c).script = none := child_script_of_few h.few h.tame.plain c

/-- A stimulus for a child is for the only one there is, or for none. -/
theorem withChild_cases (h : Flow m said) (c : ChildId) (k : Loop → Loop × Reaction) :
    m.withChild c k = (m, .absent) ∨ c = 0 ∧ 0 < m.state.children.length ∧ m.withChild c k = k m :=
  withChild_cases_of_few h.few c k

end Flow

/-- To break a stream breaks it. -/
theorem broken_breakStream (hc : 0 < m.state.children.length) (e : SystemError) :
    ((m.breakStream 0 pipe e).streamOf 0 pipe).broken = some e := by
  let m₁ := m.modifyStream 0 pipe fun s => { s with broken := some e }
  have hbroken : (m₁.streamOf 0 pipe).broken = some e := by
    rw [streamOf_modifyStream, if_pos ⟨rfl, hc, rfl⟩]
  unfold Loop.breakStream Loop.wakeReader
  split
  · exact hbroken
  · next g _ =>
    let m₂ := m₁.modifyStream 0 pipe fun s => { s with waiter := none }
    let m₃ : Loop := m₂.settle g (.failed (.system e))
    have hstream : m₃.streamOf 0 pipe = m₂.streamOf 0 pipe := by
      unfold streamOf
      rw [show m₃.state = m₂.state from settle_state]
    change (m₃.streamOf 0 pipe).broken = _
    rw [hstream, streamOf_modifyStream]
    split
    · exact hbroken
    · exact hbroken

/-- The tasks of a transport that nobody stops wait for plain futures. -/
theorem Fits.isPlain_of_errand {stack : List Frame} (hf : Fits role m .transport)
    (herrands : ∀ {r}, m.routine? u = some r → r.IsErrand) (hth : m.thread? u = some ⟨.waits f, stack⟩) : m.IsPlain f := by
  obtain ⟨root, hroot, hfits⟩ := hf.threads hth
  have herrand := herrands hroot
  cases hfits with
  | waits hs ha hstack =>
    cases ha with
    | ending t tasks =>
      cases hs with
      | ending =>
        cases (hstack.root_of_stop herrand.isChore).1
        cases herrand
    | locking h => exact h.1
    | getting l h => exact h.1
    | timing u h => exact h.1
    | cancelWaiting u w h => exact h.1
    | gated t call fails w h => exact h.1
    | exiting h => exact h.1
    | reading t c decoder h => exact h.1
    | draining c h => exact h.1
    | readSource file context diagnostics h => exact h.1
    | gathered members h => exact h.1

/-- To cancel a task interrupts nobody but the tasks of a transport that nobody stops. -/
theorem Fits.cancelTask_effect (hf : Fits role m .transport) (herrands : ∀ {u r}, m.routine? u = some r → r.IsErrand)
    {T : FutureId → Prop} (hs : m.Sound T) (idle : m.running = none) (hu : ∃ r, m.routine? u = some r) :
    Effect (heeding (.cancel u)) m (m.cancelTask u).1 := by
  obtain ⟨r, hr⟩ := hu
  obtain ⟨task, htask, -⟩ := Option.map_eq_some_iff.mp hr
  have hcancels : Cancels (heeding (.cancel u)) m := fun {v f} _ hw => by
    obtain ⟨task', htask', hwaiting⟩ := Option.bind_eq_some_iff.mp hw
    obtain ⟨stack, hth⟩ := hs.waiting htask' hwaiting
    exact .inl (hf.isPlain_of_errand herrands hth)
  exact Machine.cancelTask_effect hs.owned hcancels (fun _ x hx => by cases idle.symm.trans hx) rfl
    (Array.getElem?_eq_some_iff.mp htask).1

/-! ### One by one -/

namespace Heeds

theorem of_handles (h : Flow m said) (hh : Handles (heeding s) .errors m m') (hu : Unmoved m m') : Heeds s m said m' said :=
  ⟨hh.effect, hh.steady.tame h.tame, .nothing hu⟩

theorem refl (h : Flow m said) : Heeds s m said m said := .of_handles h (.refl _ m) (.of_state rfl)

theorem of_jots (h : Flow m said) (hj : Jots m m') : Heeds s m said m' said := by
  obtain ⟨hh, hu⟩ := hj.handles
  exact .of_handles h hh hu

theorem spawn (h : Flow m said) (r : Routine) : Heeds (.ask r) m said (m.spawn r).1 said :=
  ⟨.single (.spawn m rfl), h.tame, .nothing (.of_state rfl)⟩

theorem cancelTask (h : Flow m said) (hf : Fits role m .transport) (idle : m.running = none) (hu : ∃ r, m.routine? u = some r) :
    Heeds (.cancel u) m said (m.cancelTask u).1 said :=
  have hstate := cancelTask_state m u
  ⟨hf.cancelTask_effect h.errands h.sound idle hu, hstate ▸ h.tame, .nothing (.of_state hstate)⟩

/-- What a child writes to its output is heard, if it can write. -/
theorem output (h : Flow m said) (hf : Fits role m .transport) (hc : 0 < m.state.children.length) (octets : Bytes) :
    (∃ m', m.written 0 .output octets = (m', .nothing) ∧ Heeds s m said m' (said ++ octets)) ∨
    ∃ e, m.written 0 .output octets = (m, .failed e) := by
  unfold Loop.written
  cases hm : m.feedStream 0 .output octets with
  | error e => exact .inr ⟨e, rfl⟩
  | ok m' =>
    refine .inl ⟨m', rfl, ?_⟩
    by_cases hne : octets = []
    · subst hne
      cases feedStream_nil hm
      rw [List.append_nil]
      exact .refl h
    · obtain ⟨hh, hopen, hbuffer, hwoken⟩ := feedStream_handles (heeding s) hf hc hne (fun _ => trivial) hm
      have hp := Passes.feedStream hm
      exact ⟨hh.effect, hh.steady.tame h.tame, .more ⟨hp.driven 0, hp.stays.tidings, hp.receiver, hh.steady.settings,
        hh.steady.children, hc, hopen, hbuffer, hwoken, hh.effect.extends.outcome⟩⟩

theorem errors (h : Flow m said) (hf : Fits role m .transport) (hc : 0 < m.state.children.length) (octets : Bytes) :
    Heeds s m said (m.written 0 .errors octets).1 said := by
  unfold Loop.written
  cases hm : m.feedStream 0 .errors octets with
  | error e => exact .refl h
  | ok m' =>
    by_cases hne : octets = []
    · subst hne
      cases feedStream_nil hm
      exact .refl h
    · obtain ⟨hh, -, -, -⟩ := feedStream_handles (heeding s) hf hc hne (fun _ => trivial) hm
      exact .of_handles h hh (hh.unmoved (.feedStream hm))

theorem exit (h : Flow m said) (hf : Fits role m .transport) (hc : 0 < m.state.children.length) (code : Int) :
    Heeds s m said (m.exitChild 0 code) said := by
  cases hcode : (m.state.child 0).returnCode with
  | some code' =>
    have hsame : m.exitChild 0 code = m := by simp [Loop.exitChild, Child.isAlive, hcode]
    rw [hsame]
    exact .refl h
  | none =>
    obtain ⟨he, ht, hfeeds⟩ := exitChild_feeds (heeding s) hf h.tame hc hcode (fun _ => trivial) code
    have hmore : Heeds s m said (m.exitChild 0 code) (said ++ []) := ⟨he, ht, .more hfeeds⟩
    rwa [List.append_nil] at hmore

theorem closeInput (h : Flow m said) (c : ChildId) :
    Heeds s m said (m.modify (·.modifyChild c fun child => { child with inputClosed := true })) said := by
  have hh : Handles (heeding s) .errors m (m.modify (·.modifyChild c fun child => { child with inputClosed := true })) := by
    refine ⟨.single (.share _ _), .modifyChild m.state c (fun _ => rfl) (fun _ => rfl) (fun _ => rfl) (fun _ => rfl) fun _ => rfl,
      fun {pipe} _ => ?_⟩
    have hchild := State.child_modifyChild m.state c 0 fun child => { child with inputClosed := true }
    unfold streamOf Loop.modify
    rw [hchild]
    by_cases heq : 0 = c ∧ c < m.state.children.length
    · rw [if_pos heq, ← heq.1]
    · rw [if_neg heq]
  exact .of_handles h hh (hh.unmoved (.modifyChild m c _))

end Heeds

/-- **Whatever reaches a transport keeps the flow**, if nobody stops it, cancels its reader or breaks the output of the child. -/
theorem Flow.after {a : Watch} (h : Flow a.loop a.said) (hf : Fits role a.loop .transport) (idle : a.loop.running = none)
    (hd : s.Drives a.loop) (hstop : s ≠ .ask (.stop 0)) (hcancel : ∀ u, s = .cancel u → a.loop.routine? u ≠ some (.readOutput 0 0))
    (hbroken : ((a.after s).loop.streamOf 0 .output).broken = none) : Flow (a.after s).loop (a.after s).said := by
  have hheeds : ∀ {m' : Loop} {said' : Bytes}, Heeds s a.loop a.said m' said' → (∀ r, s = .ask r → r = .start 0) → Flow m' said' :=
    fun hh hstart => h.heeds hf hh hstart hcancel
  cases s with
  | ask r =>
    obtain rfl : r = .start 0 := hd.resolve_right fun hr => hstop (hr ▸ rfl)
    exact hheeds (.spawn h _) fun r hr => by cases hr; rfl
  | cancel u => exact hheeds (.cancelTask h hf idle hd) fun _ hr => by cases hr
  | advance time => exact h.settled hf (.setTime h.sound _)
  | write t request =>
    have hjots : Jots a.loop (a.loop.apply (.write t request)).1 := by
      unfold Loop.apply Loop.withTransport
      dsimp only
      split
      · rw [reacted_fst]
        exact write_jots h.child_script t request
      · exact .inl rfl
    exact hheeds (.of_jots h hjots) fun _ hr => by cases hr
  | writeValue t v =>
    have hjots : Jots a.loop (a.loop.apply (.writeValue t v)).1 := by
      have hline := writeLine_jots a.loop t (encodeValue a.loop.state.settings.encoding v)
      unfold Loop.apply Loop.withTransport
      dsimp only
      split
      · split <;> rename_i hm <;> rw [hm] at hline <;> exact hline
      · exact .inl rfl
    exact hheeds (.of_jots h hjots) fun _ hr => by cases hr
  | output c octets =>
    rcases h.withChild_cases c fun m => m.written c .output octets with heq | ⟨rfl, hc, heq⟩
    · simp only [Watch.after, Loop.apply, heq]
      exact h
    · rcases Heeds.output (s := .output 0 octets) h hf hc octets with ⟨m', hw, hh⟩ | ⟨e, hw⟩
      · rw [hw] at heq
        simp only [Watch.after, Loop.apply, heq]
        exact hheeds hh fun _ hr => by cases hr
      · rw [hw] at heq
        simp only [Watch.after, Loop.apply, heq]
        exact h
  | errors c octets =>
    rcases h.withChild_cases c fun m => m.written c .errors octets with heq | ⟨rfl, hc, heq⟩
    · simp only [Watch.after, Loop.apply, heq]
      exact h
    · simp only [Watch.after, Loop.apply, heq]
      exact hheeds (.errors h hf hc octets) fun _ hr => by cases hr
  | exit c code =>
    rcases h.withChild_cases c fun m => (m.exitChild c code, .nothing) with heq | ⟨rfl, hc, heq⟩
    · simp only [Watch.after, Loop.apply, heq]
      exact h
    · simp only [Watch.after, Loop.apply, heq]
      exact hheeds (.exit h hf hc code) fun _ hr => by cases hr
  | closeInput c =>
    rcases h.withChild_cases c fun m =>
      (m.modify (·.modifyChild c fun child => { child with inputClosed := true }), .nothing) with heq | ⟨rfl, hc, heq⟩
    · simp only [Watch.after, Loop.apply, heq]
      exact h
    · simp only [Watch.after, Loop.apply, heq]
      exact hheeds (.closeInput h 0) fun _ hr => by cases hr
  | breakOutput c message =>
    rcases h.withChild_cases c fun m => (m.breakStream c .output ⟨5, message, none⟩, .nothing) with heq | ⟨rfl, hc, heq⟩
    · simp only [Watch.after, Loop.apply, heq]
      exact h
    · simp only [Watch.after, Loop.apply, heq] at hbroken
      rw [broken_breakStream hc] at hbroken
      cases hbroken
  | _ => exact hd.elim

end Loop

end DiagnosticsClient
