import DiagnosticsClient.Proofs.Transport.Outflow
/-
What reaches a transport from outside while its child complains.

Whatever reaches it keeps the error output on its way, when nobody cancels the drain or asks for a stop (`Outflow.after`): what
the child writes is added and the drain is woken (`Utters`), and all else leaves the error output alone (`Ignores`). The output of
the child is nobody's concern here: it may be written to, end and break.
-/
namespace DiagnosticsClient

open Async Async.Machine

/-- What a child has written to its error output by a stimulus, if it could. -/
def Stimulus.complaint (s : Stimulus) (reaction : Reaction) : Bytes :=
  match s, reaction with
  | .errors _ octets, .nothing => octets
  | _, _ => []

namespace Loop

variable {charset : Charset} {role : FutureId → Role} {m m' m'' : Loop} {wrote more : Bytes} {u : TaskId} {f : FutureId}
  {pipe : Pipe} {o : Ending} {th : Option (Thread Routine Frame Value Failure)} {may : Licence Routine} {s : Stimulus}

/-! ## What is written -/

/-- To wake whoever waits, and nothing else. -/
def waking : Licence Routine where
  target _ := False
  wake _ := True
  cancel _ := False
  spawn _ := False

/-- What is the same whatever a child writes. -/
structure Retains (m m' : Loop) : Prop where
  settings : m'.state.settings = m.state.settings
  script : m'.state.script = m.state.script
  complaints : m'.state.complaints = m.state.complaints
  children : m'.state.children.length = m.state.children.length
  plain : (m'.state.child 0).script = (m.state.child 0).script

theorem Retains.trans (h : Retains m m') (h' : Retains m' m'') : Retains m m'' :=
  ⟨h'.settings.trans h.settings, h'.script.trans h.script, h'.complaints.trans h.complaints, h'.children.trans h.children,
    h'.plain.trans h.plain⟩

theorem Retains.of_state (h : m'.state = m.state) : Retains m m' := ⟨by rw [h], by rw [h], by rw [h], by rw [h], by rw [h]⟩

theorem Retains.modifyChild (m : Loop) {k : Child → Child} (hk : ∀ x, (k x).script = x.script) :
    Retains m (m.modify (·.modifyChild 0 k)) := by
  refine ⟨rfl, rfl, rfl, by simp [Loop.modify, State.modifyChild], ?_⟩
  rw [show (m.modify (·.modifyChild 0 k)).state.child 0 = _ from State.child_modifyChild m.state 0 0 k]
  split
  · exact hk _
  · rfl

theorem Retains.modifyStream (m : Loop) (pipe : Pipe) (k : Stream → Stream) : Retains m (m.modifyStream 0 pipe k) :=
  .modifyChild m fun _ => by cases pipe <;> rfl

theorem Shuns.retains (h : Shuns m m') : Retains m m' := ⟨h.settings, h.script, h.complaints, h.children, h.plain⟩

/-- The error output was open, and gets more octets or ends with the child; whoever waits for it is woken. -/
structure Utters (m m' : Loop) (more : Bytes) : Prop extends Retains m m' where
  effect : Effect waking m m'
  child : 0 < m.state.children.length
  opened : (m.streamOf 0 .errors).ended = false
  buffer : (m'.streamOf 0 .errors).buffer = (m.streamOf 0 .errors).buffer ++ more
  broken : (m'.streamOf 0 .errors).broken = (m.streamOf 0 .errors).broken
  ended : (m'.streamOf 0 .errors).ended = (m'.state.child 0).returnCode.isSome
  woken : ∀ {f : FutureId}, (m.streamOf 0 .errors).waiter = some f → m.outcome? f = none → ∃ v, m'.outcome? f = some (.value v)

namespace Utters

theorem sifted (h : Utters m m' more) (hs : Sifted charset m wrote) : Sifted charset m' (wrote ++ more) where
  child := h.children ▸ h.child
  sturdy := h.broken.trans hs.sturdy
  ended := h.ended
  lines {more' ended} _ := by
    have hopen : (m.streamOf 0 .errors).ended ≠ true := Bool.eq_false_iff.mp h.opened
    rw [h.complaints, h.buffer, List.append_assoc, List.append_assoc]
    exact hs.lines fun hended => absurd hended hopen
  overlong {more'} _ := by
    have hopen : (m.streamOf 0 .errors).ended ≠ true := Bool.eq_false_iff.mp h.opened
    rw [h.buffer, List.append_assoc, List.append_assoc]
    exact hs.overlong fun hended => absurd hended hopen

/-- A drain at its end stays there: as the error output was open, a line was too long, and it does not get shorter. -/
theorem gone (h : Utters m m' more) (hg : m.Gone o) : m'.Gone o := by
  cases hg with
  | exhausted _ hended => exact absurd hended (Bool.eq_false_iff.mp h.opened)
  | choked hlong =>
    refine .choked (Nat.lt_of_lt_of_le hlong ?_)
    rw [h.buffer]
    exact Stream.length_takeWhile_append _ more

/-- **What a child writes sets its drain going**, if that has not ended. -/
theorem stage (h : Utters m m' more) (hs : Stage m th) : Stage m' th := by
  cases hs with
  | fresh => exact .fresh
  | begins => exact .begins
  | waits hw =>
    refine .waits (.inr ?_)
    rcases hw with ⟨⟨hnone, hwaiter, -⟩, -⟩ | ⟨v, hv⟩
    · exact h.woken hwaiter hnone
    · exact ⟨v, h.effect.extends.outcome hv⟩
  | resumes => exact .resumes
  | ends hg => exact .ends (h.gone hg)
  | finished hg => exact .finished (h.gone hg)

/-- What ignores the error output afterwards changes nothing about what was written. -/
theorem ignores (h : Utters m m' more) (hi : Ignores waking m' m'') : Utters m m'' more where
  toRetains := h.toRetains.trans hi.retains
  effect := h.effect.trans hi.effect
  child := h.child
  opened := h.opened
  buffer := by rw [hi.errors, h.buffer]
  broken := by rw [hi.errors, h.broken]
  ended := by rw [hi.errors, hi.code, h.ended]
  woken hw hnone := (h.woken hw hnone).imp fun _ => hi.effect.extends.outcome

end Utters

/-- **What a child writes is on its way to the notes.** -/
theorem Outflow.utters (h : Outflow charset m wrote) (hp : Utters m m' more) : Outflow charset m' (wrote ++ more) := by
  have he := hp.effect.extends
  have hsound := hp.effect.sound (fun h => h) h.sound
  have hroutine := he.routine?_eq fun _ => id
  refine ⟨hsound, h.alone.extends he h.sound hsound, fun hu => h.errands ((hroutine _).symm.trans hu), hp.script.trans h.script,
    hp.plain.trans h.plain, ?_⟩
  rcases h.stage with hnone | ⟨u, hd⟩
  · have hchild := hp.child
    rw [hnone.children] at hchild
    exact absurd hchild (Nat.lt_irrefl 0)
  · refine .inr ⟨u, ?_⟩
    rw [he.thread? hsound.owned (lt_size_of_routine? hd.made)]
    exact ⟨he.routine? hd.made, fun hv => hd.one ((hroutine _).symm.trans hv), he.not_isHeld id hd.free, hp.children.trans hd.few,
      hd.read.imp fun _ => he.routine?, hp.sifted hd.sifted, hp.stage hd.stage⟩

/-! ## Streams -/

theorem complaints_wakeReader (m : Loop) (pipe : Pipe) (o : Ending) :
    (m.wakeReader 0 pipe o).state.complaints = m.state.complaints := by
  unfold Loop.wakeReader
  split
  · rfl
  · exact (congrArg State.complaints settle_state).trans rfl

/-- Nobody waits for a stream any more, and it is as it was otherwise. -/
theorem streamOf_wakeReader (hc : 0 < m.state.children.length) (pipe : Pipe) (o : Ending) :
    (m.wakeReader 0 pipe o).streamOf 0 pipe = { m.streamOf 0 pipe with waiter := none } := by
  unfold Loop.wakeReader
  split
  · next hnone => rw [← hnone]
  · next g _ =>
    let m₁ := m.modifyStream 0 pipe fun s => { s with waiter := none }
    let m₂ : Loop := m₁.settle g o
    have hstream : m₂.streamOf 0 pipe = m₁.streamOf 0 pipe := by
      unfold streamOf
      rw [show m₂.state = m₁.state from settle_state]
    change m₂.streamOf 0 pipe = _
    rw [hstream, streamOf_modifyStream, if_pos ⟨rfl, hc, rfl⟩]

/-- Once the error output has more octets or has ended, to wake whoever waits for it completes what is written. -/
theorem Utters.wakes {m₁ : Loop} (hf : Fits role m .transport) (he : Effect waking m m₁) (hretains : Retains m m₁)
    (hc : 0 < m.state.children.length) (hopen : (m.streamOf 0 .errors).ended = false)
    (hwaiter : (m₁.streamOf 0 .errors).waiter = (m.streamOf 0 .errors).waiter)
    (hbuffer : (m₁.streamOf 0 .errors).buffer = (m.streamOf 0 .errors).buffer ++ more)
    (hbroken : (m₁.streamOf 0 .errors).broken = (m.streamOf 0 .errors).broken)
    (hended : (m₁.streamOf 0 .errors).ended = (m₁.state.child 0).returnCode.isSome) :
    Utters m (m₁.wakeReader 0 .errors (.value .nothing)) more := by
  have hplain : ∀ {f}, (m₁.streamOf 0 .errors).waiter = some f → m₁.IsPlain f := fun hw =>
    he.extends.owner (hf.tidy.stream_waiter (hwaiter ▸ hw)).1
  have hhandles : Handles waking .errors m₁ (m₁.wakeReader 0 .errors (.value .nothing)) ∧ _ ∧ _ :=
    wakeReader_handles m₁ .errors hplain (fun _ => trivial) .nothing
  obtain ⟨hh, -, hwoken⟩ := hhandles
  have hstream := streamOf_wakeReader (m := m₁) (hretains.children.symm ▸ hc) .errors (.value .nothing)
  have hwakes : Retains m₁ (m₁.wakeReader 0 .errors (.value .nothing)) :=
    ⟨hh.steady.settings, hh.steady.script, complaints_wakeReader m₁ .errors _, hh.steady.children, hh.steady.plain⟩
  refine ⟨hretains.trans hwakes, he.trans hh.effect, hc, hopen, by rw [hstream, hbuffer], by rw [hstream, hbroken],
    by rw [hstream, hh.steady.code]; exact hended, fun {f} hw hnone => ?_⟩
  -- whoever waited may have been woken on the way
  have hlt := (hf.tidy.stream_waiter hw).1.lt_size
  rcases outcome?_cases he.extends id hlt fun _ h => h.elim with hsame | ⟨-, v, hv⟩
  · exact ⟨.nothing, hwoken (hwaiter.trans hw) (hsame.trans hnone)⟩
  · exact ⟨v, hh.effect.extends.outcome hv⟩

/-- What the output of the child is given, and to wake whoever waits for it, ignores the error output. -/
theorem Ignores.stirOutput {k : Stream → Stream} (hk : ∀ s, (k s).waiter = s.waiter)
    (hplain : ∀ {f}, (m.streamOf 0 .output).waiter = some f → m.IsPlain f)
    (hmay : ∀ {f}, (m.streamOf 0 .output).waiter = some f → may.target f ∨ may.wake f ∧ o.isValue = true) :
    Ignores may m ((m.modifyStream 0 .output k).wakeReader 0 .output o) := by
  let m₁ := m.modifyStream 0 .output k
  have hwaiter : (m₁.streamOf 0 .output).waiter = (m.streamOf 0 .output).waiter := by
    rw [streamOf_modifyStream]
    split
    · exact hk _
    · rfl
  have hgiven : Ignores may m m₁ := .modifyOutput m 0 fun s f hw => .inl ((hk s).symm.trans hw)
  refine hgiven.trans ?_
  unfold Loop.wakeReader
  split
  · exact .refl m₁
  · next g hg =>
    have hw := hwaiter.symm.trans hg
    exact .of_output (.tail (.single (.share _ _)) (.settle o (hplain hw) (hmay hw))) settle_state
      fun _ _ heq => by cases heq

/-- A child writes to its output. -/
theorem Ignores.feedOutput (hf : Fits role m .transport) (hmay : ∀ f, may.wake f) {octets : Bytes}
    (hm : m.feedStream 0 .output octets = .ok m') : Ignores may m m' := by
  unfold Loop.feedStream at hm
  split at hm
  · cases hm
  · split at hm
    · exact Except.ok.inj hm ▸ .refl m
    · exact Except.ok.inj hm ▸ .stirOutput (fun _ => rfl) (fun hw => (hf.tidy.stream_waiter hw).1) fun _ => .inr ⟨hmay _, rfl⟩

/-- A child writes to its error output. -/
theorem Utters.feed (hf : Fits role m .transport) (hc : 0 < m.state.children.length)
    (hended : (m.streamOf 0 .errors).ended = (m.state.child 0).returnCode.isSome) {octets : Bytes} (hne : octets ≠ [])
    (hm : m.feedStream 0 .errors octets = .ok m') : Utters m m' octets := by
  unfold Loop.feedStream at hm
  split at hm
  · cases hm
  · next hopen =>
    have hstream := streamOf_errors_modifyStream hc fun s => { s with buffer := s.buffer ++ octets }
    have hgiven : Handles waking .errors m (m.modifyStream 0 .errors fun s => { s with buffer := s.buffer ++ octets }) :=
      .modifyStream m 0 (fun _ => rfl) fun _ => rfl
    cases hm
    exact .wakes hf hgiven.effect (.modifyStream m .errors _) hc (Bool.eq_false_iff.mpr hopen) (by rw [hstream]) (by rw [hstream])
      (by rw [hstream]) (by rw [hstream, hgiven.steady.code]; exact hended)

/-! ## The end of a child -/

/-- Whoever waits for the end of a child is told of it. -/
theorem Ignores.settleAll (m : Loop) {fs : List FutureId} (v : Value) (hplain : ∀ f ∈ fs, m.IsPlain f) :
    Ignores waking m (fs.foldl (fun m f => m.settle f (.value v)) m) := by
  induction fs generalizing m with
  | nil => exact .refl m
  | cons f fs ih =>
    obtain ⟨hf, hfs⟩ := List.forall_mem_cons.mp hplain
    have hone : Ignores waking m (m.settle f (.value v)) :=
      .of_effect (.single (.settle _ hf (.inr ⟨trivial, rfl⟩))) settle_state
    exact hone.trans (ih _ fun g hg => hone.effect.extends.owner (hfs g hg))

/-- A child that has not ended ends, and its error output with it. -/
theorem Utters.exit (hf : Fits role m .transport) (hc : 0 < m.state.children.length)
    (hended : (m.streamOf 0 .errors).ended = (m.state.child 0).returnCode.isSome) (hlive : (m.state.child 0).returnCode = none)
    (code : Int) : Utters m (m.exitChild 0 code) [] := by
  let m₁ := m.modify (·.modifyChild 0 fun child => { child with returnCode := some code, exitWaiters := [] })
  let m₂ := m₁.endStream 0 .output
  let m₃ := m₂.modifyStream 0 .errors fun s => { s with ended := true }
  have heq : m.exitChild 0 code = (m.state.child 0).exitWaiters.foldl (fun m f => m.settle f (.value (.returnCode code)))
      (m₃.wakeReader 0 .errors (.value .nothing)) := by
    unfold Loop.exitChild
    simp only [Child.isAlive, hlive, Option.isNone_none, if_true]
    rfl
  have hchild : m₁.state.child 0 = { m.state.child 0 with returnCode := some code, exitWaiters := [] } := by
    rw [show m₁.state.child 0 = _ from State.child_modifyChild m.state 0 0 _, if_pos ⟨rfl, hc⟩]
  have hstream₁ : ∀ pipe, m₁.streamOf 0 pipe = m.streamOf 0 pipe := fun pipe => by cases pipe <;> rw [streamOf, streamOf, hchild]
  have h₁ : Retains m m₁ := .modifyChild m fun _ => rfl
  have h₂ : Ignores waking m₁ m₂ :=
    .stirOutput (fun _ => rfl) (fun hw => (hf.tidy.stream_waiter (hstream₁ .output ▸ hw)).1) fun _ => .inr ⟨trivial, rfl⟩
  have hc₂ : 0 < m₂.state.children.length := by
    rw [h₂.children, h₁.children]
    exact hc
  have hstream₃ : m₃.streamOf 0 .errors = { m.streamOf 0 .errors with ended := true } := by
    rw [streamOf_errors_modifyStream hc₂, h₂.errors, hstream₁]
  have hcode : (m₃.state.child 0).returnCode = some code := by
    rw [show m₃.state.child 0 = _ from State.child_modifyChild m₂.state 0 0 _, if_pos ⟨rfl, hc₂⟩]
    exact h₂.code.trans (by rw [hchild])
  have hutters : Utters m (m₃.wakeReader 0 .errors (.value .nothing)) [] :=
    .wakes hf ((Relation.ReflTransGen.head (.share m _) h₂.effect).tail (.share m₂ _))
      ((h₁.trans h₂.retains).trans (.modifyStream m₂ .errors _)) hc (by rw [hended, hlive]; rfl) (by rw [hstream₃])
      (by rw [hstream₃, List.append_nil]) (by rw [hstream₃]) (by rw [hstream₃, hcode]; rfl)
  rw [heq]
  exact hutters.ignores (.settleAll _ _ fun f hf' => hutters.effect.extends.owner ((hf.tidy.child_names 0).exits f hf').1)

/-! ## Stimuli -/

/-- To settle what whoever reads the output of the child waits for, and nothing else. -/
def breaking (m : Loop) : Licence Routine where
  target f := (m.streamOf 0 .output).waiter = some f
  wake _ := False
  cancel _ := False
  spawn _ := False

theorem wakeReader_sound {T : FutureId → Prop} (h : m.Sound T) (hplain : ∀ {f}, (m.streamOf 0 pipe).waiter = some f → m.IsPlain f) :
    (m.wakeReader 0 pipe o).Sound T := by
  unfold Loop.wakeReader
  split
  · exact h
  · next g hg =>
    have hfreed : Effect quiet m (m.modifyStream 0 pipe fun s => { s with waiter := none }) := .single (.share _ _)
    exact (hfreed.sound False.elim h).settle (hplain hg)

namespace Outflow

theorem few (h : Outflow charset m wrote) : m.state.children.length ≤ 1 := by
  rcases h.stage with hnone | ⟨u, hd⟩
  · rw [hnone.children]
    exact Nat.zero_le 1
  · exact Nat.le_of_eq hd.few

/-- The error output of a child ends with it. -/
theorem ended (h : Outflow charset m wrote) (hc : 0 < m.state.children.length) :
    (m.streamOf 0 .errors).ended = (m.state.child 0).returnCode.isSome := by
  rcases h.stage with hnone | ⟨u, hd⟩
  · rw [hnone.children] at hc
    exact absurd hc (Nat.lt_irrefl 0)
  · exact hd.sifted.ended

/-- What reaches a transport and ignores the error output keeps it on its way, if nobody cancels the drain and no task is made but
to start. -/
theorem heeded (h : Outflow charset m wrote) (hf : Fits role m .transport) (hi : Ignores (heeding s) m m')
    (hstart : ∀ r, s = .ask r → r = .start 0) (hcancel : ∀ u, s = .cancel u → m.routine? u ≠ some (.drainErrors 0)) :
    Outflow charset m' wrote :=
  have he := hi.effect.extends
  h.shunned hf hi.toShuns he (hi.effect.sound (fun h => h) h.sound) hstart hcancel fun hu hth =>
    h.alone.outcome?_cases h.sound he hth (hf.lt_size_of_waits hth) id fun hcancelled => hcancel _ hcancelled hu

/-- Where the output breaks the error output stays on its way: the drain waits for another future than the reader. -/
theorem breaks (h : Outflow charset m wrote) (hf : Fits role m .transport) (e : SystemError) :
    Outflow charset (m.breakStream 0 .output e) wrote := by
  have hplain : ∀ {f}, (m.streamOf 0 .output).waiter = some f → m.IsPlain f := fun hw => (hf.tidy.stream_waiter hw).1
  have hi : Ignores (breaking m) m (m.breakStream 0 .output e) := .stirOutput (fun _ => rfl) hplain .inl
  have he := hi.effect.extends
  have hbroken : Effect quiet m (m.modifyStream 0 .output fun s => { s with broken := some e }) := .single (.share _ _)
  have hsound : (m.breakStream 0 .output e).Sound fun _ => False := by
    refine wakeReader_sound (hbroken.sound id h.sound) fun hw => hplain ?_
    rw [streamOf_modifyStream] at hw
    split at hw
    · exact hw
    · exact hw
  refine h.shunned hf hi.toShuns he hsound (fun _ => False.elim) (fun _ => False.elim) fun {u f stack} hu hth => ?_
  have hstage := (h.drain hu).stage
  rw [hth] at hstage
  cases hstage with
  | waits hw =>
    rcases hw with ⟨⟨-, -, hne⟩, -⟩ | ⟨v, hv⟩
    · exact h.alone.outcome?_cases h.sound he hth (hf.lt_size_of_waits hth) hne id
    · exact .inr ⟨v, he.outcome hv⟩

/-- What a child writes to its error output is on its way, if it can write. -/
theorem errors (h : Outflow charset m wrote) (hf : Fits role m .transport) (hc : 0 < m.state.children.length) (octets : Bytes) :
    Outflow charset (m.written 0 .errors octets).1
      (wrote ++ (Stimulus.errors 0 octets).complaint (m.written 0 .errors octets).2) := by
  unfold Loop.written
  cases hm : m.feedStream 0 .errors octets with
  | error e =>
    have hnothing : wrote ++ (Stimulus.errors 0 octets).complaint (.failed e) = wrote := List.append_nil wrote
    exact hnothing.symm ▸ h
  | ok m' =>
    change Outflow charset m' (wrote ++ octets)
    by_cases hne : octets = []
    · subst hne
      rw [feedStream_nil hm, List.append_nil]
      exact h
    · exact h.utters (.feed hf hc (h.ended hc) hne hm)

/-- The end of a child keeps its error output on its way. -/
theorem exit (h : Outflow charset m wrote) (hf : Fits role m .transport) (hc : 0 < m.state.children.length) (code : Int) :
    Outflow charset (m.exitChild 0 code) wrote := by
  cases hcode : (m.state.child 0).returnCode with
  | some code' =>
    have hsame : m.exitChild 0 code = m := by simp [Loop.exitChild, Child.isAlive, hcode]
    rw [hsame]
    exact h
  | none =>
    have hutters := h.utters (.exit hf hc (h.ended hc) hcode code)
    rwa [List.append_nil] at hutters

/-- **Whatever reaches a transport keeps the error output on its way**, if nobody stops it or cancels the drain. -/
theorem apply (h : Outflow charset m wrote) (hf : Fits role m .transport) (idle : m.running = none) (hd : s.Drives m)
    (hstop : s ≠ .ask (.stop 0)) (hcancel : ∀ u, s = .cancel u → m.routine? u ≠ some (.drainErrors 0)) :
    Outflow charset (m.apply s).1 (wrote ++ s.complaint (m.apply s).2) := by
  have hsilent : ∀ {m' : Loop} {r : Reaction}, s.complaint r = [] → Outflow charset m' wrote →
      Outflow charset m' (wrote ++ s.complaint r) := fun hnil h' => by rwa [hnil, List.append_nil]
  have hheeded : ∀ {m' : Loop}, Ignores (heeding s) m m' → (∀ r, s = .ask r → r = .start 0) → Outflow charset m' wrote :=
    fun hi hstart => h.heeded hf hi hstart hcancel
  have hchild : ∀ {c : ChildId} {k : Loop → Loop × Reaction},
      (c = 0 → 0 < m.state.children.length → Outflow charset (k m).1 wrote) → Outflow charset (m.withChild c k).1 wrote := by
    intro c k hk
    rcases withChild_cases_of_few h.few c k with heq | ⟨hc, hlt, heq⟩
    · rw [heq]
      exact h
    · rw [heq]
      exact hk hc hlt
  cases s with
  | ask r =>
    obtain rfl : r = .start 0 := hd.resolve_right fun hr => hstop (hr ▸ rfl)
    exact hsilent rfl (hheeded (.of_effect (.single (.spawn m rfl)) rfl) fun r hr => by cases hr; rfl)
  | cancel u =>
    have hcancels := hf.cancelTask_effect h.errands h.sound idle hd
    exact hsilent rfl (hheeded (.of_effect hcancels (cancelTask_state m u)) fun _ hr => by cases hr)
  | advance time => exact hsilent rfl (h.settled hf (.setTime h.sound _))
  | write t request =>
    have hi : Ignores (heeding (.write t request)) m (m.apply (.write t request)).1 := by
      unfold Loop.apply Loop.withTransport
      dsimp only
      split
      · rw [reacted_fst]
        exact write_ignores (child_script_of_few h.few h.plain) t request
      · exact .refl m
    exact hsilent rfl (hheeded hi fun _ hr => by cases hr)
  | writeValue t v =>
    have hi : Ignores (heeding (.writeValue t v)) m (m.apply (.writeValue t v)).1 := by
      have hline : Ignores (heeding (.writeValue t v)) m (m.writeLine t (encodeValue m.state.settings.encoding v)).1 :=
        writeLine_ignores m t _
      unfold Loop.apply Loop.withTransport
      dsimp only
      split
      · split <;> rename_i hm <;> rw [hm] at hline <;> exact hline
      · exact .refl m
    exact hsilent rfl (hheeded hi fun _ hr => by cases hr)
  | output c octets =>
    refine hsilent rfl (hchild fun hc _ => ?_)
    subst hc
    unfold Loop.written
    cases hm : m.feedStream 0 .output octets with
    | error e => exact h
    | ok m' => exact hheeded (.feedOutput hf (fun _ => trivial) hm) fun _ hr => by cases hr
  | errors c octets =>
    rcases withChild_cases_of_few h.few c fun m => m.written c .errors octets with heq | ⟨rfl, hc, heq⟩
    · simp only [Loop.apply, heq]
      exact hsilent rfl h
    · simp only [Loop.apply, heq]
      exact h.errors hf hc octets
  | exit c code =>
    refine hsilent rfl (hchild fun hc hlt => ?_)
    subst hc
    exact h.exit hf hlt code
  | closeInput c =>
    exact hsilent rfl (hchild fun _ _ => hheeded
      (.of_child (.single (.share _ _)) rfl (fun _ => rfl) (fun _ => rfl) (fun _ => rfl) fun _ _ => .inl) fun _ hr => by cases hr)
  | breakOutput c message =>
    refine hsilent rfl (hchild fun hc _ => ?_)
    subst hc
    exact h.breaks hf _
  | _ => exact hd.elim

end Outflow

end Loop

end DiagnosticsClient
