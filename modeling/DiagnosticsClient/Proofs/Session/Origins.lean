import DiagnosticsClient.Proofs.Session.Children
import DiagnosticsClient.Proofs.Session.Desk
import DiagnosticsClient.Proofs.Session.Mediums
import DiagnosticsClient.Proofs.Session.Readers
/-
Where messages come from.

In a run in which transports drive children, and nobody speaks in their place, messages are
passed on by readers only. A child is driven by the transport that launched it and by no other,
and one task reads from it (`Learns`, `IsRun.drove_unique`). The decoder of that task is what
comes of all that was read from the child so far (`Hearkens`). So what listeners are given in a
step are the next messages of the child of the current transport, with which they are
registered (`deliveries_from_current`).
-/
namespace DiagnosticsClient

open Async Async.Machine

/-- The moments of a run over transports that drive children, newest first, in which transports speak for themselves. -/
abbrev IsUnprompted : List Moment → Prop := IsRunOver .children Stimulus.isPrompt

/-- At every moment of such a run transports are staffed. -/
theorem IsUnprompted.staffed {a : Moment} {past : List Moment} (h : IsUnprompted (a :: past)) : a.loop.Staffed := by
  induction past generalizing a with
  | nil =>
    cases h with
    | new hm => exact .of_isNew hm
  | cons b past ih =>
    obtain ⟨hb, role, role', hholds, hholds', hadvances⟩ := h.lastStep
    have htends := hb.isRun.tends
    have htraffic := hadvances.goes.traffic hholds hholds' htends.sparesStops
    cases hadvances with
    | tick hq ht => exact (ih hb).tick hholds.fits hholds'.fits ht htraffic hb.uniform htends.built
    | stimulus hr ha hs => exact (ih hb).apply hholds.fits hr ha hs

/-! ## What a step passes on -/

namespace Loop

variable {role role' : FutureId → Role} {m m' m'' : Loop} {t : TransportId} {c : ChildId} {u : TaskId} {r : Routine} {F : Frame}
  {o : Ending} {d : Decoder} {stack : List Frame} {s : Loop × Move} {ms : List Message}

/-- The transport for which a task reads on now, the child it reads from and the decoder it has. -/
def readBy (m : Loop) : Running Routine Frame Value Failure → Option (TransportId × ChildId × Decoder)
  | .begin _ (.readOutput t c) _ => some (t, c, m.decoder)
  | .resume _ (.value _) (.reading t c d :: _) => some (t, c, d)
  | _ => none

/-- The same of the running task. -/
def reading? (m : Loop) : Option (TransportId × ChildId × Decoder) := m.running.bind m.readBy

/-- The messages that the running task passes on now. -/
def utters (m : Loop) : List Message :=
  match m.reading? with
  | some (_, c, d) => messagesIn (Decoder.told (d.feeds (m.streamOf c .output).chunks))
  | none => []

/-- Messages are received, and one task at most is made that reads: from a child that has just been launched. -/
structure Learns (ms : List Message) (m m' : Loop) : Prop where
  received : m'.state.received = m.state.received ++ ms
  readers : ∃ v, ∀ {u t c}, m'.routine? u = some (.readOutput t c) → m.routine? u = some (.readOutput t c) ∨
    u = v ∧ c = m.state.children.length ∧ c < m'.state.children.length

theorem Bypasses.learns {T : TransportId → Prop} (h : Bypasses T ms m m') : Learns ms m m' :=
  ⟨h.received, 0, fun hr => .inl (h.made hr rfl)⟩

theorem Relays.learns (h : Relays t ms m m') : Learns ms m m' :=
  ⟨h.received, 0, fun hr => .inl ((h.made hr rfl).resolve_right fun h => by cases h.1)⟩

theorem Hires.learns (h : Hires t m m') : Learns [] m m' := by
  obtain ⟨v, -, -, hmade⟩ := h.employs
  refine ⟨h.received.trans (List.append_nil _).symm, v, fun hr => (hmade hr rfl).imp_right fun ⟨hu, heq⟩ => ?_⟩
  cases heq
  exact ⟨hu, rfl, h.launched ▸ Nat.lt_succ_self _⟩

theorem Learns.of_state (h : Learns ms m m') (hs : m''.state = m'.state) (hr : ∀ u, m''.routine? u = m'.routine? u) :
    Learns ms m m'' := by
  refine ⟨hs ▸ h.received, ?_⟩
  obtain ⟨v, hreaders⟩ := h.readers
  exact ⟨v, fun hu => hs ▸ hreaders (hr _ ▸ hu)⟩

theorem utters_of_reading? (h : m.reading? = some (t, c, d)) :
    m.utters = messagesIn (Decoder.told (d.feeds (m.streamOf c .output).chunks)) := by
  unfold utters
  rw [h]

theorem utters_of_nobody (h : m.reading? = none) : m.utters = [] := by
  unfold utters
  rw [h]

theorem reading?_of_idle (h : m.running = none) : m.reading? = none := by
  unfold reading?
  rw [h]
  rfl

theorem reading?_of_running {x : Running Routine Frame Value Failure} (h : m.running = some x) : m.reading? = m.readBy x := by
  unfold reading?
  rw [h]
  rfl

theorem readBy_of_handles (h : r.handles = false) : m.readBy (.begin u r stack) = none := by
  cases r <;> first | rfl | cases h

theorem readBy_of_readsFor (h : F.readsFor = none) : m.readBy (.resume u o (F :: stack)) = none := by
  cases o <;> cases F <;> first | rfl | cases h

/-- What a task begins to read is passed on, and nothing else. -/
theorem Undertakes.learns (h : Undertakes m r s) (hr : m.running = some (.begin u r stack))
    (hx : ∀ t, r = .start t → m.state.driven t ≠ none) : Learns m.utters m s.1 := by
  have hreading := reading?_of_running hr
  cases h with
  | starts t =>
    rw [utters_of_nobody hreading]
    rcases startChild_cases m (hx t rfl) with hsame | ⟨-, ⟨hp, -⟩ | ⟨hh, -⟩⟩
    · exact hsame.symm ▸ Bypasses.learns (.refl (T := fun _ => False) m)
    · exact hp.learns
    · exact hh.learns
  | stops t =>
    rw [utters_of_nobody hreading]
    exact (stopChild_bypasses m t).learns
  | winds t us =>
    rw [utters_of_nobody hreading]
    exact (endTasks_bypasses m t us).learns
  | reads hreads =>
    rw [utters_of_reading? hreading]
    exact hreads.relays.learns
  | bypasses hhandles hp =>
    rw [utters_of_nobody (hreading.trans (readBy_of_handles hhandles))]
    exact hp.learns

/-- What a task reads that goes on is passed on, and nothing else. -/
theorem Continues.learns (h : Continues m F o s) (hr : m.running = some (.resume u o (F :: stack))) : Learns m.utters m s.1 := by
  have hreading := reading?_of_running hr
  cases h with
  | reads hreads =>
    rw [utters_of_reading? hreading]
    exact hreads.relays.learns
  | drops hp =>
    rw [utters_of_nobody hreading]
    exact hp.learns
  | breaksOff hp =>
    rw [utters_of_nobody hreading]
    exact hp.learns
  | @concludes t c n o o' m' ho hp =>
    rw [utters_of_nobody (hreading.trans (by cases o <;> rfl))]
    exact hp.learns
  | bypasses hF hp =>
    rw [utters_of_nobody (hreading.trans (readBy_of_readsFor hF))]
    exact hp.learns

/-- What the loop does passes on what the running task reads, and nothing else. -/
theorem Tick.learns (ht : Tick role m role' m') (hf : Fits role m) (hm : m.state.medium = .children ∧ m.state.Uniform)
    (hbuilt : ∀ {u t k}, m.view Thread.tie u = some (t, k) → t < m.state.transports.length) : Learns m.utters m m' := by
  have hrest : m.utters = [] → m'.state = m.state → (∀ u, m'.routine? u = m.routine? u) → Learns m.utters m m' := fun hutters hs hr =>
    hutters ▸ (Bypasses.learns (.refl (T := fun _ => False) m)).of_state hs hr
  cases ht with
  | awakes idle _ _ hs => exact hrest (utters_of_nobody (reading?_of_idle idle)) hs.state hs.routine
  | passes idle he hs => exact hrest (utters_of_nobody (reading?_of_idle idle)) hs (he.routine?_eq fun _ => id)
  | @ends _ _ o runs hs _ => exact hrest (utters_of_nobody ((reading?_of_running runs).trans (by cases o <;> rfl))) hs.state hs.routine
  | begins runs _ stands _ deed =>
    refine ((deed.undertakes hf stands hm).learns runs fun t heq => ?_).of_state deed.state deed.switch.routine
    exact State.driven_ne_none hm (hbuilt (view_tie (heq ▸ thread?_of_running runs)))
  | resumes runs _ _ _ _ deed => exact ((resume_continues hf.receiver _ _).learns runs).of_state deed.state deed.switch.routine

end Loop

section goes

variable {role role' : FutureId → Role} {a b : Moment} {past : List Moment} {u v : TaskId} {t t' : TransportId} {c : ChildId}

/-- **A step passes on what the running task reads**, and nothing else. -/
theorem Advances.learns (h : Advances Stimulus.isPrompt role a role' b) (ha : a.Holds role) (ht : a.Tends)
    (hm : a.loop.state.medium = .children ∧ a.loop.state.Uniform) : Loop.Learns a.loop.utters a.loop b.loop := by
  cases h with
  | tick hq htick => exact htick.learns ha.fits hm ht.built
  | stimulus hr hadm hs =>
    rw [Loop.utters_of_nobody (Loop.reading?_of_idle hr)]
    exact (Loop.apply_bypasses (T := fun _ => False) a.loop hadm hs).learns

/-! ## Who drives a child, and who reads from it -/

/-- A child was launched for a transport. -/
def Drove (t : TransportId) (c : ChildId) (moments : List Moment) : Prop := ∃ a ∈ moments, a.loop.state.drives t = some c

theorem drove_cons : Drove t c (a :: past) ↔ a.loop.state.drives t = some c ∨ Drove t c past := by
  simp only [Drove, List.mem_cons, or_and_right, exists_or, exists_eq_left]

/-- A child that is driven was driven before by the same transport, or is new. -/
theorem IsRun.drove_cases (h : IsRun (b :: a :: past)) : ∃ t₀, ∀ {t c}, Drove t c (b :: a :: past) →
    Drove t c (a :: past) ∨ t = t₀ ∧ c = a.loop.state.children.length ∧ c < b.loop.state.children.length := by
  obtain ⟨ha, role, role', hholds, -, hgoes⟩ := h.lastStep
  obtain ⟨t₀, hengages⟩ := ha.tends.engages hgoes
  refine ⟨t₀, fun {t c} hdrove => ?_⟩
  rcases drove_cons.mp hdrove with hnow | hold
  · exact (hengages t c hnow).imp (fun hold => drove_cons.mpr (.inl hold)) fun ⟨ht, hc, hlt, _⟩ => ⟨ht, hc, hlt⟩
  · exact .inl hold

theorem IsRun.lt_of_drove (h : IsRun (a :: past)) (hd : Drove t c (a :: past)) : c < a.loop.state.children.length := by
  induction past generalizing a with
  | nil =>
    cases h with
    | new hm =>
      obtain ⟨s, rfl⟩ := hm
      rcases drove_cons.mp hd with hnow | ⟨_, hnone, -⟩
      · cases hnow
      · cases hnone
  | cons b past ih =>
    obtain ⟨t₀, hcases⟩ := h.drove_cases
    obtain ⟨hb, role, role', hholds, -, hgoes⟩ := h.lastStep
    rcases hcases hd with hold | ⟨-, -, hlt⟩
    · exact Nat.lt_of_lt_of_le (ih hb hold) (hgoes.endures hholds).launched
    · exact hlt

/-- **No child is driven by two transports.** -/
theorem IsRun.drove_unique (h : IsRun (a :: past)) (hd : Drove t c (a :: past)) (hd' : Drove t' c (a :: past)) : t = t' := by
  induction past generalizing a with
  | nil =>
    cases h with
    | new hm =>
      obtain ⟨s, rfl⟩ := hm
      rcases drove_cons.mp hd with hnow | ⟨_, hnone, -⟩
      · cases hnow
      · cases hnone
  | cons b past ih =>
    obtain ⟨t₀, hcases⟩ := h.drove_cases
    have hb := h.lastStep.1
    have hnew : ∀ {t}, Drove t c (b :: past) → c ≠ b.loop.state.children.length := fun hold => Nat.ne_of_lt (hb.lt_of_drove hold)
    rcases hcases hd with hold | ⟨ht, hc, -⟩
    · rcases hcases hd' with hold' | ⟨-, hc, -⟩
      · exact ih hb hold hold'
      · exact absurd hc (hnew hold)
    · rcases hcases hd' with hold' | ⟨ht', -, -⟩
      · exact absurd hc (hnew hold')
      · exact ht.trans ht'.symm

/-- Whoever reads from a child is the only one, and the child was launched. -/
theorem IsUnprompted.reader (h : IsUnprompted (a :: past)) (hu : a.loop.routine? u = some (.readOutput t c)) :
    c < a.loop.state.children.length ∧ ∀ {v t'}, a.loop.routine? v = some (.readOutput t' c) → v = u := by
  induction past generalizing a u t with
  | nil =>
    cases h with
    | new hm => cases hm.isEmpty.routine?.symm.trans hu
  | cons b past ih =>
    obtain ⟨hb, role, role', hholds, -, hadvances⟩ := h.lastStep
    obtain ⟨w, hreaders⟩ := (hadvances.learns hholds hb.isRun.tends hb.uniform).readers
    have hlaunched := (hadvances.goes.endures hholds).launched
    rcases hreaders hu with hold | ⟨rfl, hc, hlt⟩
    · obtain ⟨hlt, honly⟩ := ih hb hold
      refine ⟨Nat.lt_of_lt_of_le hlt hlaunched, fun hv => ?_⟩
      rcases hreaders hv with hold' | ⟨-, hc, -⟩
      · exact honly hold'
      · exact absurd hc (Nat.ne_of_lt hlt)
    · refine ⟨hlt, fun hv => ?_⟩
      rcases hreaders hv with hold | ⟨hv, -, -⟩
      · exact absurd hc (Nat.ne_of_lt (ih hb hold).1)
      · exact hv

/-! ## What was read from a child -/

/-- The pieces that are read from a child in the step that follows. -/
def Moment.hears (a : Moment) (c : ChildId) : List Bytes :=
  match a.loop.reading? with
  | some (_, c', _) => if c' = c then (a.loop.streamOf c .output).chunks else []
  | none => []

/-- All pieces that were read from a child, in order. -/
def heard (c : ChildId) : List Moment → List Bytes
  | [] => []
  | a :: past => heard c past ++ a.hears c

/-- The messages among all that was read from a child, as a decoder tells them. -/
def spoken (d : Decoder) (c : ChildId) (moments : List Moment) : List Message := messagesIn (Decoder.told (d.feeds (heard c moments)))

theorem hears_of_reading? {d : Decoder} (h : a.loop.reading? = some (t, c, d)) : a.hears c = (a.loop.streamOf c .output).chunks := by
  unfold Moment.hears
  rw [h]
  exact if_pos rfl

/-- Whoever passes messages on has taken all that was in the pipe of the child. -/
theorem flatten_hears {d : Decoder} (h : a.loop.reading? = some (t, c, d)) (hutters : a.loop.utters ≠ []) :
    (a.hears c).flatten = (a.loop.streamOf c .output).buffer := by
  rw [hears_of_reading? h]
  cases hbroken : (a.loop.streamOf c .output).broken with
  | none => exact Stream.flatten_chunks hbroken
  | some e =>
    refine absurd ?_ hutters
    rw [Loop.utters_of_reading? h, Stream.chunks, hbroken]
    rfl

/-- Whoever reads on now was made to read, and begins that or has been given something to read. -/
theorem Loop.Fits.of_reading? {m : Loop} {d : Decoder} (hf : Fits role m) (h : m.reading? = some (t, c, d)) :
    ∃ x, m.running = some x ∧ m.routine? x.task = some (.readOutput t c) ∧
      (x.thread = ⟨.begins (.readOutput t c), []⟩ ∧ d = m.decoder ∨ ∃ v, x.thread = ⟨.resumes (.value v), [.reading t c d]⟩) := by
  obtain ⟨x, hx, hread⟩ := Option.bind_eq_some_iff.mp h
  obtain ⟨root, hroot, hfits⟩ := hf.threads (thread?_of_running hx)
  unfold readBy at hread
  split at hread
  · next u t' c' stack =>
    cases hread
    cases hfits with
    | begins _ hstands hstacked =>
      cases hstands
      obtain ⟨rfl, rfl⟩ := hstacked.of_readOutput
      exact ⟨_, hx, hroot, .inl ⟨rfl, rfl⟩⟩
  · next u v t' c' d' stack =>
    cases hread
    cases hfits with
    | resumes hserves _ _ hstacked =>
      cases hserves
      obtain ⟨rfl, rfl⟩ := hstacked.of_readOutput
      exact ⟨_, hx, hroot, .inr ⟨v, rfl⟩⟩
  · cases hread

/-- What nobody is made to read is not read. -/
theorem hears_eq_nil (ha : a.Holds role) (h : ∀ x, a.loop.running = some x → ∀ t, a.loop.routine? x.task ≠ some (.readOutput t c)) :
    a.hears c = [] := by
  unfold Moment.hears
  split
  · next t' c' d hread =>
    split
    · next heq =>
      subst heq
      obtain ⟨x, hx, hroot, -⟩ := ha.fits.of_reading? hread
      exact absurd hroot (h x hx t')
    · rfl
  · rfl

/-- Nobody reads from a child while its reader rests. -/
theorem IsUnprompted.hears_eq_nil {th : Thread Routine Frame Value Failure} (h : IsUnprompted (a :: past)) (ha : a.Holds role)
    (hu : a.loop.routine? u = some (.readOutput t c)) (hth : a.loop.thread? u = some th) (hidle : th.top.isIdle = true) :
    a.hears c = [] :=
  DiagnosticsClient.hears_eq_nil ha fun x hx t' hroot => by
    cases (h.reader hu).2 hroot
    cases (thread?_of_running hx).symm.trans hth
    cases x <;> cases hidle

theorem IsRun.heard_eq_nil (h : IsRun (a :: past)) (hnone : ∀ v t, a.loop.routine? v ≠ some (.readOutput t c)) :
    heard c (a :: past) = [] := by
  induction past generalizing a with
  | nil =>
    obtain ⟨role, hholds⟩ := h.holds
    exact hears_eq_nil hholds fun x _ t => hnone x.task t
  | cons b past ih =>
    obtain ⟨hb, role, role', hholds, hholds', hgoes⟩ := h.lastStep
    rw [heard, ih hb fun v t hv => hnone v t ((hgoes.keeps hholds).routine hv), hears_eq_nil hholds' fun x _ t => hnone x.task t]
    rfl

/-! ## What a reader has heard -/

/-- The decoder of a reader is what comes of all that was read from its child so far. -/
inductive Hearkens (t : TransportId) (c : ChildId) (a : Moment) (past : List Moment) : Thread Routine Frame Value Failure → Prop
  | fresh (h : heard c past = []) : Hearkens t c a past ⟨.fresh (.readOutput t c), []⟩
  | begins (h : heard c past = []) : Hearkens t c a past ⟨.begins (.readOutput t c), []⟩
  | reads {top : Top Routine Value Failure} {vs : List Json} (h : Decoder.given (a.loop.decoder.feeds (heard c past)) = .ok vs) :
      Hearkens t c a past ⟨top, [.reading t c (a.loop.decoder.fed (heard c past))]⟩
  | concludes {th : Thread Routine Frame Value Failure} {n : Nat} (h : [.outputEnded t c n] <:+ th.stack) : Hearkens t c a past th
  | ends (o : Ending) : Hearkens t c a past ⟨.resumes o, []⟩

/-- A reading goes on with the decoder that it has come to, or ends. -/
theorem Hearkens.of_readsOn {s : Loop × Move} {vs : List Json} (hd : b.loop.decoder = a.loop.decoder)
    (hg : Decoder.given (a.loop.decoder.feeds (heard c past)) = .ok vs)
    (hs : Loop.ReadsOn t c (a.loop.decoder.fed (heard c past)) (a.hears c) a.loop s) :
    Hearkens t c b (a :: past) (s.1.nextThread [] s.2) := by
  cases hs with
  | @waits m' f vs' hp hg' =>
    have hgiven : Decoder.given (b.loop.decoder.feeds (heard c (a :: past))) = .ok (vs ++ vs') := by
      rw [hd, heard, Decoder.feeds_append]
      exact Decoder.given_append hg hg'
    have hreads : ∀ top, Hearkens t c b (a :: past) ⟨top, [.reading t c ((a.loop.decoder.fed (heard c past)).fed (a.hears c))]⟩ :=
      fun top => by
        rw [← Decoder.fed_append, ← hd]
        exact .reads hgiven
    unfold Machine.nextThread
    dsimp only
    split <;> exact hreads _
  | asks hp => exact .concludes (List.suffix_refl _)
  | concludes hp => exact .ends _

/-- **Whoever hearkens goes on doing so.** -/
theorem Hearkens.step {th : Thread Routine Frame Value Failure} (h : Hearkens t c a past th) (hun : IsUnprompted (a :: past))
    (ha : a.Holds role) (hg : Goes role a role' b) (hth : a.loop.thread? u = some th) (hu : a.loop.routine? u = some (.readOutput t c))
    (ht : Loop.Turn role a.loop u th role' b.loop) :
    (∃ th', b.loop.thread? u = some th' ∧ Hearkens t c b (a :: past) th') ∨ ∃ o, b.loop.taskOutcome? u = some o := by
  have hd : b.loop.decoder = a.loop.decoder := by
    unfold Loop.decoder
    rw [show b.loop.state.settings = a.loop.state.settings from congrArg Setup.settings (hg.endures ha).setup]
  have hrest : th.top.isIdle = true → heard c (a :: past) = heard c past := fun hidle => by
    rw [heard, hun.hears_eq_nil ha hu hth hidle, List.append_nil]
  cases h with
  | fresh hnone =>
    have hnone' := (hrest rfl).trans hnone
    cases ht with
    | rests _ _ hth' => exact .inl ⟨_, hth', .fresh hnone'⟩
    | awakes how switch =>
      cases how with
      | begins => exact .inl ⟨_, switch.self, .begins hnone'⟩
      | dropped => exact .inl ⟨_, switch.self, .ends _⟩
  | begins hnone =>
    obtain ⟨hrun, -, called, root, -, -, deed, hb⟩ := ht.of_begins
    have hreads := Loop.readOutput_outcome ha.fits.receiver t c
    have hhears := hears_of_reading? (show a.loop.reading? = some (t, c, a.loop.decoder) from Loop.reading?_of_running hrun)
    rw [← hhears] at hreads
    have hgiven : Decoder.given (a.loop.decoder.feeds (heard c past)) = .ok [] := by
      rw [hnone]
      rfl
    refine .inl ⟨_, hb ▸ deed.switch.self, .of_readsOn hd hgiven ?_⟩
    rw [hnone]
    exact hreads
  | @reads top vs hgiven =>
    have hstill : top.isIdle = true → ∀ top', Hearkens t c b (a :: past) ⟨top', [.reading t c (a.loop.decoder.fed (heard c past))]⟩ :=
      fun hidle top' => by
        rw [← hrest hidle, ← hd]
        exact .reads (hd ▸ (hrest hidle).symm ▸ hgiven)
    obtain ⟨root, hroot, hfits⟩ := ha.fits.threads hth
    cases hroot.symm.trans hu
    cases hfits.reading with
    | waits f d =>
      cases ht with
      | rests _ _ hth' => exact .inl ⟨_, hth', hstill rfl _⟩
      | awakes how switch => cases how <;> exact .inl ⟨_, switch.self, hstill rfl _⟩
    | resumes o d =>
      obtain ⟨-, hrun, called, root, -, -, deed, hb⟩ := ht.of_resumes
      refine .inl ⟨_, hb ▸ deed.switch.self, ?_⟩
      cases o with
      | value v =>
        have hreads := Loop.readResumed_outcome ha.fits.receiver t c (a.loop.decoder.fed (heard c past)) v
        have hhears := hears_of_reading? (show a.loop.reading? = some (t, c, _) from Loop.reading?_of_running hrun)
        exact .of_readsOn hd hgiven (hhears ▸ hreads)
      | failed e =>
        have hmove := (Loop.readResumed_failed a.loop t c (a.loop.decoder.fed (heard c past)) e).2
        rw [show (Loop.resume (.reading t c (a.loop.decoder.fed (heard c past))) (.failed e) a.loop).2 = _ from hmove]
        exact .ends _
      | cancelled => exact .ends _
  | @concludes th n hsuffix =>
    rcases ht.beneath hsuffix with ⟨o, rfl⟩ | ⟨th', hth', hsuffix'⟩
    · obtain ⟨-, o', hmove⟩ := Loop.outputResumed_relays a.loop t c n o
      have hsplit : Loop.resume (.outputEnded t c n) o a.loop = ((Loop.outputResumed t c n o a.loop).1, .done o') := Prod.ext rfl hmove
      exact .inl ⟨_, (ht.resumed hsplit).2, .ends o'⟩
    · exact .inl ⟨th', hth', .concludes hsuffix'⟩
  | ends o => exact .inr ⟨_, ht.of_ends⟩

/-- **At every moment of a run whoever is to read hearkens**, or has ended. -/
theorem IsUnprompted.hearkens (h : IsUnprompted (a :: past)) (hu : a.loop.routine? u = some (.readOutput t c)) :
    (∃ th, a.loop.thread? u = some th ∧ Hearkens t c a past th) ∨ ∃ o, a.loop.taskOutcome? u = some o := by
  induction past generalizing a with
  | nil =>
    cases h with
    | new hm => cases hm.isEmpty.routine?.symm.trans hu
  | cons b past ih =>
    obtain ⟨hb, role, role', hholds, hholds', hadvances⟩ := h.lastStep
    have hgoes := hadvances.goes
    cases hbefore : b.loop.routine? u with
    | none =>
      -- whoever is new is the first who reads from the child
      refine .inl ⟨_, hgoes.fresh hholds hholds' hbefore hu, .fresh (hb.isRun.heard_eq_nil fun v t' hv => ?_)⟩
      cases (h.reader hu).2 ((hgoes.keeps hholds).routine hv)
      cases hbefore.symm.trans hv
    | some r =>
      cases ((hgoes.keeps hholds).routine hbefore).symm.trans hu
      rcases ih hb hbefore with ⟨th, hth, hhearkens⟩ | ⟨o, ho⟩
      · exact hhearkens.step hb hholds hgoes hth hbefore (hgoes.turn hholds hholds' hth)
      · exact .inr ⟨o, hgoes.ended hholds hholds' ho⟩

/-! ## What listeners are given -/

/-- **Whoever reads on reads the child of the current transport**, and what it passes on are the next messages of the child. -/
theorem IsUnprompted.utters {d : Decoder} (h : IsUnprompted (a :: past)) (hread : a.loop.reading? = some (t, c, d)) :
    a.loop.state.current = some t ∧ a.loop.state.drives t = some c ∧
      spoken a.loop.decoder c (a :: past) = spoken a.loop.decoder c past ++ a.loop.utters := by
  obtain ⟨role, hholds⟩ := h.isRun.holds
  obtain ⟨x, hx, hroot, hthread⟩ := hholds.fits.of_reading? hread
  have hth := thread?_of_running hx
  have hemp : a.loop.state.Employs t x.task c := by
    refine h.staffed.employs hx rfl hroot (fun hdoom => ?_) ?_
    · rcases hthread with ⟨heq, -⟩ | ⟨v, heq⟩ <;> rw [heq] at hdoom
      · exact hdoom
      · exact hdoom.elim (fun h => by cases h) fun h => by cases h
    · refine Loop.not_isDue (fun v t' us stack hend => ?_) t x.task
      cases hx.symm.trans hend
      rcases hthread with ⟨heq, -⟩ | ⟨v, heq⟩ <;> cases heq
  refine ⟨h.staffed.current hholds.fits hx rfl hroot hemp, hemp.child, ?_⟩
  -- the decoder is what comes of all that was read before
  obtain ⟨vs, hgiven, rfl⟩ : ∃ vs, Decoder.given (a.loop.decoder.feeds (heard c past)) = .ok vs ∧
      d = a.loop.decoder.fed (heard c past) := by
    rcases h.hearkens hroot with ⟨th, hth', hhearkens⟩ | ⟨o, ho⟩
    · cases hth.symm.trans hth'
      rcases hthread with ⟨heq, rfl⟩ | ⟨v, heq⟩ <;> rw [heq] at hhearkens
      · cases hhearkens with
        | begins hnone => exact ⟨[], by rw [hnone]; rfl, by rw [hnone]; rfl⟩
        | concludes hsuffix => cases List.suffix_nil.mp hsuffix
      · cases hhearkens with
        | reads hgiven => exact ⟨_, hgiven, rfl⟩
        | concludes hsuffix => cases hsuffix.eq_of_length rfl
    · exact absurd rfl (hholds.task_ne_of_ended ho x hx)
  rw [Loop.utters_of_reading? hread, spoken, spoken, heard, hears_of_reading? hread, Decoder.feeds_append, Decoder.told_append hgiven,
    messagesIn_append]

/-- **Listeners hear the process of their transport only.** In a run in which transports speak for themselves, what is put
into the queue of a listener in a step are some messages, and then perhaps an end. If there are messages, the listener is
registered, with the current transport and never with another; this transport drives a child that no other has ever driven.
All that is in the pipe of this child is read, and the messages are those that this adds to what a decoder tells of all that
was read from it. -/
theorem deliveries_from_current (h : IsUnprompted (b :: a :: past)) (l : ListenerId) :
    ∃ (ms : List Message) (ends : List (Option ServerError)),
      b.loop.state.delivered l = a.loop.state.delivered l ++ (ms.map .message ++ ends.map .ended) ∧
      (ms ≠ [] → ∃ t c, l ∈ a.loop.state.registered ∧ a.loop.state.current = some t ∧ a.loop.state.drives t = some c ∧
        (a.hears c).flatten = (a.loop.streamOf c .output).buffer ∧
        spoken a.loop.decoder c (a :: past) = spoken a.loop.decoder c past ++ ms ∧
        (∀ t', RegisteredOn l t' (a :: past) → t' = t) ∧ ∀ t', Drove t' c (a :: past) → t' = t) := by
  obtain ⟨hbefore, role, role', hholds, -, hadvances⟩ := h.lastStep
  have hpours := hadvances.goes.pours hholds
  have hnews : Loop.news a.loop b.loop = a.loop.utters := by
    rw [Loop.news, (hadvances.learns hholds hbefore.isRun.tends hbefore.uniform).received, List.drop_left]
  by_cases hl : l ∈ a.loop.state.registered
  · refine ⟨a.loop.utters, (Loop.farewell a.loop b.loop).toList, ?_, fun hutters => ?_⟩
    · rw [hpours.delivered, Loop.gift, if_pos hl, hnews]
    · cases hread : a.loop.reading? with
      | none => exact absurd (Loop.utters_of_nobody hread) hutters
      | some x =>
        obtain ⟨t, c, d⟩ := x
        obtain ⟨hcurrent, hdrives, hspoken⟩ := IsUnprompted.utters hbefore hread
        have hrun := hbefore.isRun
        exact ⟨t, c, hl, hcurrent, hdrives, flatten_hears hread hutters, hspoken,
          fun t' hreg => (hrun.registeredOn_unique (registeredOn_cons.mpr (.inl ⟨hl, hcurrent⟩)) hreg).symm,
          fun t' hdrove => (hrun.drove_unique (drove_cons.mpr (.inl hdrives)) hdrove).symm⟩
  · exact ⟨[], [], by rw [hpours.delivered, Loop.gift, if_neg hl]; rfl, fun hne => absurd rfl hne⟩

end goes

/-- The session whose first child ignores the request to end, and whose output broke, when its second child has written. -/
def overheardSession : Moment × List Moment :=
  Moment.pursue 1 (.output 1 (asciiBytes ("Content-Length: 40\n\n" ++
    "\x7b\"type\":\"event\",\"seq\":0,\"event\":\"ready\"\x7d"))) brokenSession

theorem isUnprompted_overheardSession : IsUnprompted (overheardSession.1 :: overheardSession.2) := by
  have hnew : IsUnprompted [({ loop := { state := { launches := [.child .ignores] } } } : Moment)] :=
    .new ⟨{ launches := [.child .ignores] }, rfl⟩ rfl
  have hlisten := @IsRunOver.pursue _ _ .listen (_, []) hnew rfl trivial rfl 0
  have hopen : IsUnprompted ((childSession [.child .ignores]).1 :: (childSession [.child .ignores]).2) :=
    hlisten.pursue (s := .ask (.openListener 0)) rfl ⟨rfl, fun l hl => by cases hl; exact List.mem_singleton.mpr rfl⟩ rfl 60
  have hsecond := hopen.pursue (s := .listen) (by decide +kernel) trivial rfl 0
  have hbreak := hsecond.pursue (s := .breakOutput 0 (lit "boom")) (by decide +kernel) trivial rfl 60
  have hheld : (1 : ListenerId) ∈ (Moment.pursue 60 (.breakOutput 0 (lit "boom"))
      (Moment.pursue 0 .listen (childSession [.child .ignores]))).1.held := by decide +kernel
  have hreopen : IsUnprompted (brokenSession.1 :: brokenSession.2) := hbreak.pursue (s := .ask (.openListener 1)) (by decide +kernel)
    ⟨rfl, fun l hl => by cases hl; exact hheld⟩ rfl 60
  exact hreopen.pursue (s := .output 1 _) (by decide +kernel) trivial rfl 1

/-- While the first child still lives the second listener is given what the second child wrote. -/
theorem deliveries_from_current_when_broken : ∃ a past b t m, IsUnprompted (b :: a :: past) ∧ ¬ a.loop.state.IsDead 0 ∧
    a.loop.state.delivered 1 = [] ∧ (b.loop.state.delivered 1).filterMap Delivery.message? = [m] ∧
    a.loop.state.current = some t ∧ a.loop.state.drives t = some 1 ∧
    spoken a.loop.decoder 1 (a :: past) = spoken a.loop.decoder 1 past ++ [m] := by
  have hrun := IsRunOver.tick isUnprompted_overheardSession (by decide +kernel)
  have hnone : overheardSession.1.loop.state.delivered 1 = [] := by decide +kernel
  have hone : (((overheardSession.1.loop.tick Loop.program).state.delivered 1).filterMap Delivery.message?).length = 1 := by
    decide +kernel
  obtain ⟨ms, ends, hdelivered, hfrom⟩ := deliveries_from_current hrun 1
  have hms : ((overheardSession.1.loop.tick Loop.program).state.delivered 1).filterMap Delivery.message? = ms := by
    rw [hdelivered, hnone]
    simp [List.filterMap_map, Function.comp_def, Delivery.message?]
  obtain ⟨m, rfl⟩ := List.length_eq_one_iff.mp (hms ▸ hone)
  obtain ⟨t, c, -, hcurrent, hdrives, -, hspoken, -⟩ := hfrom (List.cons_ne_nil _ _)
  have hsecond : overheardSession.1.loop.state.current = some 1 ∧ overheardSession.1.loop.state.drives 1 = some 1 := by decide +kernel
  cases hcurrent.symm.trans hsecond.1
  cases hdrives.symm.trans hsecond.2
  exact ⟨_, _, _, 1, m, hrun, (by decide +kernel : ¬ (overheardSession.1.loop.state.child 0).isAlive = false), hnone, hms, hcurrent,
    hdrives, hspoken⟩

end DiagnosticsClient
