import DiagnosticsClient.Proofs.Session.Relays
import DiagnosticsClient.Proofs.Transport.Progress
/-
How transports are handled.

A transport that drives a child is started, by which it runs and has one task read from the
child it launched, unless the start fails (`startChild_cases`). It is stopped, and then has its
tasks ended (`stopChild_cases`, `endTasks_phase`). Whoever reads passes messages on. All else
bypasses transports. So there are few ways in which a task may begin something, or go on
(`begin_undertakes`, `resume_continues`).
-/
namespace DiagnosticsClient

open Async Async.Machine

/-- A transport runs, drives a child and has a task read the child's output. -/
structure State.Employs (s : State) (t : TransportId) (u : TaskId) (c : ChildId) : Prop where
  phase : (s.childTransport t).phase = .running
  reader : (s.childTransport t).reader = some u
  child : s.drives t = some c

theorem State.Employs.of_eq {s s' : State} {t : TransportId} {u : TaskId} {c : ChildId} (h : s.Employs t u c)
    (ht : s'.childTransport t = s.childTransport t) : s'.Employs t u c := by
  refine ⟨ht ▸ h.phase, ht ▸ h.reader, ?_⟩
  rw [State.drives, ht]
  exact h.child

/-- A transport that was built drives a child, if all do. -/
theorem State.driven_ne_none {s : State} {t : TransportId} (hm : s.medium = .children ∧ s.Uniform) (ht : t < s.transports.length) :
    s.driven t ≠ none := by
  have hmedium := (hm.2 _ (List.getElem_mem ht)).trans hm.1
  unfold State.driven
  rw [List.getElem?_eq_getElem ht]
  cases hx : s.transports[t] with
  | child x => exact fun h => by cases h
  | rehearsed x =>
    rw [hx] at hmedium
    cases hmedium

/-- Whatever has its time limited is not made for a transport. -/
theorem Stacked.tends_of_within {roots : TaskId → Option Routine} {root inner : Routine} {limit : Seconds} {stack : List Frame}
    (h : Stacked roots root (.within limit inner) stack) (hr : root.isRoot = true) : inner.tends = false := by
  cases h with
  | nil => cases hr
  | cons hc => cases hc <;> rfl

namespace Loop

variable {m m' m'' : Loop} {t : TransportId} {c : ChildId} {s : Loop × Move}

/-! ## Starting and stopping -/

/-- A transport that is set to be stopped does not run, and is stopped if it was begun. -/
theorem phase_setPhase (m : Loop) (t : TransportId) : ((m.setPhase t .stopped).state.childTransport t).phase ≠ .running ∧
    ((m.state.childTransport t).phase ≠ .idle → ((m.setPhase t .stopped).state.childTransport t).phase = .stopped) := by
  have hbegun : (m.state.childTransport t).phase ≠ .idle → ((m.setPhase t .stopped).state.childTransport t).phase = .stopped :=
    fun h => congrArg ChildTransport.phase (childTransport_modifyTransport (driven_of_begun h) _)
  refine ⟨fun hr => ?_, hbegun⟩
  rcases State.childTransport_modifyChildTransport m.state t t fun x => { x with phase := .stopped } with heq | ⟨-, heq⟩
  · have hold : (m.state.childTransport t).phase = .running := (congrArg ChildTransport.phase heq).symm.trans hr
    cases (hbegun (by rw [hold]; exact Phase.noConfusion)).symm.trans hr
  · cases (congrArg ChildTransport.phase heq).symm.trans hr

/-- A transport that was not begun runs, and has one task read from the child it launched. -/
structure Hires (t : TransportId) (m m' : Loop) : Prop where
  others : ∀ {t'}, t' ≠ t → m'.state.childTransport t' = m.state.childTransport t'
  received : m'.state.received = m.state.received
  launched : m'.state.children.length = m.state.children.length + 1
  employs : ∃ u, m'.state.Employs t u m.state.children.length ∧ m.routine? u = none ∧
    ∀ {v r}, m'.routine? v = some r → r.tends = true →
      m.routine? v = some r ∨ v = u ∧ r = .readOutput t m.state.children.length

theorem Hires.note (h : Hires t m m') (level : Level) (text : Text) : Hires t m (m'.note level text) := by
  have hnote : BypassesAll [] m' (m'.note level text) := .note m' level text
  refine ⟨h.others, hnote.received.trans ((List.append_nil _).trans h.received), h.launched, ?_⟩
  obtain ⟨u, hu, hnew, hmade⟩ := h.employs
  exact ⟨u, hu.of_eq rfl, hnew, hmade⟩

/-- A transport is told of the child it has, and a task is made that reads from it. -/
theorem Hires.of_launch (hl : BypassesAll [] m m') (hm : ∀ {u r}, m.routine? u = some r → m'.routine? u = some r)
    (ht : m'.state.transports = m.state.transports) (hx : m.state.driven t ≠ none)
    (hc : c = m.state.children.length) (hlaunched : m'.state.children.length = m.state.children.length + 1) :
    let m₁ := m'.modifyTransport t fun x => { x with phase := .running, child := some c }
    let m₂ : Loop := (m₁.spawn (.readOutput t c)).1
    let m₃ : Loop := (m₂.spawn (.drainErrors c)).1
    Hires t m (m₃.modifyTransport t fun x => { x with reader := some m₁.tasks.size, drain := some m₂.tasks.size }) := by
  intro m₁ m₂ m₃
  have hdriven : m'.state.driven t ≠ none := by
    rw [State.driven, ht]
    exact hx
  have hfirst : m₁.state.childTransport t = { m'.state.childTransport t with phase := .running, child := some c } :=
    childTransport_modifyTransport hdriven _
  have hself : (m₃.modifyTransport t fun x => { x with reader := some m₁.tasks.size, drain := some m₂.tasks.size }).state.childTransport t =
      { m₁.state.childTransport t with reader := some m₁.tasks.size, drain := some m₂.tasks.size } :=
    childTransport_modifyTransport (m := m₃) (driven_of_begun (by
      rw [show m₃.state.childTransport t = _ from hfirst]
      exact Phase.noConfusion)) _
  have hbypass : Bypasses (· = t) [] m m₁ := hl.of_all.trans (Bypasses.modifyTransport (T := (· = t)) m' rfl _)
  have hlast : Bypasses (· = t) [] m₃ (m₃.modifyTransport t fun x =>
      { x with reader := some m₁.tasks.size, drain := some m₂.tasks.size }) := Bypasses.modifyTransport (T := (· = t)) m₃ rfl _
  refine ⟨fun hne => ?_, ?_, hlaunched, m₁.tasks.size, ⟨?_, ?_, ?_⟩, ?_, fun {v r} hr htends => ?_⟩
  · exact (hlast.transports hne).trans (hbypass.transports hne)
  · exact hbypass.received.trans (List.append_nil _)
  · rw [hself, hfirst]
  · rw [hself]
  · rw [State.drives, hself, hfirst, hc]
  · cases hu : m.routine? m₁.tasks.size with
    | none => rfl
    | some r => exact absurd (lt_size_of_routine? (hm hu)) (Nat.lt_irrefl _)
  · have hr₃ : m₃.routine? v = some r := hr
    rw [routine?_spawn] at hr₃
    split at hr₃
    · cases hr₃
      cases htends
    · rw [routine?_spawn] at hr₃
      split at hr₃
      · next hv =>
        cases hr₃
        exact .inr ⟨hv, hc ▸ rfl⟩
      · exact .inl (hbypass.made hr₃ htends)

/-- **To start a transport** leaves it as it is, or stops it, or has it run. -/
theorem startChild_cases (m : Loop) (hx : m.state.driven t ≠ none) :
    (startChild t m).1 = m ∨ (m.state.childTransport t).phase = .idle ∧
      (Bypasses (· = t) [] m (startChild t m).1 ∧ ((startChild t m).1.state.childTransport t).phase ≠ .running ∨
        Hires t m (startChild t m).1 ∧ (startChild t m).2 = .done (.value .nothing)) := by
  unfold startChild
  dsimp only
  split
  · next hphase =>
    -- a start that fails stops the transport
    have hfails : ∀ {m' : Loop}, BypassesAll [] m m' → Bypasses (· = t) [] m (m'.setPhase t .stopped) ∧
        ((m'.setPhase t .stopped).state.childTransport t).phase ≠ .running := by
      intro m' h
      have hset : Bypasses (· = t) [] m' (m'.setPhase t .stopped) := Bypasses.modifyTransport (T := (· = t)) m' rfl _
      exact ⟨h.of_all.trans hset, (phase_setPhase m' t).1⟩
    refine .inr ⟨hphase, ?_⟩
    split
    · exact .inl (hfails (.refl m))
    · obtain ⟨hages, htransports, hlaunched⟩ := launch_ages m
      have hlaunch := Bypasses.launch (T := fun _ => False) m
      split <;> rename_i hm <;> rw [hm] at hages hlaunched hlaunch htransports
      · exact .inl (hfails hlaunch)
      · exact .inr ⟨(Hires.of_launch hlaunch hages.routine htransports hx hlaunched.1 hlaunched.2).note _ _, rfl⟩
  · exact .inl rfl

/-- A transport that is set otherwise keeps its phase. -/
theorem phase_modifyTransport (m : Loop) (t t' : TransportId) {k : ChildTransport → ChildTransport} (hk : ∀ x, (k x).phase = x.phase) :
    ((m.modifyTransport t k).state.childTransport t').phase = (m.state.childTransport t').phase := by
  rcases State.childTransport_modifyChildTransport m.state t t' k with heq | ⟨rfl, heq⟩
  · exact congrArg ChildTransport.phase heq
  · exact (congrArg ChildTransport.phase heq).trans (hk _)

/-- To end the tasks of a transport leaves its phase. -/
theorem endTasks_phase (m : Loop) (t : TransportId) (us : List TaskId) (t' : TransportId) :
    ((endTasks t us m).1.state.childTransport t').phase = (m.state.childTransport t').phase := by
  induction us with
  | nil =>
    have hfree := phase_modifyTransport m t t' (k := fun x => { x with reader := none, drain := none }) fun _ => rfl
    unfold endTasks
    dsimp only
    split
    · exact hfree
    · next c _ =>
      have hchild := phase_modifyTransport (m.modifyTransport t fun x => { x with reader := none, drain := none }) t t'
        (k := fun x => { x with child := none }) fun _ => rfl
      split
      · have hsignal := Bypasses.signal (T := fun _ => False) (((m.modifyTransport t fun x =>
          { x with reader := none, drain := none }).modifyTransport t fun x => { x with child := none }).modify
            (·.modifyChild c fun child => { child with inputClosed := true })) c .terminate
        exact (congrArg ChildTransport.phase (hsignal.transports id)).trans (hchild.trans hfree)
      · exact hchild.trans hfree
  | cons v rest ih =>
    unfold endTasks
    split
    · exact ih
    · exact congrArg ChildTransport.phase ((Bypasses.cancelTask (T := fun _ => False) m v).transports id)

/-- **To stop a transport** sets it to be stopped, and its tasks are ended if it was begun. -/
theorem stopChild_cases (m : Loop) (t : TransportId) : (stopChild t m).1 = m.setPhase t .stopped ∧
    ((m.state.childTransport t).phase = .idle ∧ (stopChild t m).2 = .done (.value .nothing) ∨
      (m.state.childTransport t).phase ≠ .idle ∧ (stopChild t m).2 =
        .become (.endTasks t ((m.state.childTransport t).reader.toList ++ (m.state.childTransport t).drain.toList))) := by
  unfold stopChild
  dsimp only
  split
  · next hidle => exact ⟨rfl, .inl ⟨hidle, rfl⟩⟩
  · next hbegun => exact ⟨rfl, .inr ⟨hbegun, rfl⟩⟩

/-! ## Whatever a task does -/

/-- How a task handles transports that begins something. -/
inductive Undertakes (m : Loop) : Routine → Loop × Move → Prop
  | starts (t : TransportId) : Undertakes m (.start t) (startChild t m)
  | stops (t : TransportId) : Undertakes m (.stop t) (stopChild t m)
  | winds (t : TransportId) (us : List TaskId) : Undertakes m (.endTasks t us) (endTasks t us m)
  | reads {t : TransportId} {c : ChildId} {s : Loop × Move} (h : ReadsOn t c m.decoder (m.streamOf c .output).chunks m s) :
      Undertakes m (.readOutput t c) s
  | bypasses {r : Routine} {s : Loop × Move} (hr : r.handles = false) (h : BypassesAll [] m s.1) : Undertakes m r s

/-- **What a task begins**, if all transports drive children. -/
theorem begin_undertakes (hr : m.state.receiver = .session) (hm : m.state.medium = .children ∧ m.state.Uniform) (r : Routine)
    (hw : ∀ limit inner, r = .within limit inner → inner.tends = false) : Undertakes m r (begin r m) := by
  have hchild : ∀ (t : TransportId) x, m.state.transports[t]? ≠ some (Transport.rehearsed x) := fun t x hx => by
    cases (hm.2 _ (List.mem_of_getElem? hx)).trans hm.1
  cases hhandles : r.handles with
  | false => exact .bypasses hhandles (begin_bypasses m hw hhandles)
  | true =>
    cases r with
    | start t =>
      have hbegin : begin (.start t) m = startChild t m := by
        simp only [begin, start]
        split
        · next hx => exact absurd hx (hchild t _)
        · rfl
      exact hbegin ▸ .starts t
    | stop t =>
      have hbegin : begin (.stop t) m = stopChild t m := by
        simp only [begin, stop]
        split
        · next hx => exact absurd hx (hchild t _)
        · rfl
      exact hbegin ▸ .stops t
    | endTasks t us => exact .winds t us
    | readOutput t c => exact .reads (readOutput_outcome hr t c)
    | _ => cases hhandles

/-- What the running task begins. -/
theorem Deed.undertakes {role role' : FutureId → Role} {u : TaskId} {r root called : Routine} {stack : List Frame}
    (hd : Deed role role' m u root called stack (begin r m)) (hf : Fits role m) (hstands : r.StandsFor called)
    (hm : m.state.medium = .children ∧ m.state.Uniform) : Undertakes m r (begin r m) :=
  begin_undertakes hf.receiver hm r fun limit inner heq => by
    subst heq
    cases hstands
    exact hd.stacked.tends_of_within (hf.roots hd.made)

/-- How a task handles transports that goes on. -/
inductive Continues (m : Loop) : Frame → Ending → Loop × Move → Prop
  | reads {t : TransportId} {c : ChildId} {d : Decoder} {v : Value} {s : Loop × Move}
      (h : ReadsOn t c d (m.streamOf c .output).chunks m s) : Continues m (.reading t c d) (.value v) s
  | drops {F : Frame} {m' : Loop} (h : BypassesAll [] m m') : Continues m F .cancelled (m', .done .cancelled)
  | breaksOff {t : TransportId} {c : ChildId} {d : Decoder} {e : Failure} {m' : Loop} (h : Relays t [] m m') :
      Continues m (.reading t c d) (.failed e) (m', .done (.value .nothing))
  | concludes {t : TransportId} {c : ChildId} {n : Nat} {o o' : Ending} {m' : Loop} (ho : o ≠ .cancelled) (h : Relays t [] m m') :
      Continues m (.outputEnded t c n) o (m', .done o')
  | bypasses {F : Frame} {o : Ending} {s : Loop × Move} (hF : F.readsFor = none) (h : BypassesAll [] m s.1) : Continues m F o s

/-- **What a task goes on with.** -/
theorem resume_continues (hr : m.state.receiver = .session) (F : Frame) (o : Ending) : Continues m F o (resume F o m) := by
  cases hreads : F.readsFor with
  | none => exact .bypasses hreads (resume_bypasses m o hreads)
  | some t =>
    cases F with
    | reading t c d =>
      cases o with
      | value v => exact .reads (readResumed_outcome hr t c d v)
      | failed e =>
        obtain ⟨hrelays, hmove⟩ := readResumed_failed m t c d e
        have hsplit : resume (.reading t c d) (.failed e) m = ((readResumed t c d (.failed e) m).1, .done (.value .nothing)) :=
          Prod.ext rfl hmove
        exact hsplit ▸ .breaksOff hrelays
      | cancelled => exact .drops (.modifyStream m c .output fun s => { s with waiter := none })
    | outputEnded t c n =>
      by_cases ho : o = .cancelled
      · subst ho
        exact .drops (.refl m)
      · obtain ⟨hrelays, o', hmove⟩ := outputResumed_relays m t c n o
        have hsplit : resume (.outputEnded t c n) o m = ((outputResumed t c n o m).1, .done o') := Prod.ext rfl hmove
        exact hsplit ▸ .concludes ho hrelays
    | _ => cases hreads

end Loop

end DiagnosticsClient
