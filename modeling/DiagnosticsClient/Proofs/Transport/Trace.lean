import DiagnosticsClient.Proofs.Transport.Orderly
/-
What a transport passes on.

A transport stays orderly in every run, whatever its tasks do and whatever reaches it
(`Watch.Step.onward`). So what it passes on is values and then at most one end; from
the beginning of a stop on it passes nothing on and writes nothing, and it writes
nothing once it has passed on its end (`transport_trace`).
-/
namespace DiagnosticsClient

open Async Async.Machine

namespace Loop

variable {role role' : FutureId → Role} {m m' m'' : Loop} {x : ChildTransport} {t u : TaskId} {r : Routine}
  {th th' : Thread Routine Frame Value Failure} {s : Stimulus} {c : ChildId}

/-! ## Between turns -/

/-- A thread that is set going ends the tasks of a transport only if it was at it before. -/
theorem Fits.isEnding_of_awakes (hf : Fits role m .transport) (hch : ∀ {u r}, m.routine? u = some r → r.IsChore)
    (hth : m.thread? t = some th) (how : m.Awakes t th th') (h : Thread.isEnding th' = true) : Thread.isEnding th = true := by
  cases how with
  | begins =>
    obtain ⟨root, hroot, hfits⟩ := hf.threads hth
    cases hfits
    cases hch hroot <;> cases h
  | dropped => cases h
  | @resumes f o stack => cases stack with
    | nil => cases h
    | cons F rest => cases F <;> exact h
  | @interrupted f stack => cases stack with
    | nil => cases h
    | cons F rest => cases F <;> exact h

theorem not_isNext_of_idle (idle : m.running = none) (u : TaskId) : ¬ m.IsNext u := by
  rintro ⟨v, us, stack, hnext⟩
  cases idle.symm.trans hnext

namespace Orderly

/-- A task that is set going leaves a transport orderly. -/
theorem awakes (ho : Orderly x m) (hf : Fits role m .transport) (idle : m.running = none) (hth : m.thread? t = some th)
    (how : m.Awakes t th th') (hs : m.Switch t (some th') m') : Orderly x m' where
  toPosture := ho.toPosture.of_same hs.state hs.routine
  ending {u thu} hthu hend := by
    by_cases hu : u = t
    · subst hu
      cases hs.self.symm.trans hthu
      exact ho.ending hth (hf.isEnding_of_awakes ho.chores hth how hend)
    · exact ho.ending ((hs.other hu).symm.trans hthu) hend
  stopped hx u c hu := by
    rw [hs.routine] at hu
    have hdoom := (ho.stopped hx hu).resolve_right (not_isNext_of_idle idle u)
    refine .inl ?_
    by_cases hut : u = t
    · subst hut
      intro thu hthu
      cases hs.self.symm.trans hthu
      exact (hdoom th hth).awakes how
    · exact hdoom.switch hs hut fun hthu => hf.isPlain_of_reading hu hthu

/-- The end of a task leaves a transport orderly. -/
theorem ends (ho : Orderly x m) (hf : Fits role m .transport) {o : Ending} {stack : List Frame}
    (runs : m.running = some (.resume t o stack)) (hs : m.Switch t none m') : Orderly x m' where
  toPosture := ho.toPosture.of_same hs.state hs.routine
  ending {u thu} hthu hend := by
    by_cases hu : u = t
    · subst hu
      cases hs.self.symm.trans hthu
    · exact ho.ending ((hs.other hu).symm.trans hthu) hend
  stopped hx u c hu := by
    rw [hs.routine] at hu
    have hdoom := (ho.stopped hx hu).resolve_right (not_isNext_of_resume runs u)
    refine .inl ?_
    by_cases hut : u = t
    · subst hut
      intro thu hthu
      cases hs.self.symm.trans hthu
    · exact hdoom.switch hs hut fun hthu => hf.isPlain_of_reading hu hthu

/-- What happens while no task runs leaves a transport orderly, if it keeps the posture of the transport and lets nobody off
who is cancelled. -/
theorem extends_ {may : Licence Routine} {T : FutureId → Prop} (ho : Orderly x m) (hf : Fits role m .transport)
    (idle : m.running = none) (he : m.Extends may m') (hs : m'.Sound T) (hp : Posture x m')
    (hheld : ∀ {u}, m.IsHeld u → m'.IsHeld u)
    (hread : ∀ {u c}, m'.routine? u = some (.readOutput 0 c) → m.routine? u = some (.readOutput 0 c)) : Orderly x m' where
  toPosture := hp
  ending {u th} hth hend := by
    rcases he.thread?_cases hf.tidy.sound hs hth with hold | ⟨r, -, -, -, rfl⟩
    · exact ho.ending hold hend
    · cases hend
  stopped hx u c hu := by
    have hold := hread hu
    obtain ⟨task, htask, -⟩ := Option.map_eq_some_iff.mp hold
    have hdoom := (ho.stopped hx hold).resolve_right (not_isNext_of_idle idle u)
    exact .inl (hdoom.extends he hs hheld (Array.getElem?_eq_some_iff.mp htask).1)

/-- A step between turns that moves no task leaves a transport orderly. -/
theorem settled (ho : Orderly x m) (hf : Fits role m .transport) (idle : m.running = none) (hs : Settled (bare role) m m') :
    Orderly x m' := by
  have hroutine := hs.extends_.routine?_eq fun _ => id
  refine ho.extends_ hf idle hs.extends_ hs.sound (ho.toPosture.of_same hs.state hroutine) (fun {u} hheld => ?_)
    fun hu => hroutine _ ▸ hu
  obtain ⟨task, htask, hcancel⟩ := hheld
  obtain ⟨held, htask', hor⟩ := hs.extends_.task htask
  rcases hor with rfl | ⟨hc, -⟩
  · exact ⟨_, htask', hcancel⟩
  · exact hc.elim

end Orderly

/-! ## From outside -/

theorem Passes.put (m : Loop) (c : ChildId) (octets : Bytes) : Passes [] m (m.put c octets) := by
  unfold Loop.put
  split
  · next hfed => exact .feedStream hfed
  · exact .refl m

/-- What a child does about a request leaves transports alone. -/
theorem Passes.react (m : Loop) (c : ChildId) (request : Request) : Passes [] m (m.react c request) := by
  unfold Loop.react
  split
  · split
    · unfold Loop.reply
      dsimp only
      split
      · split
        · exact .modifyChild m c _
        · exact (modifyChild m c _).trans (.put _ c _)
      · exact .put m c _
      · exact .exitChild m c _
      · exact .refl m
    · exact .refl m
  · exact .refl m

theorem Passes.written (m : Loop) (c : ChildId) (pipe : Pipe) (octets : Bytes) : Passes [] m (m.written c pipe octets).1 := by
  unfold Loop.written
  split
  · next hfed => exact .feedStream hfed
  · exact .refl m

/-- Nothing is written, or a transport that runs writes a line. -/
inductive Writes (x : ChildTransport) (m m' : Loop) : Prop
  | none (h : Passes [] m m')
  | line (hx : x.phase = .running) (c : ChildId) (octets : Bytes) (h : Passes [] (m.record (.wrote c octets)) m')

theorem Writes.trans (h : Writes x m m') (h' : Passes [] m' m'') : Writes x m m'' := by
  cases h with
  | none h => exact .none (h.trans h')
  | line hx c octets h => exact .line hx c octets (h.trans h')

namespace Posture

/-- Only a transport that runs writes. -/
theorem writeLine (h : Posture x m) (line : Except EncodeError Bytes) : Writes x m (m.writeLine 0 line).1 := by
  unfold Loop.writeLine
  dsimp only
  rw [h.childTransport]
  split
  · next hx _ =>
    split
    · exact .none (.note m _ Level.noConfusion)
    · split
      · exact .none (.refl m)
      · next octets => exact .line hx _ octets (.refl _)
  · exact .none (.note m _ Level.noConfusion)

theorem write (h : Posture x m) (request : Request) : Writes x m (m.write 0 request).1 := by
  have hd := h.driven
  unfold Loop.write
  split
  · next hr => simp [State.driven, hr] at hd
  · have hline := h.writeLine (encodeMessage m.state.settings.encoding (.request request))
    split <;> rename_i hm <;> rw [hm] at hline
    · exact hline
    · exact hline.trans (.react _ _ request)
    · exact hline

/-- What reaches a transport leaves it alone, but for what is written to it. -/
theorem apply (h : Posture x m) (hd : s.Drives m) : Writes x m (m.apply s).1 := by
  have hto : ∀ {k : Loop → Loop × Reaction}, Writes x m (k m).1 → Writes x m (m.withTransport 0 k).1 := by
    intro k hk
    unfold Loop.withTransport
    split
    · exact hk
    · exact .none (.refl m)
  have hchild : ∀ {c : ChildId} {k : Loop → Loop × Reaction}, Passes [] m (k m).1 → Writes x m (m.withChild c k).1 := by
    intro c k hk
    unfold Loop.withChild
    split
    · exact .none hk
    · exact .none (.refl m)
  cases s with
  | ask r =>
    rcases hd with rfl | rfl
    · exact .none (.spawn m .start rfl)
    · exact .none (.spawn m .stop rfl)
  | cancel u => exact .none (.cancelTask m u)
  | advance time => exact .none (.of_tasks rfl rfl)
  | write t request =>
    cases hd
    refine hto ?_
    rw [reacted_fst]
    exact h.write request
  | writeValue t v =>
    cases hd
    have hline := h.writeLine (encodeValue m.state.settings.encoding v)
    refine hto ?_
    split <;> rename_i hm <;> rw [hm] at hline <;> exact hline
  | output c octets => exact hchild (.written m c .output octets)
  | errors c octets => exact hchild (.written m c .errors octets)
  | exit c code => exact hchild (.exitChild m c code)
  | closeInput c => exact hchild (.modifyChild m c _)
  | breakOutput c message => exact hchild (.breakStream m c .output _)
  | _ => exact hd.elim

/-- What a transport writes is no tiding. -/
theorem writes (h : Posture x m) (hw : Writes x m m') : Posture x m' := by
  cases hw with
  | none hp => exact h.passes hp (.inl rfl)
  | line _ c octets hp =>
    have htidings : (m.record (.wrote c octets)).state.tidings = m.state.tidings :=
      (State.tidings_record m.state _).trans (List.append_nil _)
    have hwrote : Posture x (m.record (.wrote c octets)) :=
      ⟨h.driven, h.chores, by rw [htidings]; exact h.trace, h.idle, h.reads⟩
    exact hwrote.passes hp (.inl rfl)

end Posture

theorem Writes.readers (h : Writes x m m') {u : TaskId} {c : ChildId} (hr : m'.routine? u = some (.readOutput 0 c)) :
    m.routine? u = some (.readOutput 0 c) := by
  cases h with
  | none hp => exact Posture.not_reads hp.made hr
  | line _ c' octets hp => exact Posture.not_reads (m := m) hp.made hr

theorem Writes.silent (h : Writes x m m') (hx : x.phase = .stopped) : Silent m m' := by
  cases h with
  | none hp => exact hp.stays.silent
  | line hr => cases hx.symm.trans hr

theorem not_stops_of_idle (idle : m.running = none) : ¬ m.Stops := by
  rintro ⟨t, stack, hstop⟩
  cases idle.symm.trans hstop

/-- **Whatever reaches a transport leaves it orderly**, and a stopped one writes nothing. -/
theorem Orderly.apply (ho : Orderly x m) (hf : Fits role m .transport) (idle : m.running = none) (hd : s.Drives m) :
    Onward x m (m.apply s).1 := by
  have hw := ho.toPosture.apply hd
  have hp := ho.toPosture.writes hw
  refine ⟨x, ?_, fun hstop => ?_⟩
  · by_cases ht : ∃ time, s = .advance time
    · obtain ⟨time, rfl⟩ := ht
      exact ho.settled hf idle (.setTime hf.tidy.sound _)
    · have haside := hf.aside idle hd fun time h => ht ⟨time, h⟩
      exact ho.extends_ hf idle haside.effect.extends haside.tidy.sound hp haside.effect.isHeld hw.readers
  · have hx := hstop.resolve_right (not_stops_of_idle idle)
    exact ⟨hx, hw.silent hx⟩

/-- **Every step of the loop leaves a transport orderly**, and silent once it is stopped. -/
theorem Orderly.tick (ho : Orderly x m) (hf : Fits role m .transport) (hq : m.isQuiet = false) :
    Onward x m (m.tick program) := by
  obtain ⟨role', hstride, hf'⟩ := hf.stride hq
  generalize m.tick program = m' at hstride hf'
  cases hstride with
  | awakes idle hth how hs =>
    exact ⟨x, ho.awakes hf idle hth how hs, fun hstop =>
      ⟨hstop.resolve_right (not_stops_of_idle idle), .of_state hs.state⟩⟩
  | passes idle he hstate =>
    exact ⟨x, ho.settled hf idle ⟨hf'.tidy.sound, he, hstate⟩, fun hstop =>
      ⟨hstop.resolve_right (not_stops_of_idle idle), .of_state hstate⟩⟩
  | ends runs hs =>
    exact ⟨x, ho.ends hf runs hs, fun hstop => ⟨hstop.resolve_right (not_stops_of_resume runs), .of_state hs.state⟩⟩
  | begins runs _ stands deed => exact ho.begins hf runs stands deed
  | resumes runs serves _ _ deed => exact ho.resumes hf runs serves deed

/-- A transport that was not used yet is orderly. -/
theorem IsUnused.orderly (h : m.IsUnused) : Orderly {} m := by
  have he := h.isEmpty
  have hnone : ∀ {u : TaskId} {r : Routine}, m.routine? u ≠ some r := fun hr => by
    rw [he.routine?] at hr
    cases hr
  refine ⟨⟨?_, fun hr => absurd hr hnone, ⟨[], [], .inl rfl, ?_⟩, fun _ _ _ => hnone, fun _ _ _ hr => absurd hr hnone⟩, fun hth => ?_,
    fun hx => by cases hx⟩
  · obtain ⟨s, rfl⟩ := h
    rfl
  · obtain ⟨s, rfl⟩ := h
    rfl
  · rw [he.thread?] at hth
    cases hth

end Loop

section trace

variable {a b : Watch} {past : List Watch} {x : ChildTransport} {role : FutureId → Role}

open Loop

/-- **From one moment to the next a transport stays orderly**, and silent once it is stopped. -/
theorem Watch.Step.onward (hs : a.Step b) (ho : Orderly x a.loop) (hf : Fits role a.loop .transport) :
    Onward x a.loop b.loop := by
  cases hs with
  | tick hq => exact ho.tick hf hq
  | stimulus hr hd => exact ho.apply hf hr hd

/-- A transport is orderly at every moment, and it has been silent since it was stopped. -/
theorem IsWatched.orderly (h : IsWatched (a :: past)) : ∃ x, Orderly x a.loop ∧
    ∀ b ∈ past, ∀ x', Orderly x' b.loop → x'.phase = .stopped ∨ b.loop.Stops → x.phase = .stopped ∧ Silent b.loop a.loop := by
  generalize hms : a :: past = moments at h
  induction h generalizing a past with
  | new hm =>
    cases hms
    exact ⟨_, hm.orderly, fun b hb => by cases hb⟩
  | @step b a past h hs ih =>
    cases hms
    obtain ⟨x, ho, hpast⟩ := ih rfl
    obtain ⟨role, hf⟩ := h.fits
    obtain ⟨x', ho', hstop'⟩ := hs.onward ho hf
    refine ⟨x', ho', fun c hc y hy hstop => ?_⟩
    rcases List.mem_cons.mp hc with rfl | hc
    · exact hstop' (hstop.imp_left fun hphase => by rwa [Option.some.inj (ho.driven.symm.trans hy.driven)])
    · obtain ⟨hx, hsilent⟩ := hpast c hc y hy hstop
      obtain ⟨hx', hsilent'⟩ := hstop' (.inl hx)
      exact ⟨hx', hsilent'.tidings.trans hsilent.tidings, hsilent'.writes.trans hsilent.writes⟩

/-- Every earlier moment of a run is the last one of a run. -/
theorem IsWatched.earlier (h : IsWatched (a :: past)) (hb : b ∈ past) : ∃ past', IsWatched (b :: past') := by
  generalize hms : a :: past = moments at h
  induction h generalizing a past with
  | new => cases hms; cases hb
  | @step c a past h _ ih =>
    cases hms
    rcases List.mem_cons.mp hb with rfl | hb
    · exact ⟨_, h⟩
    · exact ih hb rfl

end trace

/-! ## A stop -/

/-- A transport that was not used yet. -/
def unusedWatch : Watch × List Watch :=
  ({ loop := { state := { receiver := .watcher, settings := { command := [lit "node"] }, transports := [.child {}] } } }, [])

end DiagnosticsClient
