import DiagnosticsClient.Proofs.Session.Runs
/-
Runs of a transport.

A transport drives a child, and somebody watches what it passes on. Its owner starts
it, stops it and writes to it; the child writes, breaks and ends; tasks are cancelled,
also those of the transport itself; and time passes. All this may happen in any order,
whenever no task runs. A run is kept as the list of its moments, newest first.

Threads fit at every moment of a run (`IsWatched.fits`).
-/
namespace DiagnosticsClient

open Async Async.Machine

/-- What a transport makes known: values it passes on, what is wrong with its reading, and its end. A value that its owner
refuses is not passed on, and is something wrong. -/
inductive Tiding where
  | message (v : Json)
  | trouble (text : Text)
  | close (error : Option ServerError)

namespace State

/-- What a transport made known, in order. -/
def tidings (s : State) : List Tiding :=
  s.transcript.toList.filterMap fun
    | .received _ v => some (.message v)
    | .note n => if n.level = .error then some (.trouble n.text) else none
    | .reported _ e => some (.close e)
    | _ => none

/-- What was written to children, in order. -/
def writes (s : State) : List (ChildId × Bytes) :=
  s.transcript.toList.filterMap fun
    | .wrote c octets => some (c, octets)
    | _ => none

end State

/-- What may reach a transport from outside. -/
def Stimulus.Drives (m : Loop) : Stimulus → Prop
  | .ask r => r = .start 0 ∨ r = .stop 0
  | .cancel u => ∃ r, m.routine? u = some r
  | .advance _ => True
  | .write t _ => t = 0
  | .writeValue t _ => t = 0
  | .output .. => True
  | .errors .. => True
  | .exit .. => True
  | .closeInput _ => True
  | .breakOutput .. => True
  | _ => False

/-- A transport that was not used yet, and somebody who watches it. -/
def Loop.IsUnused (m : Loop) : Prop :=
  ∃ s : State, m =
    { state := { s with
        receiver := .watcher, script := none, lock := {}, listeners := [], registered := [], current := none, nextSeq := 0
        transports := [.child {}], children := [], transcript := #[] } }

/-- A transport at a time: its loop, what its child has written so far, and the tasks that were cancelled from outside. -/
structure Watch where
  loop : Loop
  said : Bytes := []
  cancelled : List TaskId := []

namespace Watch

/-- The moment after a stimulus. What a child writes counts if there is one that can write. -/
def after (a : Watch) (s : Stimulus) : Watch where
  loop := (a.loop.apply s).1
  said :=
    match s, (a.loop.apply s).2 with
    | .output _ octets, .nothing => a.said ++ octets
    | _, _ => a.said
  cancelled :=
    match s with
    | .cancel u => a.cancelled ++ [u]
    | _ => a.cancelled

/-- The moments until nothing can go on by itself, newest first: the newest, and those before it. -/
def onward : (fuel : Nat) → Watch → List Watch → Watch × List Watch
  | 0, a, past => (a, past)
  | fuel + 1, a, past =>
    if a.loop.isQuiet then (a, past) else onward fuel { a with loop := a.loop.tick Loop.program } (a :: past)

/-- The moments after a stimulus, until nothing can go on by itself. -/
def pursue (fuel : Nat) (s : Stimulus) (moments : Watch × List Watch) : Watch × List Watch :=
  onward fuel (moments.1.after s) (moments.1 :: moments.2)

/-- From one moment to the next. -/
inductive Step (a : Watch) : Watch → Prop
  | tick (h : a.loop.isQuiet = false) : Step a { a with loop := a.loop.tick Loop.program }
  | stimulus {s : Stimulus} (h : a.loop.running = none) (ha : s.Drives a.loop) : Step a (a.after s)

end Watch

/-- The moments of a run of a transport, newest first. -/
inductive IsWatched : List Watch → Prop
  | new {m : Loop} (h : m.IsUnused) : IsWatched [{ loop := m }]
  | step {a b : Watch} {past : List Watch} (h : IsWatched (a :: past)) (hs : a.Step b) : IsWatched (b :: a :: past)

theorem IsWatched.onward {a : Watch} {past : List Watch} (h : IsWatched (a :: past)) (fuel : Nat) :
    IsWatched ((a.onward fuel past).1 :: (a.onward fuel past).2) := by
  induction fuel generalizing a past with
  | zero => exact h
  | succ fuel ih =>
    unfold Watch.onward
    split
    · exact h
    · next hq => exact ih (.step h (.tick (Bool.eq_false_iff.mpr hq)))

/-- The moments after a stimulus are part of a run. -/
theorem IsWatched.pursue {s : Stimulus} {moments : Watch × List Watch} (h : IsWatched (moments.1 :: moments.2))
    (hr : moments.1.loop.running.isNone = true) (hd : s.Drives moments.1.loop) (fuel : Nat) :
    IsWatched ((Watch.pursue fuel s moments).1 :: (Watch.pursue fuel s moments).2) :=
  (IsWatched.step h (.stimulus (Option.isNone_iff_eq_none.mp hr) hd)).onward fuel

namespace Loop

variable {role : FutureId → Role} {m : Loop} {s : Stimulus}

theorem IsUnused.isEmpty (h : m.IsUnused) : m.IsEmpty := by
  obtain ⟨s, rfl⟩ := h
  exact ⟨rfl, rfl, rfl, rfl, rfl, rfl⟩

/-- Threads fit before the transport is used: there are none. -/
theorem IsUnused.fits (h : m.IsUnused) : Fits (fun _ => .other) m .transport := by
  have he := h.isEmpty
  refine ⟨⟨he.sound, fun hne => absurd rfl hne, ?_, fun hexit => by cases hexit⟩, ?_, ?_, ?_, ?_, ?_⟩
  · obtain ⟨s, rfl⟩ := h
    refine ⟨fun t ht => ?_, fun hc => (by cases hc), fun f hf => (by cases hf), fun l hl => (by cases hl)⟩
    rw [List.mem_singleton.mp ht]
    exact ⟨fun u hu => (by cases hu), fun u hu => (by cases hu)⟩
  · obtain ⟨s, rfl⟩ := h
    rfl
  · intro t r hr
    rw [he.routine?] at hr
    cases hr
  · intro t th hth
    rw [he.thread?] at hth
    cases hth
  · intro t u f s s' hne
    exact absurd rfl hne
  · intro t root v hr
    rw [he.routine?] at hr
    cases hr

/-- What reaches a transport is aside, unless it is time that passes. -/
theorem Fits.aside (hf : Fits role m .transport) (hr : m.running = none) (hd : s.Drives m) (ht : ∀ time, s ≠ .advance time) :
    Aside role (m.MayCancel s) (MaySpawn s) m (m.apply s).1 := by
  refine apply_aside hf hr (fun u hu => ?_) ?_
  · subst hu
    exact hd
  · cases s with
    | advance time => exact absurd rfl (ht time)
    | listen => exact hd.elim
    | issueSeq => exact hd.elim
    | receive => exact hd.elim
    | report => exact hd.elim
    | _ => rfl

/-- Threads fit after whatever reaches the transport. -/
theorem Fits.driven (hf : Fits role m .transport) (hr : m.running = none) (hd : s.Drives m) :
    Fits role (m.apply s).1 .transport := by
  by_cases ht : ∃ time, s = .advance time
  · obtain ⟨time, rfl⟩ := ht
    have hset : Settled (bare role) m (m.apply (.advance time)).1 := .setTime hf.tidy.sound _
    refine hf.extends hset.extends_ (fun h => h.elim) (hf.tidy.settled hset) (fun _ _ => rfl)
      (congrArg State.receiver hset.state) fun hc => ?_
    rwa [hset.state]
  · have haside := hf.aside hr hd fun time h => ht ⟨time, h⟩
    refine hf.extends haside.effect.extends ?_ haside.tidy (fun _ _ => rfl) haside.works.receiver haside.dead
    rintro r (rfl | hr)
    · rcases hd with rfl | rfl <;> rfl
    · exact Usage.roots_of_isSpawned (Routine.isSpawned_of_isOwn hr)

end Loop

/-- **Threads fit at every moment of a run.** -/
theorem IsWatched.fits {a : Watch} {past : List Watch} (h : IsWatched (a :: past)) :
    ∃ role, Loop.Fits role a.loop .transport := by
  generalize hms : a :: past = moments at h
  induction h generalizing a past with
  | new hm =>
    cases hms
    exact ⟨_, hm.fits⟩
  | step _ hs ih =>
    cases hms
    obtain ⟨role, hf⟩ := ih rfl
    cases hs with
    | tick hq =>
      obtain ⟨role', -, hf'⟩ := hf.stride hq
      exact ⟨role', hf'⟩
    | stimulus hr hd => exact ⟨role, hf.driven hr hd⟩

end DiagnosticsClient
