import DiagnosticsClient.Proofs.Session.Order
import DiagnosticsClient.Proofs.Session.Uses
/-
Where the tasks of a session stand with its lock.

The place of a task is read off its thread: a task waits for the lock as long as
it has the frame for that on top, it has taken the lock as soon as it goes on
with it, and it holds the lock for as long as it starts or stops a transport. A
stack has at most one frame that holds the lock, and nothing of the kind below
it, so most moves leave the place alone (`MoveFits.station`).
-/
namespace DiagnosticsClient

open Async Async.Machine

/-- What a frame holds the lock for while it waits. -/
def Frame.hold : Frame → Option Station
  | .starting l _ => some (.starting l)
  | .releasing => some .releasing
  | _ => none

/-- What the first frame of a stack says of its task's place. -/
def Frame.station (top : Top Routine Value Failure) : Frame → Option Station
  | .locking w => some (.queued w)
  | .registering _ | .leaving _ | .closing =>
    match top with
    | .resumes (.value _) => some .taken
    | _ => none
  | F => F.hold

/-- What a stack holds the lock for. -/
def holdOf : List Frame → Option Station
  | [] => none
  | F :: stack => F.hold.or (holdOf stack)

/-- Where a task stands with the lock. -/
def Thread.station (th : Thread Routine Frame Value Failure) : Option Station :=
  match th.stack with
  | [] => none
  | F :: stack => (F.station th.top).or (holdOf stack)

section frames

variable {roots : TaskId → Option Routine} {root called r : Routine} {F G : Frame} {stack : List Frame}
  {top : Top Routine Value Failure}

theorem Frame.Calls.isDriving_of_hold (h : F.Calls called) (hF : F.hold ≠ none) : called.isDriving = true := by
  cases h <;> first | rfl | exact absurd rfl hF

theorem Frame.Serves.hold_of_isDriving (h : F.Serves roots r) (hd : r.isDriving = true) : F.hold = none := by
  cases h <;> first | rfl | cases hd

/-- A frame that calls something other than the lock says of its task's place what it holds the lock for. -/
theorem Frame.Calls.station (h : F.Calls called) (ha : called ≠ .acquireLock) : F.station top = F.hold := by
  cases h <;> first | rfl | exact absurd rfl ha

theorem Frame.Calls.station_begins (h : F.Calls called) : F.station (.begins r) = F.hold := by
  cases h <;> rfl

theorem Frame.station_of_isWait (h : F.isWait = true) (hw : ∀ w, F ≠ .locking w) : F.station top = none := by
  cases F <;> first | rfl | (cases h; done) | exact absurd rfl (hw _)

/-- What a frame that waits says of its task's place does not change when the wait is over. -/
theorem Frame.station_eq_of_isWait (h : F.isWait = true) (top top' : Top Routine Value Failure) :
    F.station top = F.station top' := by
  cases F <;> first | rfl | cases h

theorem Frame.station_of_isMild (h : F.isMild = true) : F.station top = none := by
  cases F <;> first | rfl | cases h

theorem Frame.Serves.station_of_isDriving (h : F.Serves roots r) (hd : r.isDriving = true) : F.station top = none := by
  cases h <;> first | rfl | cases hd

/-- What one who listens or asks does in several steps without a change of the lock holds no lock. -/
theorem Frame.Serves.hold_of_isMild (h : F.Serves roots r) (hF : F.isMild = true) (h' : G.Serves roots r) : G.hold = none := by
  have hex : ∀ {opening asking}, r.Exchanges opening asking → G.hold = none := by
    rintro opening asking ⟨⟩ <;> cases h' <;> rfl
  cases h with
  | finishing hx => exact hex hx
  | introducing hx => exact hex hx
  | expecting hx => exact hex hx
  | _ => first | (cases hF; done) | (cases h' <;> rfl)

/-- Who is called by one who listens or asks is one himself, but for what drives transports. -/
theorem Frame.Calls.not_isDriving (hc : F.Calls called) (hs : F.Serves roots r) (hd : called.isDriving = false) :
    r.isDriving = false := by
  cases hs with
  | finishing hx => cases hx <;> rfl
  | introducing hx => cases hx <;> rfl
  | expecting hx => cases hx <;> rfl
  | _ => cases hc <;> first | rfl | cases hd

/-! ## Stacks -/

/-- Nothing below a routine that listens or asks holds the lock. -/
theorem Stacked.hold_eq_none (h : Stacked roots root called stack) (hd : called.isDriving = false) :
    ∀ F ∈ stack, F.hold = none := by
  induction h with
  | nil => exact fun F hF => by cases hF
  | cons hc hs _ _ ih =>
    intro G hG
    rcases List.mem_cons.mp hG with rfl | hG
    · refine Decidable.byContradiction fun hne => ?_
      rw [hc.isDriving_of_hold hne] at hd
      cases hd
    · exact ih (hc.not_isDriving hs hd) G hG

theorem Stacked.holdOf_eq_none (h : Stacked roots root called stack) (hd : called.isDriving = false) : holdOf stack = none := by
  have hnone := h.hold_eq_none hd
  clear h
  induction stack with
  | nil => rfl
  | cons F stack ih =>
    rw [holdOf, hnone F List.mem_cons_self, Option.none_or]
    exact ih fun G hG => hnone G (List.mem_cons_of_mem _ hG)

/-- A frame that holds the lock is the only one of its stack. -/
theorem Stacked.holdOf_of_mem (h : Stacked roots root called stack) (hF : F ∈ stack) (hne : F.hold ≠ none) :
    holdOf stack = F.hold := by
  induction h with
  | nil => cases hF
  | @cons G called r stack hc hs _ h ih =>
    rcases List.mem_cons.mp hF with rfl | hF
    · rw [holdOf]
      cases hhold : F.hold with
      | none => exact absurd hhold hne
      | some a => rfl
    · cases hG : G.hold with
      | none => rw [holdOf, hG, Option.none_or, ih hF]
      | some a =>
        have hd : r.isDriving = false := by
          cases hd : r.isDriving with
          | false => rfl
          | true => rw [hs.hold_of_isDriving hd] at hG; cases hG
        exact absurd (h.hold_eq_none hd F hF) hne

theorem exists_of_holdOf {a : Station} (h : holdOf stack = some a) : ∃ F ∈ stack, F.hold = some a := by
  induction stack with
  | nil => cases h
  | cons F stack ih =>
    cases hF : F.hold with
    | none =>
      rw [holdOf, hF, Option.none_or] at h
      obtain ⟨G, hG, ha⟩ := ih h
      exact ⟨G, List.mem_cons_of_mem _ hG, ha⟩
    | some b =>
      rw [holdOf, hF, Option.some_or] at h
      exact ⟨F, List.mem_cons_self, hF.trans h⟩

@[simp] theorem station_cons : Thread.station ⟨top, F :: stack⟩ = (F.station top).or (holdOf stack) := rfl

/-- A task that begins something has the place that its stack says. -/
theorem Stacked.station_begins (h : Stacked roots root called stack) : Thread.station ⟨.begins r, stack⟩ = holdOf stack := by
  cases h with
  | nil => rfl
  | cons hc => rw [station_cons, hc.station_begins, holdOf]

/-- And so has one that goes on with something other than the lock. -/
theorem Stacked.station (h : Stacked roots root called stack) (ha : called ≠ .acquireLock) :
    Thread.station ⟨top, stack⟩ = holdOf stack := by
  cases h with
  | nil => rfl
  | cons hc => rw [station_cons, hc.station ha, holdOf]

/-- A frame that holds the lock gives its task its place. -/
theorem Stacked.station_of_mem (h : Stacked roots root called stack) (hs : F.Serves roots called) (hG : G ∈ F :: stack)
    (hne : G.hold ≠ none) : Thread.station ⟨top, F :: stack⟩ = G.hold := by
  rw [station_cons]
  rcases List.mem_cons.mp hG with rfl | hG
  · cases G <;> first | rfl | exact absurd rfl hne
  · have hd : called.isDriving = true := by
      cases hd : called.isDriving with
      | true => rfl
      | false => exact absurd (h.hold_eq_none hd G hG) hne
    rw [hs.station_of_isDriving hd, Option.none_or]
    exact h.holdOf_of_mem hG hne

/-- Who holds the lock has just taken it, or has a frame that holds it. -/
theorem exists_of_station {th : Thread Routine Frame Value Failure} {a : Station} (h : Thread.station th = some a)
    (ha : a.holds = true) : (∃ v, th.top = .resumes (.value v)) ∨ ∃ F ∈ th.stack, F.hold = some a := by
  obtain ⟨top, stack⟩ := th
  cases stack with
  | nil => cases h
  | cons F stack =>
    rw [station_cons] at h
    cases hF : F.station top with
    | none =>
      rw [hF, Option.none_or] at h
      obtain ⟨G, hG, hhold⟩ := exists_of_holdOf h
      exact .inr ⟨G, List.mem_cons_of_mem _ hG, hhold⟩
    | some b =>
      rw [hF, Option.some_or] at h
      cases h
      by_cases htop : ∃ v, top = .resumes (.value v)
      · exact .inl htop
      · refine .inr ⟨F, List.mem_cons_self, ?_⟩
        have hnone : ∀ v, top ≠ .resumes (.value v) := fun v heq => htop ⟨v, heq⟩
        cases F with
        | locking w => cases hF; cases ha
        | registering l => simp only [Frame.station] at hF; cases hF
        | leaving l => simp only [Frame.station] at hF; cases hF
        | closing => simp only [Frame.station] at hF; cases hF
        | _ => exact hF

/-- Who gets the lock holds it. -/
theorem Stacked.station_taken (h : Stacked roots root .acquireLock stack) (hr : root ≠ .acquireLock) (v : Value) :
    Thread.station ⟨.resumes (.value v), stack⟩ = some .taken := by
  cases h with
  | nil => exact absurd rfl hr
  | cons hc => cases hc <;> rfl

/-- Who does not get the lock has no place. -/
theorem Stacked.station_missed (h : Stacked roots root .acquireLock stack) {o : Ending} (ho : ∀ v, o ≠ .value v) :
    Thread.station ⟨.resumes o, stack⟩ = none := by
  cases h with
  | nil => rfl
  | cons hc hs _ h =>
    have hrest := h.holdOf_eq_none (hc.not_isDriving hs rfl)
    cases o with
    | value v => exact absurd rfl (ho v)
    | _ => cases hc <;> exact hrest

end frames

namespace Loop

variable {role : FutureId → Role} {roots : TaskId → Option Routine} {m : Loop} {l : ListenerId} {root called r r' : Routine}
  {F : Frame} {stack : List Frame} {a : Move} {size : Nat}

/-- What is done next leaves the place of a task alone, unless it has to do with the lock. -/
theorem MoveFits.station (hm : MoveFits role m size called a) (hs : Stacked roots root called stack)
    (ha : called ≠ .acquireLock) (hh : ∀ r F, a = .call r F → F.hold = none) :
    Thread.station (m.nextThread stack a) = holdOf stack := by
  cases hm with
  | done => exact hs.station ha
  | call hc => rw [nextThread, station_cons, hc.station_begins, hh _ _ rfl, Option.none_or]
  | become => exact hs.station ha
  | @await f F hserves hawaits =>
    have hstation : ∀ top, Thread.station ⟨top, F :: stack⟩ = holdOf stack := by
      intro top
      have hw : ∀ w, F ≠ .locking w := by
        rintro w rfl
        cases hserves
        exact ha rfl
      rw [station_cons, F.station_of_isWait hawaits.isWait hw, Option.none_or]
    unfold nextThread
    dsimp only
    split <;> exact hstation _

theorem MoveFits.serves (hm : MoveFits role m size called a) (ha : a = .call r F) : F.Serves m.routine? called := by
  subst ha
  cases hm with
  | call _ hs => exact hs

/-- No routine begins with a frame that holds the lock. -/
theorem begin_hold (hr : r.StandsFor called) (h : (begin r m).2 = .call r' F) (hs : F.Serves roots called) :
    F.hold = none := by
  cases hs with
  | starting => cases hr; cases h
  | releasingListener => cases hr; cases h
  | releasingSession => cases hr; cases h
  | _ => rfl

end Loop

end DiagnosticsClient
