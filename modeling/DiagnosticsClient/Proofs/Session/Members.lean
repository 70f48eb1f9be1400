import DiagnosticsClient.Proofs.Async.Groups
import DiagnosticsClient.Proofs.Session.Listens
/-
What a check of files does.

The check makes a group of its members and waits for its end, for which a future
is reserved. A member asks for the diagnostics of its file, then reads the code
around them aside. None of this touches what is shared but for a note.
-/
namespace DiagnosticsClient

open Async Async.Machine

namespace Loop

variable {role : FutureId → Role} {m : Loop} {o : Ending}

/-! ## A member -/

theorem checkFile_does (h : m.Tidy role) (file : Text) (context : Context) (limit : Option Seconds) :
    Does role role m (.checkFile file context limit) (checkFile file context limit m) :=
  .call (.refl h) (.answered file context _ limit) (.answered file context limit) (fun u hu => by cases hu) trivial

/-- A new future is settled as soon as it is its turn. -/
theorem Aside.deliver {K : TaskId → Prop} {S : Routine → Prop} (h : m.Tidy role) (o : Ending) :
    Aside role K S m (m.future.1.enqueue (.deliver m.future.2 o)) ∧
      HasRole role .other (m.future.1.enqueue (.deliver m.future.2 o)) m.future.2 := by
  obtain ⟨hnew, hrole⟩ := Aside.future (K := K) (S := S) h
  have hqueue : Aside role K S m.future.1 (m.future.1.enqueue (.deliver m.future.2 o)) :=
    .of_effect hnew.tidy (.single (.enqueue rfl hrole.1 hrole.2)) rfl
  exact ⟨hnew.trans hqueue, hrole.extends hqueue.effect.extends⟩

theorem answerResumed_does (h : m.Tidy role) (file : Text) (context : Context) (limit : Option Seconds) (o : Ending) :
    Does role role m (.checkFile file context limit) (answerResumed file context o m) := by
  unfold answerResumed
  split
  · split
    · exact .done (.refl h) fun v hv => by cases hv
    · next diagnostics _ =>
      have hnote := Aside.note (K := m.Cancellable) (S := (·.isOwn = true)) h .debug
        (file ++ lit ": " ++ Text.ofNat diagnostics.length ++ lit " diagnostic(s)")
      obtain ⟨hread, hrole⟩ := Aside.deliver (K := m.Cancellable) (S := (·.isOwn = true)) hnote.tidy
        ((m.note .debug (file ++ lit ": " ++ Text.ofNat diagnostics.length ++ lit " diagnostic(s)")).future.1.fragmentsOf
          file context diagnostics)
      exact .of_works (hnote.trans hread).works
        (.await_other (.readSource file context limit diagnostics) (.readSource file context diagnostics hrole) hrole.2)
  · exact .done (.refl h) fun v _ => trivial

theorem sourceResumed_does (h : m.Tidy role) (file : Text) (context : Context) (limit : Option Seconds)
    (diagnostics : List Diagnostic) (o : Ending) :
    Does role role m (.checkFile file context limit) (sourceResumed file context diagnostics o m) := by
  unfold sourceResumed
  split
  · exact .done (.refl h) fun v _ => trivial
  · exact .done (.refl h) fun v _ => trivial

/-! ## The whole -/

/-- What makes groups leaves a loop tidy, if it leaves alone what is shared. -/
theorem Tidy.effect_of_state {may : Licence Routine} {m' : Loop} (h : m.Tidy role) (he : Effect may m m')
    (ht : ∀ {f}, may.target f → role f = .other) (hw : ∀ {f}, ¬ may.wake f) (hs : m'.state = m.state) : m'.Tidy role where
  sound := he.sound (fun hf => congrArg Role.isScheduled (ht hf)) h.sound
  special hne := he.extends.owner (h.special hne)
  names := by
    rw [hs]
    exact names_extends h.names he.extends
  exits {f c v} hrole ho := by
    have hplain := h.special (f := f) (by rw [hrole]; exact Role.noConfusion)
    rw [hs]
    rcases he.extends.settled ho with hold | ⟨-, hset⟩
    · exact h.exits hrole hold
    · rcases hset hplain.lt_size with htarget | ⟨hwake, -⟩ | ⟨hcancel, -⟩
      · cases hrole.symm.trans (ht htarget)
      · exact absurd hwake hw
      · cases hcancel

/-- The licence of a check: to spawn its members and to make a group of them. -/
def gathering (role : FutureId → Role) : Licence Routine where
  target f := role f = .other
  wake _ := False
  cancel _ := False
  spawn r := r.isMember = true
  gather := True

theorem checkFiles_effect (h : m.Tidy role) (files : List Text) (context : Context) (limit : Option Seconds) :
    Effect (gathering role) m (checkFiles files context limit m).1 := by
  refine spawnGroup_effect (fun r hr => ?_) trivial fun f hf => h.unused hf
  obtain ⟨file, -, rfl⟩ := List.mem_map.mp hr
  exact rfl

/-- **A check makes a group of its members**, and reserves a future for its end. -/
theorem checkFiles_does (h : m.Tidy role) (files : List Text) (context : Context) (limit : Option Seconds) :
    ∃ role', Does role role' m (.checkFiles files context limit) (checkFiles files context limit m) := by
  have heff := checkFiles_effect h files context limit
  have hstate := spawnGroup_state m (files.map fun file => .checkFile file context limit)
  obtain ⟨hge, hplain⟩ := spawnGroup_outer m (files.map fun file => .checkFile file context limit)
  have htidy := h.effect_of_state heff id id hstate
  have hcovers : (grant role (m.spawnGroup (files.map fun file => .checkFile file context limit)).1.state.IsDead m
      (.checkFiles files context limit)).Covers (gathering role) :=
    ⟨id, False.elim, False.elim, fun h => .inr (.inr ⟨h, rfl⟩), fun _ => rfl⟩
  refine ⟨_, heff.mono hcovers, fun hc => ?_, h.reserve htidy (keeps_of_extends heff.extends) hstate hge hplain,
    agrees_assign .reserved hge, congrArg State.receiver hstate, ?_⟩
  · exact hstate.symm ▸ hc
  · exact .await (.gathered _ files context limit) (.gathered _ ⟨hplain, if_pos rfl⟩) fun _ => hge

theorem gatherResumed_does (h : m.Tidy role) (files : List Text) (context : Context) (limit : Option Seconds)
    (members : List TaskId) (o : Ending) :
    Does role role m (.checkFiles files context limit) (gatherResumed members o m) :=
  .call (.refl h) (.finishingCheck _) (.finishingCheck _ files context limit) (fun u hu => by cases hu) trivial

end Loop

end DiagnosticsClient
