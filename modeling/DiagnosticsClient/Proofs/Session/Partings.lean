import DiagnosticsClient.Proofs.Session.Alarms
import DiagnosticsClient.Proofs.Session.Paces
/-
What an exchange waits for that is a task of its own.

It waits for the lock or at its listener, or until a transport has started, or it has left
already and stops a transport (`Moment.Holds.exchange_waits`). Whoever stops a transport does
not come to leave again (`Parting`, `Gone`). What it waits for otherwise no timer settles
(`IsRun.not_alarmed_of_exchange`).
-/
namespace DiagnosticsClient

open Async Async.Machine

/-- An exchange has left, and stops a transport or is about to end. -/
inductive Parting : Thread Routine Frame Value Failure → Prop
  | stops {th : Thread Routine Frame Value Failure} {e : Ending} (h : [.releasing, .finishing e] <:+ th.stack) : Parting th
  | left (o e : Ending) : Parting ⟨.resumes o, [.finishing e]⟩
  | finished (o : Ending) : Parting ⟨.resumes o, []⟩

/-- A task has ended, or has left and will end. -/
def Moment.Gone (a : Moment) (v : TaskId) : Prop :=
  a.loop.hasEnded v = true ∨ ∃ th, a.loop.thread? v = some th ∧ Parting th

section roots

variable {roots : TaskId → Option Routine} {root called : Routine} {stack : List Frame} {opening asking : Request}

/-- Nobody waits for an exchange but whoever was made for it. -/
theorem Stacked.nil_of_exchanges {o a : Request} (h : Stacked roots root called stack) (hx : root.Exchanges opening asking)
    (hc : called.Exchanges o a) : stack = [] := by
  cases h with
  | nil => rfl
  | cons hcalls hs _ h =>
    cases hc with
    | exchange => cases hcalls
    | request =>
      cases hcalls
      cases hs
      cases h with
      | nil => cases hx
      | cons hcalls => cases hcalls

/-- An exchange drives a transport only to start it, or to stop it once it has left. -/
theorem Stacked.releasing_mem (h : Stacked roots root called stack) (hx : root.Exchanges opening asking)
    (hd : called.isDriving = true) (hs : ∀ t, called ≠ .start t) : .releasing ∈ stack := by
  induction h with
  | nil => cases hx <;> cases hd
  | cons hc hserves _ h ih =>
    cases hc with
    | starting => exact absurd rfl (hs _)
    | releasing => exact List.mem_cons_self
    | requesting =>
      cases hserves
      rcases h.root_of_request with rfl | ⟨_, _, _, rfl⟩ <;> cases hx
    | _ =>
      first
      | (cases hd; done)
      | cases hserves
        exact List.mem_cons_of_mem _ (ih rfl fun t h => by cases h)

/-- And then nothing but the end comes after it. -/
theorem Stacked.releasing_suffix (h : Stacked roots root called stack) (hx : root.Exchanges opening asking) (hmem : .releasing ∈ stack) :
    ∃ e, [.releasing, .finishing e] <:+ stack := by
  have hfinishing : ∀ {r : Routine} {rest : List Frame}, Stacked roots root r rest →
      r = .closeSession ∨ (∃ l, r = .closeListener l) → ∃ e, rest = [.finishing e] := by
    intro r rest h hr
    cases h with
    | nil => rcases hr with rfl | ⟨l, rfl⟩ <;> cases hx
    | @cons F _ r' rest hc hs _ h =>
      obtain ⟨e, rfl⟩ : ∃ e, F = .finishing e := by
        rcases hr with rfl | ⟨l, rfl⟩ <;> cases hc <;> exact ⟨_, rfl⟩
      refine ⟨e, congrArg _ ?_⟩
      cases hs with
      | finishing hx' => exact h.nil_of_exchanges hx hx'
      | finishingVisit =>
        cases h with
        | nil => cases hx
        | cons hc => cases hc
      | finishingCheck =>
        cases h with
        | nil => cases hx
        | cons hc => cases hc
  induction h with
  | nil => cases hmem
  | @cons F _ r stack hc hs _ h ih =>
    rcases List.mem_cons.mp hmem with rfl | hmem
    · obtain ⟨e, rfl⟩ : ∃ e, stack = [.finishing e] := by
        cases hs with
        | releasingListener l => exact hfinishing h (.inr ⟨l, rfl⟩)
        | releasingSession => exact hfinishing h (.inl rfl)
      exact ⟨e, List.suffix_refl _⟩
    · obtain ⟨e, hsuffix⟩ := ih hmem
      exact ⟨e, hsuffix.trans (List.suffix_cons _ _)⟩

end roots

section runs

variable {role role' : FutureId → Role} {a b : Moment} {past : List Moment} {t v : TaskId} {g w : FutureId} {opening asking : Request}
  {th : Thread Routine Frame Value Failure} {stack : List Frame} {root : Routine}

/-- **What an exchange waits for**: the lock or its listener, or a transport that is started, unless it has left. -/
theorem Moment.Holds.exchange_waits (ha : a.Holds role) (hroot : a.loop.routine? v = some root) (hx : root.Exchanges opening asking)
    (hth : a.loop.thread? v = some ⟨.waits g, stack⟩) : a.loop.IsPlain g ∧ (role g = .lock ∨ role g = .getter) ∨
      (a.loop.IsPlain g ∧ ∃ t fails w rest, stack = .gated t .start fails w :: rest) ∨ a.Gone v := by
  obtain ⟨_, hroot', hfits⟩ := ha.fits.threads hth
  cases hroot.symm.trans hroot'
  cases hfits with
  | @waits _ F called rest hs hawaits hstack =>
    have hgone : called.isDriving = true → (∀ t, called ≠ .start t) → a.Gone v := fun hd hne => by
      obtain ⟨e, hsuffix⟩ := hstack.releasing_suffix hx (hstack.releasing_mem hx hd hne)
      exact .inr ⟨_, hth, .stops (hsuffix.trans (List.suffix_cons _ _))⟩
    cases hawaits with
    | locking h => exact .inl ⟨h.1, .inl h.2⟩
    | getting l h => exact .inl ⟨h.1, .inr h.2⟩
    | gated t call fails w h =>
      cases hs with
      | gatedStart => exact .inr (.inl ⟨h.1, _, _, _, _, rfl⟩)
      | gatedStop => exact .inr (.inr (hgone rfl fun t h => by cases h))
    | readSource =>
      cases hs
      cases hstack with
      | nil => cases hx
      | cons hc => cases hc
    | gathered =>
      cases hs
      cases hstack with
      | nil => cases hx
      | cons hc => cases hc
    | _ =>
      cases hs
      exact .inr (.inr (hgone rfl fun t h => by cases h))

/-- What time is to settle is none of the lock's futures and none of a listener's. -/
theorem Loop.Fits.scheduled_of_alarm {m : Loop} (hf : Loop.Fits role m) (hw : w ∈ m.alarms) : (role w).isScheduled = true := by
  rcases mem_alarms.mp hw with ⟨i, hi, rfl⟩ | hready
  · exact (hf.tidy.sound.targets.timers hi).2
  · exact (hf.tidy.sound.targets.ready hready rfl).2

/-- **No timer settles what an exchange waits for**, unless it has left. -/
theorem IsRun.not_alarmed_of_exchange (h : IsRun (a :: past)) (hroot : a.loop.routine? v = some root)
    (hx : root.Exchanges opening asking) (hth : a.loop.thread? v = some ⟨.waits g, stack⟩) : a.Gone v ∨ a.loop.IsPlain g ∧ g ∉ a.loop.alarms := by
  obtain ⟨role, hholds⟩ := h.holds
  rcases hholds.exchange_waits hroot hx hth with ⟨hplain, hrole⟩ | ⟨hplain, t, fails, w, rest, rfl⟩ | hgone
  · refine .inr ⟨hplain, fun hw => ?_⟩
    have hscheduled := hholds.fits.scheduled_of_alarm hw
    rcases hrole with hrole | hrole <;> rw [hrole] at hscheduled <;> cases hscheduled
  · exact .inr ⟨hplain, h.not_alarmed hth⟩
  · exact .inl hgone

/-! ## Who has left -/

open Loop in
/-- **Whoever has left ends.** -/
theorem Parting.turn {m m' : Loop} (h : Parting th) (ht : Turn role m v th role' m') :
    (∃ th', m'.thread? v = some th' ∧ Parting th') ∨ ∃ o, m'.taskOutcome? v = some o := by
  cases h with
  | @stops _ e hsuffix =>
    rcases ht.beneath hsuffix with ⟨o, rfl⟩ | ⟨th', hth', hsuffix'⟩
    · cases o <;> exact .inl ⟨_, (ht.resumed rfl).2, .left _ e⟩
    · exact .inl ⟨th', hth', .stops hsuffix'⟩
  | left o e => cases o <;> exact .inl ⟨_, (ht.resumed rfl).2, .finished _⟩
  | finished o => exact .inr ⟨o, ht.of_ends⟩

theorem Moment.Gone.step (h : a.Gone v) (ha : a.Holds role) (hb : b.Holds role') (hg : Goes role a role' b) : b.Gone v := by
  rcases h with hended | ⟨th, hth, hparting⟩
  · obtain ⟨o, ho⟩ := Option.isSome_iff_exists.mp hended
    exact .inl (Option.isSome_iff_exists.mpr ⟨o, hg.ended ha hb ho⟩)
  · rcases hparting.turn (hg.turn ha hb hth) with hparting' | hended
    · exact .inr hparting'
    · exact .inl (Option.isSome_iff_exists.mpr hended)

/-- Whoever has left does not wait to leave. -/
theorem Moment.Gone.not_exposed (h : a.Gone v) (ha : a.Holds role) : ¬ a.Exposed v := by
  rintro ⟨w, l, rest, hth, -⟩
  rcases h with hended | ⟨th, hth', hparting⟩
  · obtain ⟨o, ho⟩ := Option.isSome_iff_exists.mp hended
    cases (ha.fits.tidy.sound.taskOutcome?_of_thread? hth).symm.trans ho
  · cases hth.symm.trans hth'
    cases hparting with
    | @stops _ e hsuffix =>
      -- a stop is driven, and who waits for the lock is not
      obtain ⟨_, hroot', hfits⟩ := ha.fits.threads hth
      cases hfits with
      | waits hs _ hstack =>
        have hmem : .releasing ∈ Frame.leaving l :: rest := by
          rcases List.mem_cons.mp (hsuffix.subset List.mem_cons_self) with heq | hmem
          · cases heq
          · exact hmem
        cases hs
        cases (hstack.holdOf_eq_none rfl).symm.trans (hstack.holdOf_of_mem hmem (by simp [Frame.hold]))

end runs

end DiagnosticsClient
