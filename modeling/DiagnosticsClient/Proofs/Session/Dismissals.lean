import DiagnosticsClient.Proofs.Session.Exchanges
import DiagnosticsClient.Proofs.Session.Partings
import DiagnosticsClient.Proofs.Session.Readers
/-
An exchange that is cancelled leaves.

A cancellation reaches an exchange where it waits, and what it waited for comes as
cancelled. Then it hands that on until it closes its listener, or ends without one; on that
way it sends nothing, and once it has begun to leave it only leaves (`Departing`). So from
the step on in which it is cancelled an exchange is on its way out (`Dismissed`): nothing
that it does or that happens to it changes that (`Moment.Dismissed.step`).
-/
namespace DiagnosticsClient

open Async Async.Machine

/-- An exchange is about to leave, or has left. -/
inductive Departing : Thread Routine Frame Value Failure → Prop
  | closes (l : ListenerId) (e : Ending) : Departing ⟨.begins (.closeListener l), [.finishing e]⟩
  | leaves {l : ListenerId} {e : Ending} {th : Thread Routine Frame Value Failure} (h : [.leaving l, .finishing e] <:+ th.stack) :
      Departing th
  | parts {th : Thread Routine Frame Value Failure} (h : Parting th) : Departing th

/-- What a task waits for, if it waits, has an outcome. -/
def Loop.Stirs (m : Loop) (v : TaskId) : Prop := ∀ f stack, m.thread? v = some ⟨.waits f, stack⟩ → m.isSettled f = true

/-- An exchange is cancelled, or on its way out, or has ended. -/
def Moment.Dismissed (a : Moment) (v : TaskId) : Prop :=
  (a.loop.Doomed v ∧ a.loop.Stirs v) ∨ ∃ th, a.loop.thread? v = some th ∧ Departing th

section threads

variable {role role' : FutureId → Role} {m m' : Loop} {t v : TaskId} {root called : Routine} {F : Frame} {stack : List Frame}
  {th : Thread Routine Frame Value Failure} {opening asking : Request} {roots : TaskId → Option Routine} {o : Ending} {x : Value}
  {l : ListenerId}

open Loop in
/-- **Whoever is about to leave leaves.** -/
theorem Departing.turn (h : Departing th) (ht : Turn role m v th role' m') :
    (∃ th', m'.thread? v = some th' ∧ Departing th') ∨ ∃ o, m'.taskOutcome? v = some o := by
  cases h with
  | closes l e => exact .inl ⟨_, (ht.begun rfl).2, .leaves (List.suffix_refl _)⟩
  | @leaves l e _ hsuffix =>
    rcases ht.beneath hsuffix with ⟨o, rfl⟩ | ⟨th', hth', hsuffix'⟩
    · obtain ⟨-, hth'⟩ := ht.resumed (Prod.eta _).symm
      cases o with
      | value v =>
        rcases leaveLocked_move l v m with ⟨t, hmove⟩ | hmove <;> rw [hmove] at hth'
        · exact .inl ⟨_, hth', .parts (.stops (List.suffix_refl _))⟩
        · exact .inl ⟨_, hth', .parts (.left _ e)⟩
      | _ => exact .inl ⟨_, hth', .parts (.left _ e)⟩
    · exact .inl ⟨th', hth', .leaves hsuffix'⟩
  | parts h => exact (h.turn ht).imp_left fun ⟨th', hth', h'⟩ => ⟨th', hth', .parts h'⟩

/-- An exchange that is told that it is cancelled hands that on, or closes its listener, unless it stops a transport. -/
theorem Stacked.resume_cancelled (h : Stacked roots root called stack) (hs : F.Serves roots called)
    (hx : root.Exchanges opening asking) (m : Loop) : (Loop.resume F .cancelled m).2 = .done .cancelled ∨
      (∃ l e, (Loop.resume F .cancelled m).2 = .call (.closeListener l) (.finishing e) ∧ stack = []) ∨
        called.isDriving = true ∧ ∀ t, called ≠ .start t := by
  cases hs with
  | expecting hx' => exact .inr (.inl ⟨_, _, rfl, h.nil_of_exchanges hx hx'⟩)
  | visited =>
    cases h with
    | nil => cases hx
    | cons hc => cases hc
  | gathered =>
    cases h with
    | nil => cases hx
    | cons hc => cases hc
  | gatedStart => exact .inl rfl
  | timing => exact .inr (.inr ⟨rfl, fun t h => by cases h⟩)
  | overdue => exact .inr (.inr ⟨rfl, fun t h => by cases h⟩)
  | lapsed => exact .inr (.inr ⟨rfl, fun t h => by cases h⟩)
  | ending => exact .inr (.inr ⟨rfl, fun t h => by cases h⟩)
  | outputEnded => exact .inr (.inr ⟨rfl, fun t h => by cases h⟩)
  | draining => exact .inr (.inr ⟨rfl, fun t h => by cases h⟩)
  | reading => exact .inr (.inr ⟨rfl, fun t h => by cases h⟩)
  | _ => exact .inl rfl

/-- Whoever has begun to leave sends nothing. -/
theorem Departing.not_introducing (h : Departing ⟨.resumes o, .introducing l opening asking :: stack⟩) : stack ≠ [] := by
  rintro rfl
  cases h with
  | leaves h => simpa using h.length_le
  | parts h =>
    cases h with
    | stops h => simpa using h.length_le

end threads

namespace Loop

variable {T : FutureId → Prop} {m m' : Loop} {t v : TaskId} {th : Thread Routine Frame Value Failure} {f : FutureId} {stack : List Frame}
  {x : Option (Thread Routine Frame Value Failure)}

theorem stirs_of_thread? (hth : m.thread? v = some th) (h : ∀ f, th.top = .waits f → m.isSettled f = true) : m.Stirs v := by
  intro f stack hth'
  cases hth.symm.trans hth'
  exact h f rfl

/-- Somebody who waits stirs when he is cancelled, if what he waits for is no task's. -/
theorem stirs_of_cancelTask (hs : m.Sound T) (hlt : v < m.tasks.size) (hidle : ∀ x, m.running = some x → x.task ≠ v)
    (hplain : ∀ {f s}, m.thread? v = some ⟨.waits f, s⟩ → m.IsPlain f) : Stirs (m.cancelTask v).1 v := by
  rcases hs.cancelTask_cases hlt hidle hplain with ⟨heq, hnone⟩ | ⟨w, stack, hth, -, heq⟩ | ⟨heq, hset⟩ <;> rw [heq]
  · intro f stack hth
    cases hnone.symm.trans hth
  · refine stirs_of_thread? ((thread?_settle hs.owned (hplain hth) v).trans hth) fun f hf => ?_
    cases hf
    exact isSettled_settle_self (hplain hth).lt_size
  · intro f stack hth
    exact hset f stack ((thread?_setHeld m v true v).symm.trans hth)

/-- Whoever stirs does so while another task moves. -/
theorem Stirs.switch (h : m.Stirs v) (hs : m.Switch t x m') (hv : v ≠ t)
    (hplain : ∀ {f s}, m.thread? v = some ⟨.waits f, s⟩ → m.IsPlain f) : m'.Stirs v := by
  intro f stack hth
  rw [hs.other hv] at hth
  rw [isSettled, hs.outcome (hplain hth), ← isSettled]
  exact h f stack hth

end Loop

section goes

variable {role role' : FutureId → Role} {a b : Moment} {past : List Moment} {t v : TaskId} {root : Routine} {stack : List Frame}
  {th : Thread Routine Frame Value Failure} {opening asking : Request} {f : FutureId} {l : ListenerId} {x : Value}

/-- Whoever has ended is dismissed. -/
theorem Moment.Dismissed.of_ended {o : Ending} (ha : a.Holds role) (ho : a.loop.taskOutcome? v = some o) : a.Dismissed v :=
  have hnone : ∀ th, a.loop.thread? v ≠ some th := fun th hth => by
    cases (ha.fits.tidy.sound.taskOutcome?_of_thread? hth).symm.trans ho
  .inl ⟨fun th hth => absurd hth (hnone th), fun f stack hth => absurd hth (hnone _)⟩

/-- An exchange waits for a future that is no task's, unless it is on its way out. -/
theorem Moment.Holds.isPlain_or_departing (ha : a.Holds role) (hroot : a.loop.routine? v = some root)
    (hx : root.Exchanges opening asking) (hth : a.loop.thread? v = some ⟨.waits f, stack⟩) :
    a.loop.IsPlain f ∨ Departing ⟨.waits f, stack⟩ := by
  rcases ha.exchange_waits hroot hx hth with ⟨hplain, -⟩ | ⟨hplain, -⟩ | hended | ⟨th, hth', hparting⟩
  · exact .inl hplain
  · exact .inl hplain
  · obtain ⟨o, ho⟩ := Option.isSome_iff_exists.mp hended
    cases (ha.fits.tidy.sound.taskOutcome?_of_thread? hth).symm.trans ho
  · cases hth.symm.trans hth'
    exact .inr (.parts hparting)

/-- Whoever is cancelled and stays where he is stays cancelled. -/
theorem Goes.isHeld (hg : Goes role a role' b) (ha : a.Holds role) (hb : b.Holds role') (hth : a.loop.thread? v = some th)
    (hidle : th.top.isIdle = true) (hth' : b.loop.thread? v = some th) (hheld : a.loop.IsHeld v) : b.loop.IsHeld v := by
  have hne : ∀ {x : Running Routine Frame Value Failure}, a.loop.running = some x → v ≠ x.task := fun {x} hx heq => by
    have hbusy := x.thread_isIdle
    rw [Option.some.inj ((thread?_of_running hx).symm.trans (heq ▸ hth)), hidle] at hbusy
    cases hbusy
  cases hg with
  | tick hq ht =>
    dsimp only at hth' ⊢
    generalize a.loop.tick Loop.program = m' at ht hth' ⊢
    cases ht with
    | @awakes _ t th₀ th₁ idle _ how switch =>
      refine switch.isHeld (fun heq => ?_) hheld
      subst heq
      cases switch.self.symm.trans hth'
      cases how <;> cases hidle
    | passes idle he hstate =>
      obtain ⟨task, htask, hcancel⟩ := hheld
      obtain ⟨held, htask', hor⟩ := he.task htask
      rcases hor with rfl | ⟨hc, -⟩
      · exact ⟨_, htask', hcancel⟩
      · exact hc.elim
    | ends runs switch => exact switch.isHeld (hne runs) hheld
    | begins runs _ _ _ deed => exact deed.switch.isHeld (hne runs) (deed.does.effect.isHeld hheld)
    | resumes runs _ _ _ _ deed => exact deed.switch.isHeld (hne runs) (deed.does.effect.isHeld hheld)
  | stimulus hr hs => exact Loop.Staffed.isHeld_apply ha.fits hr hs hheld

/-- **Whoever is dismissed stays so.** -/
theorem Moment.Dismissed.step (h : a.Dismissed v) (ha : a.Holds role) (hb : b.Holds role') (hg : Goes role a role' b)
    (hroot : a.loop.routine? v = some root) (hx : root.Exchanges opening asking) (hrun : (∃ th, a.loop.thread? v = some th) ∨
      ∃ o, a.loop.taskOutcome? v = some o) : b.Dismissed v := by
  rcases hrun with ⟨th, hth⟩ | ⟨o, ho⟩
  · have ht := hg.turn ha hb hth
    have hleaves : Departing th → b.Dismissed v := fun hdep =>
      (hdep.turn ht).elim .inr fun ⟨o, ho⟩ => .of_ended hb ho
    have hdoom : ∀ {th'}, b.loop.thread? v = some th' → b.loop.DoomedAt v th' →
        (∀ f, th'.top = .waits f → b.loop.isSettled f = true) → b.Dismissed v := fun hth' hat hset =>
      .inl ⟨fun th hth => by cases hth'.symm.trans hth; exact hat, Loop.stirs_of_thread? hth' hset⟩
    have hgoes : ∀ {o stack}, b.loop.thread? v = some ⟨.resumes o, stack⟩ → b.loop.DoomedAt v ⟨.resumes o, stack⟩ →
        b.Dismissed v := fun hth' hat => hdoom hth' hat fun f hf => by cases hf
    rcases h with ⟨hdoomed, hstirs⟩ | ⟨th', hth', hdep⟩
    · have hat := hdoomed th hth
      obtain ⟨top, stack⟩ := th
      cases top with
      | fresh r =>
        cases ht with
        | rests idle _ hth' => exact hdoom hth' (hg.isHeld ha hb hth idle hth' hat) fun f hf => by cases hf
        | awakes how switch =>
          have hat' : b.loop.DoomedAt v _ := hat.awakes how
          cases how with
          | begins hheld => exact absurd hat hheld
          | dropped => exact hgoes switch.self hat'
      | waits f =>
        cases id ht with
        | rests idle _ hth' =>
          rcases ha.isPlain_or_departing hroot hx hth with hplain | hdep
          · refine hdoom hth' (hat.imp (hg.isHeld ha hb hth idle hth') ((hg.keeps ha).outcome hplain)) fun g hg' => ?_
            cases hg'
            exact (hg.keeps ha).isSettled hplain (hstirs f stack hth)
          · exact hleaves hdep
        | awakes how switch =>
          have hat' : b.loop.DoomedAt v _ := hat.awakes how
          cases how with
          | resumes => exact hgoes switch.self hat'
          | interrupted => exact hgoes switch.self hat'
      | begins r => exact hat.elim
      | resumes o =>
        cases stack with
        | nil => exact .of_ended hb ht.of_ends
        | cons F stack =>
          obtain rfl : o = .cancelled := hat.resolve_right fun h => by cases h
          obtain ⟨-, -, called, _, serves, -, deed, -⟩ := ht.of_resumes
          obtain ⟨-, hth'⟩ := ht.resumed (Prod.eta _).symm
          cases hroot.symm.trans deed.made
          rcases deed.stacked.resume_cancelled serves hx a.loop with hdone | ⟨l, e, hcall, rfl⟩ | ⟨hdrives, hnot⟩
          · rw [hdone] at hth'
            exact hgoes hth' (.inl rfl)
          · rw [hcall] at hth'
            exact .inr ⟨_, hth', .closes l e⟩
          · obtain ⟨e, hsuffix⟩ := deed.stacked.releasing_suffix hx (deed.stacked.releasing_mem hx hdrives hnot)
            exact hleaves (.parts (.stops (hsuffix.trans (List.suffix_cons _ _))))
    · cases hth.symm.trans hth'
      exact hleaves hdep
  · exact .of_ended hb (hg.ended ha hb ho)

/-- **Whoever is cancelled from outside is dismissed.** -/
theorem Moment.Holds.dismissed_of_stimulus (ha : a.Holds role) (hr : a.loop.running = none)
    (hs : Stimulus.Admissible a.held a.loop (.cancel v)) (hroot : a.loop.routine? v = some root) (hx : root.Exchanges opening asking)
    (hrun : (∃ th, a.loop.thread? v = some th) ∨ ∃ o, a.loop.taskOutcome? v = some o) : (a.after (.cancel v)).Dismissed v := by
  have hg : Goes role a role (a.after (.cancel v)) := .stimulus hr hs
  have hb' := ha.after hr hs
  by_cases hdep : ∃ th, a.loop.thread? v = some th ∧ Departing th
  · exact Moment.Dismissed.step (.inr hdep) ha hb' hg hroot hx hrun
  · obtain ⟨task, htask, -⟩ := Option.map_eq_some_iff.mp hroot
    have hlt := (Array.getElem?_eq_some_iff.mp htask).1
    have hidle : ∀ x, a.loop.running = some x → x.task ≠ v := fun x hx => by cases hr.symm.trans hx
    have hplain : ∀ {f stack}, a.loop.thread? v = some ⟨.waits f, stack⟩ → a.loop.IsPlain f := fun hth =>
      (ha.isPlain_or_departing hroot hx hth).resolve_right fun h => hdep ⟨_, hth, h⟩
    exact .inl ⟨Loop.doomed_of_cancelTask ha.fits.tidy.sound hlt hidle hplain,
      Loop.stirs_of_cancelTask ha.fits.tidy.sound hlt hidle hplain⟩

/-- **Whoever is cancelled by another task is dismissed.** -/
theorem Goes.dismissed_of_cancel (hg : Goes role a role' b) (ha : a.Holds role) (hb : b.Holds role')
    (hr : a.loop.running = some (.begin t (.cancelAndWait v) stack)) (hroot : a.loop.routine? v = some root)
    (hx : root.Exchanges opening asking)
    (hrun : (∃ th, a.loop.thread? v = some th) ∨ ∃ o, a.loop.taskOutcome? v = some o) : b.Dismissed v := by
  by_cases hdep : ∃ th, a.loop.thread? v = some th ∧ Departing th
  · exact Moment.Dismissed.step (.inr hdep) ha hb hg hroot hx hrun
  have hne : v ≠ t := by
    rintro rfl
    -- whoever cancels others stops a transport, if he is an exchange
    obtain ⟨_, hroot', hfits⟩ := ha.fits.threads (thread?_of_running hr)
    cases hroot.symm.trans hroot'
    cases hfits with
    | begins _ hstands hstack =>
      cases hstands
      obtain ⟨e, hsuffix⟩ := hstack.releasing_suffix hx (hstack.releasing_mem hx rfl fun t h => by cases h)
      exact hdep ⟨_, thread?_of_running hr, .parts (.stops hsuffix)⟩
  obtain ⟨-, -, called, root', -, -, hd, hloop⟩ := (hg.turn ha hb (thread?_of_running hr)).of_begins
  obtain ⟨hnew, hrole⟩ := Loop.Aside.future (K := fun _ => True) (S := fun _ => True) ha.fits.tidy
  have hcall := hnew.trans (Loop.Aside.addCallback (K := fun _ => True) (S := fun _ => True) hnew.tidy hrole (a.loop.futureOf v))
  have hext := hcall.effect.extends
  obtain ⟨task, htask, -⟩ := Option.map_eq_some_iff.mp hroot
  have hlt := (Array.getElem?_eq_some_iff.mp htask).1
  have hplain : ∀ {f s}, a.loop.thread? v = some ⟨.waits f, s⟩ → a.loop.IsPlain f := fun hth =>
    (ha.isPlain_or_departing hroot hx hth).resolve_right fun h => hdep ⟨_, hth, h⟩
  have hidle : ∀ x, (a.loop.future.1.addCallback (a.loop.futureOf v) (.release a.loop.futures.size)).running = some x → x.task ≠ v := by
    intro x hx heq
    cases (hext.running.symm.trans hx).symm.trans hr
    exact hne heq.symm
  have hplain' : ∀ {f s}, (a.loop.future.1.addCallback (a.loop.futureOf v) (.release a.loop.futures.size)).thread? v =
      some ⟨.waits f, s⟩ → (a.loop.future.1.addCallback (a.loop.futureOf v) (.release a.loop.futures.size)).IsPlain f := fun hth =>
    hext.owner (hplain ((hext.thread? hcall.tidy.sound.owned hlt).symm.trans hth))
  have hlt' := Nat.lt_of_lt_of_le hlt hext.size
  have hdoomed : (Loop.begin (.cancelAndWait v) a.loop).1.Doomed v := Loop.doomed_of_cancelTask hcall.tidy.sound hlt' hidle hplain'
  have hstirs : (Loop.begin (.cancelAndWait v) a.loop).1.Stirs v := Loop.stirs_of_cancelTask hcall.tidy.sound hlt' hidle hplain'
  have hbegin := hd.does.effect.extends
  have hplain'' : ∀ {f s}, (Loop.begin (.cancelAndWait v) a.loop).1.thread? v = some ⟨.waits f, s⟩ →
      (Loop.begin (.cancelAndWait v) a.loop).1.IsPlain f := fun hth =>
    hbegin.owner (hplain ((hbegin.thread? hd.does.tidy.sound.owned hlt).symm.trans hth))
  rw [Moment.Dismissed, hloop]
  exact .inl ⟨hdoomed.switch hd.switch hne hplain'', hstirs.switch hd.switch hne hplain''⟩

/-- When nothing can go on, whoever is dismissed is on his way out, or has ended. -/
theorem Moment.Dismissed.departing_of_quiet (h : a.Dismissed v) (ha : a.Holds role) (hq : a.loop.isQuiet = true)
    (hth : a.loop.thread? v = some th) : Departing th := by
  rcases h with ⟨-, hstirs⟩ | ⟨th', hth', hdep⟩
  · obtain ⟨f, stack, rfl, hun⟩ := ha.fits.tidy.sound.waits_of_quiet hq hth
    cases (hstirs f stack hth).symm.trans hun
  · cases hth.symm.trans hth'
    exact hdep

/-- Whoever goes on with a value to send his requests is not dismissed. -/
theorem Moment.Holds.not_dismissed_of_introducing (ha : a.Holds role) (hth : a.loop.thread? v =
      some ⟨.resumes (.value x), .introducing l opening asking :: stack⟩)
    (hroot : a.loop.routine? v = some root) {o q : Request} (hx : root.Exchanges o q) : ¬ a.Dismissed v := by
  have hnil : stack = [] := by
    obtain ⟨_, hroot', hfits⟩ := ha.fits.threads hth
    cases hroot.symm.trans hroot'
    cases hfits with
    | resumes hs _ _ hstack =>
      cases hs with
      | introducing hx' => exact hstack.nil_of_exchanges hx hx'
  rintro (⟨hdoomed, -⟩ | ⟨th, hth', hdep⟩)
  · rcases hdoomed _ hth with h | h <;> cases h
  · cases hth.symm.trans hth'
    exact hdep.not_introducing hnil

end goes

/-- Nobody cancels a task that is not there yet. -/
theorem IsRun.not_cancelled_of_unborn {a : Moment} {past : List Moment} {u : TaskId} (h : IsRun (a :: past))
    (hn : a.loop.routine? u = none) : u ∉ a.cancelled := by
  refine (h.induction (P := fun a _ => ∀ u, a.loop.routine? u = none → u ∉ a.cancelled) (fun _ _ _ h => by cases h)
    fun {_ _ a b _} ha _ hg hp u hn hmem => ?_).2 u hn
  have hn' : a.loop.routine? u = none := Option.eq_none_iff_forall_ne_some.mpr fun r hr => by
    cases ((hg.keeps ha).routine hr).symm.trans hn
  cases hg with
  | tick => exact hp u hn' hmem
  | @stimulus s _ hs =>
    cases s with
    | cancel t =>
      rcases List.mem_append.mp hmem with hold | hnew
      · exact hp u hn' hold
      · rw [List.mem_singleton.mp hnew] at hn'
        obtain ⟨r, hr, -⟩ := hs
        cases hn'.symm.trans hr
    | _ => exact hp u hn' hmem

/-- **An exchange that callers have cancelled is dismissed**, or has ended. -/
theorem IsRun.dismissed_of_cancelled {a : Moment} {past : List Moment} {v : TaskId} {root : Routine} {opening asking : Request}
    (h : IsRun (a :: past)) (hroot : a.loop.routine? v = some root) (hx : root.Exchanges opening asking) (hc : v ∈ a.cancelled) :
    a.Dismissed v := by
  induction past generalizing a with
  | nil =>
    cases h with
    | new hm => cases hm.isEmpty.routine?.symm.trans hroot
  | cons b past ih =>
    obtain ⟨hpast, role, role', hholds, hholds', hg⟩ := h.lastStep
    have hkeeps := hg.keeps hholds
    have hold : v ∈ b.cancelled → a.Dismissed v := fun hmem => by
      cases hbefore : b.loop.routine? v with
      | none => exact absurd hmem (hpast.not_cancelled_of_unborn hbefore)
      | some r =>
        cases (hkeeps.routine hbefore).symm.trans hroot
        exact (ih hpast hbefore hmem).step hholds hholds' hg hbefore hx (hpast.thread_or_ended hbefore)
    cases id hg with
    | tick => exact hold hc
    | @stimulus s hr hs =>
      cases s with
      | cancel t =>
        rcases List.mem_append.mp hc with hmem | hnew
        · exact hold hmem
        · obtain rfl := List.mem_singleton.mp hnew
          obtain ⟨r, hbefore, -⟩ := id hs
          cases (hkeeps.routine hbefore).symm.trans hroot
          exact hholds.dismissed_of_stimulus hr hs hbefore hx (hpast.thread_or_ended hbefore)
      | _ => exact hold hc

end DiagnosticsClient
