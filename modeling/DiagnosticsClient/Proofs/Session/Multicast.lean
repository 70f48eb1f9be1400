import DiagnosticsClient.Proofs.Session.Receipts
/-
Every listener gets every message that comes while it is registered.

The history of a listener is a function of the moments of a run: what its callers
were handed, what was received while it was registered, and the ends it was given
(`handed`, `meant`, `ends`). Each step adds to these what it pours (`Pours`), so
by induction over the run nothing is lost, doubled or replayed, whatever is
cancelled on the way (`multicast`).

A listener that is given its end is spent, and so is one that leaves: neither is
registered again. So there is one end at most, it is the last that is put into
the queue, and who leaves before it gets none.
-/
namespace DiagnosticsClient

open Async Async.Machine

/-- The message of a delivery. -/
def Delivery.message? : Delivery → Option Message
  | .message m => some m
  | .ended _ => none

section history

variable (l : ListenerId)

/-- What the calls for the next message of a listener went on with, in the order in which they were completed. -/
def taken : List Moment → List Delivery
  | [] => []
  | a :: past => taken past ++ a.loop.receipts l

/-- The messages that completed calls for the next message of a listener returned, in this order. -/
def handed (moments : List Moment) : List Message := (taken l moments).filterMap Delivery.message?

/-- The messages that were received while a listener was registered, in order. -/
def meant : List Moment → List Message
  | b :: a :: past => meant (a :: past) ++ if l ∈ a.loop.state.registered then Loop.news a.loop b.loop else []
  | _ => []

/-- The ends that came while a listener was registered, in order. -/
def ends : List Moment → List (Option ServerError)
  | b :: a :: past =>
    ends (a :: past) ++ if l ∈ a.loop.state.registered then (Loop.farewell a.loop b.loop).toList else []
  | _ => []

end history

/-- A listener is about to leave: whoever closes it has got the lock. -/
def Moment.Leaves (a : Moment) (l : ListenerId) : Prop :=
  l ∈ a.loop.state.registered ∧ ∃ t v stack, a.loop.running = some (.resume t (.value v) (.leaving l :: stack))

variable {role role' : FutureId → Role} {a b c : Moment} {past newer older : List Moment} {l : ListenerId}

/-! ## The steps -/

/-- Every step pours. -/
theorem Goes.pours (hg : Goes role a role' b) (h : a.Holds role) : Loop.Pours a.loop b.loop := by
  cases hg with
  | tick hq ht => exact ht.pours h.fits h.allotted
  | stimulus hr ha => exact Loop.apply_pours h.fits h.allotted hr ha

/-- A listener that is spent is. -/
abbrev Moment.Spends (a : Moment) (l : ListenerId) : Prop := Spent (a.loop.view Thread.right) a.loop.state l

/-- Whoever was given an end is spent. -/
theorem spends_of_farewell {e : Option ServerError} (hg : Goes role a role' b) (h : a.Holds role) (h' : b.Holds role')
    (hl : l ∈ a.loop.state.registered) (he : Loop.farewell a.loop b.loop = some e) : b.Spends l := by
  refine h.allotted.spent hl (hg.shifts h h') ?_
  rw [(hg.pours h).registered (by rw [he]; rfl)]
  exact List.not_mem_nil

/-- Who leaves is not registered any more, and is given nothing. -/
theorem Goes.leaves (hg : Goes role a role' b) (h : a.Holds role) (hl : a.Leaves l) :
    l ∉ b.loop.state.registered ∧ Loop.farewell a.loop b.loop = none := by
  obtain ⟨hmem, t, v, stack, hrun⟩ := hl
  cases hg with
  | tick hq ht => exact ht.leaving h.allotted hmem hrun
  | stimulus hr ha =>
    rw [hr] at hrun
    cases hrun

/-! ## The history of a listener -/

/-- What was given to a listener is what it was meant to get, and then its end. -/
structure Accounted (l : ListenerId) (a : Moment) (past : List Moment) : Prop where
  delivered : a.loop.state.delivered l = (meant l (a :: past)).map .message ++ (ends l (a :: past)).map .ended
  taken : taken l (a :: past) ++ (a.loop.state.listener l).queue = a.loop.state.delivered l
  once : (ends l (a :: past)).length ≤ 1
  spent : ends l (a :: past) ≠ [] → a.Spends l

theorem Accounted.new {m : Loop} (h : m.IsNew) (l : ListenerId) : Accounted l { loop := m } [] := by
  have hnone : m.receipts l = [] := Loop.receipts_of_not_running h.isEmpty.running
  obtain ⟨s, rfl⟩ := h
  exact ⟨rfl, by simp [DiagnosticsClient.taken, hnone, State.listener, State.delivered, State.log], Nat.zero_le _,
    fun hne => absurd rfl hne⟩

/-- Who is registered was given no end before. -/
theorem Accounted.ends_cons_of_registered (hc : Accounted l a past) (hl : l ∈ a.loop.state.registered) :
    ends l (b :: a :: past) = (Loop.farewell a.loop b.loop).toList := by
  have hnone : ends l (a :: past) = [] := Decidable.byContradiction fun hne => (hc.spent hne).gone hl
  rw [ends, if_pos hl, hnone, List.nil_append]

/-- **The history of a listener grows by what is poured.** -/
theorem Accounted.step (hc : Accounted l a past) (h : a.Holds role) (h' : b.Holds role') (hg : Goes role a role' b) :
    Accounted l b (a :: past) := by
  have hpours := hg.pours h
  have htaken : DiagnosticsClient.taken l (b :: a :: past) ++ (b.loop.state.listener l).queue = b.loop.state.delivered l := by
    rw [DiagnosticsClient.taken, List.append_assoc, hpours.queue, hpours.delivered, ← hc.taken, List.append_assoc]
  by_cases hl : l ∈ a.loop.state.registered
  · have hnone : ends l (a :: past) = [] := Decidable.byContradiction fun hne => (hc.spent hne).gone hl
    refine ⟨?_, htaken, ?_, fun hne => ?_⟩
    · rw [hpours.delivered, hc.delivered, hc.ends_cons_of_registered hl, meant, hnone]
      simp [Loop.gift, hl]
    · rw [hc.ends_cons_of_registered hl]
      cases Loop.farewell a.loop b.loop with
      | none => exact Nat.zero_le _
      | some e => exact Nat.le_refl _
    · rw [hc.ends_cons_of_registered hl] at hne
      cases he : Loop.farewell a.loop b.loop with
      | none => rw [he] at hne; exact absurd rfl hne
      | some e => exact spends_of_farewell hg h h' hl he
  · have hends : ends l (b :: a :: past) = ends l (a :: past) := by rw [ends, if_neg hl, List.append_nil]
    refine ⟨?_, htaken, hends ▸ hc.once, fun hne => (hc.spent (hends ▸ hne)).shift (hg.shifts h h')⟩
    rw [hpours.delivered, hc.delivered, hends, meant]
    simp [Loop.gift, hl]

theorem IsRun.accounted (h : IsRun (a :: past)) (l : ListenerId) : Accounted l a past :=
  (h.induction (P := Accounted l) (fun hm => .new hm l) fun h h' hg hc => hc.step h h' hg).2

/-- A listener that is spent is given no end. -/
theorem ends_of_spends (hs : b.Spends l) (h : IsRun (a :: past)) (heq : a :: past = newer ++ b :: older) :
    a.Spends l ∧ ends l (a :: past) = ends l (b :: older) := by
  induction newer generalizing a past with
  | nil =>
    cases heq
    exact ⟨hs, rfl⟩
  | cons c newer ih =>
    obtain ⟨rfl, hpast⟩ := List.cons.inj heq
    cases past with
    | nil => simp at hpast
    | cons d past =>
      obtain ⟨hd, role, role', hholds, hholds', hgoes⟩ := h.lastStep
      obtain ⟨hspent, hends⟩ := ih hd hpast
      refine ⟨hspent.shift (hgoes.shifts hholds hholds'), ?_⟩
      rw [ends, if_neg hspent.gone, List.append_nil, hends]

/-- A listener that is let go is given its end in that step or never. -/
theorem ends_of_gone (h : IsRun (a :: past)) (heq : a :: past = newer ++ c :: b :: older)
    (hl : l ∈ b.loop.state.registered) (hl' : l ∉ c.loop.state.registered) :
    ends l (a :: past) = (Loop.farewell b.loop c.loop).toList := by
  have hc : IsRun (c :: b :: older) := IsRun.upTo (heq ▸ h)
  obtain ⟨hb, role, role', hholds, hholds', hgoes⟩ := hc.lastStep
  have hspent : c.Spends l := hholds.allotted.spent hl (hgoes.shifts hholds hholds') hl'
  rw [(ends_of_spends hspent h heq).2, (hb.accounted l).ends_cons_of_registered hl]

/-- **Multicast without loss, doubles or replay.** At every moment of a run, the messages that completed calls for the
next message of a listener returned, and then those in its queue, are the messages that were received while it was
registered, in order. What was put into its queue besides is an end at most, after all of them. Whoever is registered
when the session is closed or its transport reports its end is given exactly one end, with the error of that end; who
leaves by closing the listener is given none. -/
theorem multicast (h : IsRun (a :: past)) (l : ListenerId) :
    handed l (a :: past) ++ (a.loop.state.listener l).queue.filterMap Delivery.message? = meant l (a :: past) ∧
    taken l (a :: past) ++ (a.loop.state.listener l).queue =
      (meant l (a :: past)).map .message ++ (ends l (a :: past)).map .ended ∧
    (ends l (a :: past)).length ≤ 1 ∧
    (∀ newer c b older, a :: past = newer ++ c :: b :: older → l ∈ b.loop.state.registered →
      (∀ e, Loop.farewell b.loop c.loop = some e → ends l (a :: past) = [e]) ∧
      (b.Leaves l → ends l (a :: past) = [])) := by
  have hc := h.accounted l
  have hall := hc.taken.trans hc.delivered
  refine ⟨?_, hall, hc.once, fun newer c b older heq hl => ?_⟩
  · rw [handed, ← List.filterMap_append, hall]
    simp [List.filterMap_append, List.filterMap_map, Function.comp_def, Delivery.message?]
  · obtain ⟨hb, role, role', hholds, hholds', hgoes⟩ := (IsRun.upTo (heq ▸ h)).lastStep
    constructor
    · intro e he
      have hgone : l ∉ c.loop.state.registered := by
        rw [(hgoes.pours hholds).registered (by rw [he]; rfl)]
        exact List.not_mem_nil
      rw [ends_of_gone h heq hl hgone, he]
      rfl
    · intro hleaves
      obtain ⟨hgone, hnone⟩ := hgoes.leaves hholds hleaves
      rw [ends_of_gone h heq hl hgone, hnone]
      rfl

/-- A session whose only transport passes an event on as soon as it is started. -/
def greetedSession : Loop :=
  let greeting : Json := .obj [(lit "type", .str Event.typeName), (lit "event", .str (lit "ready"))]
  { state := { medium := .rehearsals, rehearsals := [{ greeting := some greeting }] } }

/-- The same session once somebody has opened a listener. -/
def listeningSession : Loop := (Loop.stimulate 40 (Loop.stimulate 0 greetedSession .listen).1 (.ask (.openListener 0))).1

/-- The same session once it has been closed. -/
def closedSession : Loop := (Loop.stimulate 40 listeningSession (.ask .closeSession)).1

/-- The session that was closed is at the end of a run. -/
theorem isRun_closedSession : ∃ a past, IsRun (a :: past) ∧ a.loop = closedSession := by
  obtain ⟨past, hlisten⟩ := (IsRun.new (m := greetedSession) ⟨greetedSession.state, rfl⟩).stimulate (s := .listen) rfl trivial 0
  obtain ⟨past', hopen⟩ := hlisten.stimulate (s := .ask (.openListener 0)) (by rfl)
    ⟨rfl, fun l hl => by cases hl; exact List.mem_singleton.mpr rfl⟩ 40
  have hrunning : listeningSession.running = none := by rfl
  obtain ⟨past'', hclose⟩ := hopen.stimulate (s := .ask .closeSession) hrunning ⟨rfl, fun l hl => by cases hl⟩ 40
  exact ⟨_, past'', hclose, rfl⟩

/-- The event that came before the session was closed is still there, and the end after it. -/
theorem multicast_until_closed : ∃ a past e, IsRun (a :: past) ∧ a.loop = closedSession ∧
    (a.loop.state.listener 0).queue = [.message (.event e), .ended none] ∧
    handed 0 (a :: past) ++ [.event e] = meant 0 (a :: past) ∧ (ends 0 (a :: past)).length ≤ 1 := by
  obtain ⟨a, past, hrun, hloop⟩ := isRun_closedSession
  obtain ⟨hhanded, -, honce, -⟩ := multicast hrun 0
  have hqueue : (closedSession.state.listener 0).queue =
      [.message (.event ⟨0, lit "ready", .null, []⟩), .ended none] := by rfl
  rw [← hloop] at hqueue
  rw [hqueue] at hhanded
  exact ⟨a, past, _, hrun, hloop, hqueue, hhanded, honce⟩

end DiagnosticsClient
