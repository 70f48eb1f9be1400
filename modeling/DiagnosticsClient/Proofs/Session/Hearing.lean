import DiagnosticsClient.Proofs.Session.Asides
/-
What a session hears, and what its listeners are given for it.

A transport passes values on and reports its end. `Hears` says what the session
then does: the messages among the values are given to every registered
listener, in order, and the end of the current transport detaches them all.
Nothing else about the listeners changes, and the lock does not.

A step of a routine that reads or starts a transport hears some messages and
then perhaps an end, in this order (`Hears.trans`, `hears_report`).
-/
namespace DiagnosticsClient

open Async Async.Machine

namespace State

/-- The messages received, in order. -/
def received (s : State) : List Message :=
  s.log.filterMap fun
    | .received _ v => (Message.parse v).toOption
    | _ => none

/-- What a listener was given, in order. -/
def delivered (s : State) (l : ListenerId) : List Delivery :=
  s.log.filterMap fun
    | .delivered l' d => if l' = l then some d else none
    | _ => none

/-- The ends reported, in order. -/
def reports (s : State) : List (TransportId × Option ServerError) :=
  s.log.filterMap fun
    | .reported t e => some (t, e)
    | _ => none

end State

namespace Loop

variable {role : FutureId → Role} {K : TaskId → Prop} {S : Routine → Prop} {m m' m'' : Loop} {f : FutureId}
  {l l' : ListenerId} {ds ds' : List Delivery}

/-! ## What a listener is given -/

/-- Whoever waits for a listener still does or is woken; as many were woken as things were put into its queue, unless all
were. -/
structure Served (l : ListenerId) (n : Nat) (m m' : Loop) : Prop where
  kept : ∀ g ∈ (m.state.listener l).getters, m'.isSettled g = false → g ∈ (m'.state.listener l).getters
  woken : ∃ ws : List FutureId, ws.Nodup ∧
    (∀ g ∈ ws, g ∈ (m.state.listener l).getters ∧ m.isSettled g = false ∧ ∃ v, m'.outcome? g = some (.value v)) ∧
    (ws.length = n ∨ ∀ g ∈ (m'.state.listener l).getters, m'.isSettled g = true)

theorem Served.of_same (h : (m'.state.listener l).getters = (m.state.listener l).getters) : Served l 0 m m' where
  kept g hg _ := by rwa [h]
  woken := ⟨[], List.nodup_nil, fun _ hg => (by cases hg), .inl rfl⟩

theorem settled_of_outcome {g : FutureId} (h : ∀ {g : FutureId} {o : Ending}, m.outcome? g = some o → m'.outcome? g = some o)
    (hg : m.isSettled g = true) : m'.isSettled g = true := by
  obtain ⟨o, ho⟩ := isSettled_iff.mp hg
  exact isSettled_iff.mpr ⟨o, h ho⟩

theorem Served.trans {n n' : Nat} (h : Served l n m m') (h' : Served l n' m' m'')
    (hsub : ∀ g ∈ (m'.state.listener l).getters, g ∈ (m.state.listener l).getters)
    (hsub' : ∀ g ∈ (m''.state.listener l).getters, g ∈ (m'.state.listener l).getters)
    (hout : ∀ {g : FutureId} {o : Ending}, m.outcome? g = some o → m'.outcome? g = some o)
    (hout' : ∀ {g : FutureId} {o : Ending}, m'.outcome? g = some o → m''.outcome? g = some o) : Served l (n + n') m m'' where
  kept g hg hun := by
    have hun' : m'.isSettled g = false := Bool.eq_false_iff.mpr fun hset => by
      rw [settled_of_outcome hout' hset] at hun
      cases hun
    exact h'.kept g (h.kept g hg hun') hun
  woken := by
    obtain ⟨ws, hnodup, hws, hall⟩ := h.woken
    obtain ⟨ws', hnodup', hws', hall'⟩ := h'.woken
    refine ⟨ws ++ ws', List.nodup_append.mpr ⟨hnodup, hnodup', ?_⟩, fun g hg => ?_, ?_⟩
    · -- who was woken first is not woken again
      rintro g hg _ hg' rfl
      obtain ⟨-, -, v, hv⟩ := hws g hg
      obtain ⟨-, hun, -⟩ := hws' g hg'
      rw [isSettled_iff.mpr ⟨_, hv⟩] at hun
      cases hun
    · rcases List.mem_append.mp hg with hg | hg
      · obtain ⟨hmem, hun, v, hv⟩ := hws g hg
        exact ⟨hmem, hun, v, hout' hv⟩
      · obtain ⟨hmem, hun, v, hv⟩ := hws' g hg
        refine ⟨hsub g hmem, Bool.eq_false_iff.mpr fun hset => ?_, v, hv⟩
        rw [settled_of_outcome hout hset] at hun
        cases hun
    · rcases hall with hlen | hall
      · rcases hall' with hlen' | hall'
        · exact .inl (by rw [List.length_append, hlen, hlen'])
        · exact .inr hall'
      · exact .inr fun g hg => settled_of_outcome hout' (hall g (hsub' g hg))

/-- A listener was given `ds`, and nothing else happened to it. -/
structure Given (l : ListenerId) (ds : List Delivery) (m m' : Loop) : Prop where
  delivered : m'.state.delivered l = m.state.delivered l ++ ds
  opened : (m'.state.listener l).opened = (m.state.listener l).opened
  ended : (m'.state.listener l).ended = (m.state.listener l).ended
  queue : l < m.state.listeners.length → (m'.state.listener l).queue = (m.state.listener l).queue ++ ds
  same : ds = [] → m'.state.listener l = m.state.listener l
  getters : ∀ g ∈ (m'.state.listener l).getters, g ∈ (m.state.listener l).getters
  woken : l < m.state.listeners.length → ds ≠ [] → ∀ g ∈ (m.state.listener l).getters,
    (∀ g' ∈ (m.state.listener l).getters, g' ≠ g → m.isSettled g' = true) → m'.isSettled g = true
  served : Served l ds.length m m'

theorem Given.of_same (hd : m'.state.delivered l = m.state.delivered l) (h : m'.state.listener l = m.state.listener l) :
    Given l [] m m' where
  delivered := by rw [hd, List.append_nil]
  opened := by rw [h]
  ended := by rw [h]
  queue _ := by rw [h, List.append_nil]
  same _ := h
  getters g hg := by rwa [h] at hg
  woken _ hne := absurd rfl hne
  served := .of_same (by rw [h])

theorem Given.trans (h : Given l ds m m') (h' : Given l ds' m' m'')
    (hlen : m'.state.listeners.length = m.state.listeners.length)
    (hout : ∀ {g : FutureId} {o : Ending}, m.outcome? g = some o → m'.outcome? g = some o)
    (hout' : ∀ {g : FutureId} {o : Ending}, m'.outcome? g = some o → m''.outcome? g = some o) : Given l (ds ++ ds') m m'' where
  delivered := by rw [h'.delivered, h.delivered, List.append_assoc]
  opened := h'.opened.trans h.opened
  ended := h'.ended.trans h.ended
  queue hl := by rw [h'.queue (hlen ▸ hl), h.queue hl, List.append_assoc]
  same hnil := by
    obtain ⟨rfl, rfl⟩ := List.append_eq_nil_iff.mp hnil
    rw [h'.same rfl, h.same rfl]
  getters g hg := h.getters g (h'.getters g hg)
  woken hl hne g hg hall := by
    by_cases hds : ds = []
    · subst hds
      rw [← h.same rfl] at hg hall
      exact h'.woken (hlen ▸ hl) hne g hg fun g' hg' hne => settled_of_outcome hout (hall g' hg' hne)
    · exact settled_of_outcome hout' (h.woken hl hds g hg hall)
  served := by
    rw [List.length_append]
    exact h.served.trans h'.served h.getters h'.getters hout hout'

theorem delivered_record (s : State) (l : ListenerId) (e : Entry) :
    (s.record e).delivered l = s.delivered l ++
      match e with
      | .delivered l' d => if l' = l then [d] else []
      | _ => [] := by
  unfold State.delivered
  rw [State.log_record, List.filterMap_append]
  cases e with
  | delivered l' d => by_cases h : l' = l <;> simp [Entry.isHeard, h]
  | _ => simp [Entry.isHeard]

theorem listener_modifyListener (s : State) (l l' : ListenerId) (k : Listener → Listener) :
    (s.modifyListener l k).listener l' =
      if l' = l ∧ l < s.listeners.length then k (s.listener l) else s.listener l' := by
  unfold State.listener State.modifyListener
  simp only [List.getElem?_modify]
  by_cases h : l = l'
  · subst h
    rcases Nat.lt_or_ge l s.listeners.length with hlt | hge
    · simp [hlt]
    · simp [Nat.not_lt.mpr hge]
  · simp [h, Ne.symm h]

/-! ## Waking -/

theorem settled_of_effect {may : Licence Routine} {g : FutureId} (h : Effect may m m') (hg : m.isSettled g = true) :
    m'.isSettled g = true := by
  obtain ⟨o, ho⟩ := isSettled_iff.mp hg
  exact isSettled_iff.mpr ⟨o, h.extends.outcome ho⟩

/-- Of some futures the first that is not settled is woken. -/
theorem wakeNext_effect {D : ChildId → Prop} {fs : List FutureId} (h : ∀ f ∈ fs, m.HasRole role .getter f) :
    Effect (licence role D K S) m (m.wakeNext fs).1 ∧ (m.wakeNext fs).1.state = m.state ∧
      (∀ f ∈ (m.wakeNext fs).2, f ∈ fs) ∧
      ∀ g ∈ fs, (∀ g' ∈ fs, g' ≠ g → m.isSettled g' = true) → (m.wakeNext fs).1.isSettled g = true := by
  induction fs with
  | nil => exact ⟨.refl, rfl, fun f hf => hf, fun g hg => by cases hg⟩
  | cons f rest ih =>
    obtain ⟨hplain, hrole⟩ := h f List.mem_cons_self
    unfold wakeNext
    cases hset : m.isSettled f with
    | true =>
      obtain ⟨heff, hstate, hmem, hone⟩ := ih fun g hg => h g (List.mem_cons_of_mem _ hg)
      rw [if_pos rfl]
      refine ⟨heff, hstate, fun g hg => List.mem_cons_of_mem _ (hmem g hg), fun g hg hall => ?_⟩
      rcases List.mem_cons.mp hg with rfl | hg
      · exact settled_of_effect heff hset
      · exact hone g hg fun g' hg' => hall g' (List.mem_cons_of_mem _ hg')
    | false =>
      rw [if_neg (by simp)]
      refine ⟨.single (.settle _ hplain (.inr ⟨.inl hrole, rfl⟩)), settle_state, fun g hg => List.mem_cons_of_mem _ hg,
        fun g _ hall => ?_⟩
      -- nobody but the first can be the one who is not settled yet
      obtain rfl : f = g := Decidable.byContradiction fun hne => by
        rw [hall f List.mem_cons_self hne] at hset
        cases hset
      rw [isSettled_settle hplain.lt_size hset]
      simp

/-- Of some futures those that are not settled are kept, but for one that is woken, unless none is. -/
theorem wakeNext_woken {fs : List FutureId} (h : ∀ f ∈ fs, m.HasRole role .getter f) :
    (∀ g ∈ fs, (m.wakeNext fs).1.isSettled g = false → g ∈ (m.wakeNext fs).2) ∧
    ((∃ g ∈ fs, m.isSettled g = false ∧ (m.wakeNext fs).1.outcome? g = some (.value .nothing)) ∨
      ∀ g ∈ fs, m.isSettled g = true) := by
  induction fs with
  | nil => exact ⟨fun g hg => (by cases hg), .inr fun g hg => (by cases hg)⟩
  | cons f rest ih =>
    have hrest : ∀ g ∈ rest, m.HasRole role .getter g := fun g hg => h g (List.mem_cons_of_mem _ hg)
    unfold wakeNext
    cases hset : m.isSettled f with
    | true =>
      obtain ⟨hkept, hone⟩ := ih hrest
      rw [if_pos rfl]
      refine ⟨fun g hg hun => ?_, ?_⟩
      · rcases List.mem_cons.mp hg with rfl | hg
        · have heff := (wakeNext_effect (D := m.state.IsDead) (K := fun _ => True) (S := fun _ => True) hrest).1
          rw [settled_of_effect heff hset] at hun
          cases hun
        · exact hkept g hg hun
      · rcases hone with ⟨g, hg, hun, hv⟩ | hall
        · exact .inl ⟨g, List.mem_cons_of_mem _ hg, hun, hv⟩
        · refine .inr fun g hg => ?_
          rcases List.mem_cons.mp hg with rfl | hg
          · exact hset
          · exact hall g hg
    | false =>
      have hlt := (h f List.mem_cons_self).1.lt_size
      rw [if_neg (by simp)]
      refine ⟨fun g hg hun => ?_, .inl ⟨f, List.mem_cons_self, hset, ?_⟩⟩
      · rw [isSettled_settle hlt hset] at hun
        refine (List.mem_cons.mp hg).resolve_left fun heq => ?_
        simp [heq] at hun
      · have hget := Array.getElem?_eq_getElem hlt
        rw [outcome?_settle hget (by simpa [isSettled, outcome?_of_getElem? hget] using hset), if_pos rfl]

/-! ## Delivering -/

/-- Listeners were given something, and nothing else changed in the core of the session. -/
structure Delivers (role : FutureId → Role) (K : TaskId → Prop) (S : Routine → Prop)
    (given : ListenerId → List Delivery) (m m' : Loop) : Prop extends Acts role K S m m' where
  receiver : m'.state.receiver = m.state.receiver
  lock : m'.state.lock = m.state.lock
  nextSeq : m'.state.nextSeq = m.state.nextSeq
  registered : m'.state.registered = m.state.registered
  current : m'.state.current = m.state.current
  length : m'.state.listeners.length = m.state.listeners.length
  received : m'.state.received = m.state.received
  reports : m'.state.reports = m.state.reports
  given : ∀ l, Given l (given l) m m'

theorem Delivers.refl (h : m.Tidy role) : Delivers role K S (fun _ => []) m m :=
  ⟨.refl h, rfl, rfl, rfl, rfl, rfl, rfl, rfl, rfl, fun _ => .of_same rfl rfl⟩

theorem Delivers.trans {given given' : ListenerId → List Delivery} (h : Delivers role K S given m m')
    (h' : Delivers role K S given' m' m'') :
    Delivers role K S (fun l => given l ++ given' l) m m'' where
  toActs := h.toActs.trans h'.toActs
  receiver := h'.receiver.trans h.receiver
  lock := h'.lock.trans h.lock
  nextSeq := h'.nextSeq.trans h.nextSeq
  registered := h'.registered.trans h.registered
  current := h'.current.trans h.current
  length := h'.length.trans h.length
  received := h'.received.trans h.received
  reports := h'.reports.trans h.reports
  given l := (h.given l).trans (h'.given l) h.length h.effect.extends.outcome h'.effect.extends.outcome

theorem State.received_record (s : State) (e : Entry) :
    (s.record e).received = s.received ++
      match e with
      | .received _ v => (Message.parse v).toOption.toList
      | _ => [] := by
  unfold State.received
  rw [State.log_record, List.filterMap_append]
  cases e with
  | received t v => cases h : (Message.parse v).toOption <;> simp [Entry.isHeard, h]
  | _ => simp [Entry.isHeard]

theorem State.reports_record (s : State) (e : Entry) :
    (s.record e).reports = s.reports ++
      match e with
      | .reported t error => [(t, error)]
      | _ => [] := by
  unfold State.reports
  rw [State.log_record, List.filterMap_append]
  cases e <;> simp [Entry.isHeard]

theorem State.modifyListener_modifyListener (s : State) (l : ListenerId) (f g : Listener → Listener) :
    (s.modifyListener l f).modifyListener l g = s.modifyListener l (fun x => g (f x)) := by
  unfold State.modifyListener
  simp only [List.modify_modify_eq]
  rfl

/-- What delivering something does to what is shared; `getters` are those who still wait. -/
theorem deliver_state {D : ChildId → Prop} (h : m.Tidy role) (l : ListenerId) (d : Delivery) :
    ∃ getters : List FutureId, Effect (licence role D K S) m (m.deliver l d) ∧
      (m.deliver l d).state = (m.state.record (.delivered l d)).modifyListener l
        (fun listener => { listener with queue := listener.queue ++ [d], getters }) ∧
      (∀ f ∈ getters, f ∈ (m.state.listener l).getters) ∧
      ∀ g ∈ (m.state.listener l).getters, (∀ g' ∈ (m.state.listener l).getters, g' ≠ g → m.isSettled g' = true) →
        (m.deliver l d).isSettled g = true := by
  let m₁ : Loop := (m.record (.delivered l d)).modifyListener l fun listener => { listener with queue := listener.queue ++ [d] }
  have hput : Effect (licence role D K S) m m₁ := .tail (.single (.share m _)) (.share _ m₁.state)
  have hsame : (m₁.state.listener l).getters = (m.state.listener l).getters := by
    change (State.listener (State.modifyListener _ l _) l).getters = _
    rw [listener_modifyListener]
    split <;> rfl
  have hrole : ∀ f ∈ (m₁.state.listener l).getters, m₁.HasRole role .getter f := by
    intro f hf
    rw [hsame] at hf
    refine HasRole.extends (m := m) ?_ hput.extends
    unfold State.listener at hf
    cases hl : m.state.listeners[l]? with
    | none => simp [hl] at hf
    | some listener =>
      rw [hl] at hf
      exact h.names.getters listener (List.mem_of_getElem? hl) f hf
  obtain ⟨hwake, hstate, hmem, hone⟩ := wakeNext_effect (D := D) (K := K) (S := S) hrole
  have hdeliver : m.deliver l d = (m₁.wakeNext (m₁.state.listener l).getters).1.modifyListener l
      fun listener => { listener with getters := (m₁.wakeNext (m₁.state.listener l).getters).2 } := rfl
  refine ⟨(m₁.wakeNext (m₁.state.listener l).getters).2, ?_, ?_, ?_, ?_⟩
  · exact (hput.trans hwake).tail (.share _ _)
  · rw [hdeliver]
    change State.modifyListener (m₁.wakeNext (m₁.state.listener l).getters).1.state l _ = _
    rw [hstate]
    exact State.modifyListener_modifyListener _ l _ _
  · intro f hf
    have hold := hmem f hf
    rwa [hsame] at hold
  · intro g hg hall
    rw [← hsame] at hg hall
    exact hone g hg hall

/-- Whoever waits for a listener is kept when the next one of them is woken. -/
theorem wakeGetter_served (h : ∀ f ∈ (m.state.listener l).getters, m.HasRole role .getter f) : Served l 1 m (m.wakeGetter l) := by
  obtain ⟨heff, hstate, hmem, -⟩ := wakeNext_effect (D := m.state.IsDead) (K := fun _ => True) (S := fun _ => True) h
  obtain ⟨hkept, hone⟩ := wakeNext_woken h
  have hgetters : ((m.wakeGetter l).state.listener l).getters =
      if l < m.state.listeners.length then (m.wakeNext (m.state.listener l).getters).2 else [] := by
    have hwake : (m.wakeGetter l).state = (m.wakeNext (m.state.listener l).getters).1.state.modifyListener l
        fun listener => { listener with getters := (m.wakeNext (m.state.listener l).getters).2 } := rfl
    rw [hwake, listener_modifyListener, hstate]
    by_cases hl : l < m.state.listeners.length
    · rw [if_pos ⟨rfl, hl⟩, if_pos hl]
    · rw [if_neg fun hand => hl hand.2, if_neg hl, State.listener, List.getElem?_eq_none (Nat.le_of_not_lt hl)]
      rfl
  by_cases hl : l < m.state.listeners.length
  · rw [if_pos hl] at hgetters
    refine ⟨fun g hg hun => ?_, ?_⟩
    · rw [hgetters]
      exact hkept g hg hun
    · rcases hone with ⟨g, hg, hun, hv⟩ | hall
      · refine ⟨[g], by simp, fun g' hg' => ?_, .inl rfl⟩
        obtain rfl := List.mem_singleton.mp hg'
        exact ⟨hg, hun, .nothing, hv⟩
      · refine ⟨[], List.nodup_nil, fun _ hg => (by cases hg), .inr fun g hg => ?_⟩
        rw [hgetters] at hg
        have hset := settled_of_effect heff (hall g (hmem g hg))
        exact hset
  · rw [if_neg hl] at hgetters
    have hnone : (m.state.listener l).getters = [] := by
      rw [State.listener, List.getElem?_eq_none (Nat.le_of_not_lt hl)]
      rfl
    refine ⟨fun g hg _ => ?_, [], List.nodup_nil, fun _ hg => (by cases hg), .inr fun g hg => ?_⟩
    · rw [hnone] at hg
      cases hg
    · rw [hgetters] at hg
      cases hg

/-- Delivering something wakes one of those who wait for it. -/
theorem deliver_served (h : m.Tidy role) (l : ListenerId) (d : Delivery) : Served l 1 m (m.deliver l d) := by
  let m₁ : Loop := (m.record (.delivered l d)).modifyListener l fun listener => { listener with queue := listener.queue ++ [d] }
  have hsame : (m₁.state.listener l).getters = (m.state.listener l).getters := by
    change (State.listener (State.modifyListener _ l _) l).getters = _
    rw [listener_modifyListener]
    split <;> rfl
  have hrole : ∀ f ∈ (m₁.state.listener l).getters, m₁.HasRole role .getter f := by
    intro f hf
    rw [hsame] at hf
    unfold State.listener at hf
    cases hl : m.state.listeners[l]? with
    | none => simp [hl] at hf
    | some listener =>
      rw [hl] at hf
      exact h.names.getters listener (List.mem_of_getElem? hl) f hf
  obtain ⟨hkept, hwoken⟩ := wakeGetter_served hrole
  rw [hsame] at hkept hwoken
  exact ⟨hkept, hwoken⟩

/-- Delivering something gives it to one listener. -/
theorem deliver_delivers (h : m.Tidy role) (l : ListenerId) (d : Delivery) :
    Delivers role K S (fun l' => if l' = l then [d] else []) m (m.deliver l d) := by
  obtain ⟨getters, heff, hstate, hmem, hone⟩ := deliver_state (D := m.state.IsDead) (K := K) (S := S) h l d
  have hdead : ∀ {c}, m.state.IsDead c → (m.deliver l d).state.IsDead c := fun hc => by rw [hstate]; exact hc
  have hlistener : ∀ l', (m.deliver l d).state.listener l' =
      if l' = l ∧ l < m.state.listeners.length then
        { m.state.listener l with queue := (m.state.listener l).queue ++ [d], getters }
      else m.state.listener l' := by
    intro l'
    rw [hstate, listener_modifyListener]
    rfl
  have hdelivered : ∀ l', (m.deliver l d).state.delivered l' = m.state.delivered l' ++ if l = l' then [d] else [] := by
    intro l'
    rw [hstate]
    exact delivered_record m.state l' (.delivered l d)
  refine ⟨⟨heff.mono (licence_covers hdead), hdead, ?_⟩, ?_, ?_, ?_, ?_, ?_, ?_, ?_, ?_, fun l' => ?_⟩
  · refine h.effect (heff.mono permit_covers_licence) hdead hdead (names_extends ?_ heff.extends)
    rw [hstate]
    refine State.Names.modifyListener (s := m.state.record (.delivered l d)) ⟨h.names.transports, h.names.children, h.names.lock, h.names.getters⟩ l ?_
    intro listener hget hall f hf
    refine hall f ?_
    have hf' := hmem f hf
    unfold State.listener at hf'
    change m.state.listeners[l]? = some listener at hget
    rwa [hget] at hf'
  · rw [hstate]; rfl
  · rw [hstate]; rfl
  · rw [hstate]; rfl
  · rw [hstate]; rfl
  · rw [hstate]; rfl
  · rw [hstate]; exact List.length_modify _ _ _
  · rw [hstate]
    exact (State.received_record m.state (.delivered l d)).trans (List.append_nil _)
  · rw [hstate]
    exact (State.reports_record m.state (.delivered l d)).trans (List.append_nil _)
  · by_cases hl : l' = l
    · subst hl
      rw [if_pos rfl]
      refine ⟨by rw [hdelivered, if_pos rfl], ?_, ?_, fun hlt => ?_, fun hnil => (by cases hnil), fun g hg => ?_, fun _ _ => hone,
        deliver_served h l' d⟩
      · rw [hlistener]
        split <;> rfl
      · rw [hlistener]
        split <;> rfl
      · rw [hlistener, if_pos ⟨rfl, hlt⟩]
      · rw [hlistener] at hg
        split at hg
        · exact hmem g hg
        · exact hg
    · rw [if_neg hl]
      refine .of_same ?_ ?_
      · rw [hdelivered, if_neg (Ne.symm hl), List.append_nil]
      · rw [hlistener, if_neg fun hand => hl hand.1]

/-- Delivering something to several listeners gives it to each, as often as it is named. -/
theorem deliverAll_delivers (h : m.Tidy role) (ls : List ListenerId) (d : Delivery) :
    Delivers role K S (fun l => List.replicate (ls.count l) d) m (m.deliverAll ls d) := by
  induction ls generalizing m with
  | nil => exact .refl h
  | cons l ls ih =>
    have hone := deliver_delivers (K := K) (S := S) h l d
    have hall := hone.trans (ih hone.tidy)
    have hgiven : (fun l' => List.replicate ((l :: ls).count l') d) =
        fun l' => (if l' = l then [d] else []) ++ List.replicate (ls.count l') d := by
      funext l'
      by_cases hl : l = l'
      · subst hl
        simp [List.count_cons_self, List.replicate_succ]
      · simp [List.count_cons_of_ne hl, Ne.symm hl]
    rw [hgiven]
    exact hall

theorem State.log_eq_of_core {s s' : State} (h : s'.core = s.core) : s'.log = s.log := congrArg Core.log h

/-- What is done aside delivers nothing. -/
theorem Aside.delivers (h : Aside role K S m m') : Delivers role K S (fun _ => []) m m' := by
  have hlog := State.log_eq_of_core h.core
  refine ⟨h.toActs, congrArg Core.receiver h.core, congrArg Core.lock h.core, congrArg Core.nextSeq h.core,
    congrArg Core.registered h.core, congrArg Core.current h.core, congrArg (·.listeners.length) h.core, ?_, ?_,
    fun l => .of_same ?_ ?_⟩
  · simp only [State.received, hlog]
  · simp only [State.reports, hlog]
  · simp only [State.delivered, hlog]
  · have hlist : m'.state.listeners = m.state.listeners := congrArg Core.listeners h.core
    simp only [State.listener, hlist]

/-! ## Hearing -/

/-- What each of the registered listeners is given when messages are heard, and then perhaps an end. -/
def gifts (registered : List ListenerId) (ms : List Message) (e : Option (Option ServerError)) (l : ListenerId) :
    List Delivery :=
  (ms.map Delivery.message ++ (e.map Delivery.ended).toList).flatMap fun d => List.replicate (registered.count l) d

/-- The session heard messages, and then perhaps the end of its transport; nothing else changed in its core. -/
structure Heard (ms : List Message) (e : Option (Option ServerError)) (m m' : Loop) : Prop where
  receiver : m'.state.receiver = m.state.receiver
  lock : m'.state.lock = m.state.lock
  nextSeq : m'.state.nextSeq = m.state.nextSeq
  registered : m'.state.registered = if e.isSome then [] else m.state.registered
  current : m'.state.current = if e.isSome then none else m.state.current
  length : m'.state.listeners.length = m.state.listeners.length
  received : m'.state.received = m.state.received ++ ms
  reports : ∃ rs, m'.state.reports = m.state.reports ++ rs ∧
    e = (rs.find? fun r => m.state.current = some r.1).map (·.2)
  given : ∀ l, Given l (gifts m.state.registered ms e l) m m'

/-- What is done is that the session hears something. -/
structure Hears (role : FutureId → Role) (K : TaskId → Prop) (S : Routine → Prop) (ms : List Message)
    (e : Option (Option ServerError)) (m m' : Loop) : Prop extends Acts role K S m m', Heard ms e m m'

theorem Hears.works {ms : List Message} {e : Option (Option ServerError)} (h : Hears role K S ms e m m') :
    Works role K S m m' :=
  h.toActs.works h.receiver

theorem Heard.of_core (h : m'.state.core = m.state.core) : Heard [] none m m' where
  receiver := congrArg Core.receiver h
  lock := congrArg Core.lock h
  nextSeq := congrArg Core.nextSeq h
  registered := congrArg Core.registered h
  current := congrArg Core.current h
  length := congrArg (·.listeners.length) h
  received := by simp only [State.received, State.log_eq_of_core h, List.append_nil]
  reports := ⟨[], by simp only [State.reports, State.log_eq_of_core h, List.append_nil], rfl⟩
  given l := .of_same (by simp only [State.delivered, State.log_eq_of_core h])
    (by simp only [State.listener, show m'.state.listeners = m.state.listeners from congrArg Core.listeners h])

theorem Aside.hears (h : Aside role K S m m') : Hears role K S [] none m m' := ⟨h.toActs, .of_core h.core⟩

theorem Hears.refl (h : m.Tidy role) : Hears role K S [] none m m := (Aside.refl h).hears

/-- What is heard after messages is heard after them. -/
theorem Hears.trans {ms ms' : List Message} {e : Option (Option ServerError)} (h : Hears role K S ms none m m')
    (h' : Hears role K S ms' e m' m'') : Hears role K S (ms ++ ms') e m m'' := by
  have hreg : m'.state.registered = m.state.registered := h.registered
  have hcur : m'.state.current = m.state.current := h.current
  refine ⟨h.toActs.trans h'.toActs, h'.receiver.trans h.receiver, h'.lock.trans h.lock,
    h'.nextSeq.trans h.nextSeq, by rw [h'.registered, hreg], by rw [h'.current, hcur], h'.length.trans h.length, ?_, ?_,
    fun l => ?_⟩
  · rw [h'.received, h.received, List.append_assoc]
  · obtain ⟨rs, hrs, hnone⟩ := h.reports
    obtain ⟨rs', hrs', he⟩ := h'.reports
    refine ⟨rs ++ rs', by rw [hrs', hrs, List.append_assoc], ?_⟩
    have hfind : (rs.find? fun r => m.state.current = some r.1) = none := by simpa using hnone.symm
    rw [List.find?_append, hfind, Option.none_or, he, hcur]
  · have hgiven := (h.given l).trans (h'.given l) h.length h.effect.extends.outcome h'.effect.extends.outcome
    rw [hreg] at hgiven
    simpa [gifts, List.flatMap_append, List.append_assoc] using hgiven

/-- What is done aside after an end was heard. -/
theorem Hears.aside {ms : List Message} {e : Option (Option ServerError)} (h : Hears role K S ms e m m')
    (h' : Aside role K S m' m'') : Hears role K S ms e m m'' := by
  have h'' := h'.hears
  refine ⟨h.toActs.trans h'.toActs, h''.receiver.trans h.receiver, h''.lock.trans h.lock,
    h''.nextSeq.trans h.nextSeq, h''.registered.trans h.registered, h''.current.trans h.current,
    h''.length.trans h.length, ?_, ?_, fun l => ?_⟩
  · rw [h''.received, h.received, List.append_nil]
  · obtain ⟨rs, hrs, he⟩ := h.reports
    refine ⟨rs, ?_, he⟩
    simp only [State.reports, State.log_eq_of_core h'.core]
    exact hrs
  · have hgiven := (h.given l).trans (h''.given l) h.length h.effect.extends.outcome h'.effect.extends.outcome
    simpa [gifts] using hgiven

theorem record_acts (h : m.Tidy role) (e : Entry) : Acts role K S m (m.record e) :=
  .modify h _ id ⟨h.names.transports, h.names.children, h.names.lock, h.names.getters⟩

/-- A value that a transport passes on is heard, if it is an envelope. -/
theorem receive_hears (h : m.Tidy role) (hr : m.state.receiver = .session) (t : TransportId) (v : Json) :
    Hears role K S (Message.parse v).toOption.toList none m (m.receive t v).1 := by
  have hacts := record_acts (K := K) (S := S) h (.received t v)
  have hreceived : (m.record (.received t v)).state.received = m.state.received ++ (Message.parse v).toOption.toList :=
    State.received_record m.state (.received t v)
  -- to record that a value was received gives nobody anything
  have hrecord : ∀ l, Given l [] m (m.record (.received t v)) :=
    fun l => .of_same ((delivered_record m.state l (.received t v)).trans (List.append_nil _)) rfl
  have hreports : (m.record (.received t v)).state.reports = m.state.reports :=
    (State.reports_record m.state (.received t v)).trans (List.append_nil _)
  have hstep : ∀ {given : ListenerId → List Delivery} {m' : Loop},
      Delivers role K S given (m.record (.received t v)) m' →
      (∀ l, given l = gifts m.state.registered (Message.parse v).toOption.toList none l) →
      Hears role K S (Message.parse v).toOption.toList none m m' := by
    intro given m' hd hg
    refine ⟨hacts.trans hd.toActs, hd.receiver, hd.lock, hd.nextSeq, hd.registered, hd.current, hd.length,
      by rw [hd.received, hreceived], ⟨[], by rw [hd.reports, hreports, List.append_nil], rfl⟩, fun l => ?_⟩
    rw [← hg l]
    exact (hrecord l).trans (hd.given l) rfl id hd.effect.extends.outcome
  have hreceive : (m.receive t v).1 = (m.record (.received t v)).dispatch v := by
    unfold Loop.receive
    rw [hr]
  rw [hreceive]
  unfold dispatch
  cases hparse : Message.parse v with
  | ok message =>
    rw [hparse] at hstep
    refine hstep (deliverAll_delivers hacts.tidy _ _) fun l => ?_
    simp [gifts, Except.toOption]
    rfl
  | error e =>
    rw [hparse] at hstep
    exact hstep (Aside.note hacts.tidy _ _).delivers fun l => rfl

theorem detach_acts (h : m.Tidy role) :
    Acts role K S m (m.modify fun s => { s with registered := [], current := none }) :=
  .modify h _ id ⟨h.names.transports, h.names.children, h.names.lock, h.names.getters⟩

/-- All listeners are detached: each is given its end, and is not registered any more. -/
theorem detachAll_delivers (h : m.Tidy role) (e : Option ServerError) :
    Delivers role K S (fun l => List.replicate (m.state.registered.count l) (.ended e))
      (m.modify fun s => { s with registered := [], current := none }) (m.detachAll e) :=
  deliverAll_delivers (detach_acts (K := K) (S := S) h).tidy _ _

/-- A report is recorded, and its error noted. -/
def announce (m : Loop) (t : TransportId) (e : Option ServerError) : Loop :=
  match e with
  | some error => (m.record (.reported t e)).note .error (lit "tsserver failed: " ++ error.message)
  | none => m.record (.reported t e)

theorem announce_spec (h : m.Tidy role) (t : TransportId) (e : Option ServerError) :
    Acts role K S m (m.announce t e) ∧
      (m.announce t e).state.reports = m.state.reports ++ [(t, e)] ∧
      (m.announce t e).state.received = m.state.received ∧
      (∀ l, (m.announce t e).state.delivered l = m.state.delivered l) ∧
      (m.announce t e).state.core = { m.state.core with log := (m.announce t e).state.log } := by
  have hacts := record_acts (K := K) (S := S) h (.reported t e)
  have hreports : (m.record (.reported t e)).state.reports = m.state.reports ++ [(t, e)] :=
    State.reports_record m.state (.reported t e)
  have hreceived : (m.record (.reported t e)).state.received = m.state.received :=
    (State.received_record m.state (.reported t e)).trans (List.append_nil _)
  have hdelivered : ∀ l, (m.record (.reported t e)).state.delivered l = m.state.delivered l :=
    fun l => (delivered_record m.state l (.reported t e)).trans (List.append_nil _)
  cases e with
  | none => exact ⟨hacts, hreports, hreceived, hdelivered, rfl⟩
  | some error =>
    have hnote := Aside.note (K := K) (S := S) hacts.tidy .error (lit "tsserver failed: " ++ error.message)
    have hdel := hnote.delivers
    refine ⟨hacts.trans hnote.toActs, hdel.reports.trans hreports, hdel.received.trans hreceived, fun l => ?_, rfl⟩
    exact ((hdel.given l).delivered.trans (List.append_nil _)).trans (hdelivered l)

theorem report_eq (hr : m.state.receiver = .session) (t : TransportId) (e : Option ServerError) :
    m.report t e = if m.state.current = some t then (((m.announce t e).detachAll e).spawn (.stop t)).1
      else m.record (.reported t e) := by
  have hrec : (m.record (.reported t e)).state.receiver = .session := hr
  have hcur : (m.record (.reported t e)).state.current = m.state.current := rfl
  unfold report
  simp only [hrec, hcur]
  split
  · cases e <;> rfl
  · rfl

/-- The end that a transport reports is heard, if it is the current one. -/
theorem report_hears (h : m.Tidy role) (hr : m.state.receiver = .session) (hs : ∀ t, S (.stop t)) (t : TransportId)
    (e : Option ServerError) :
    Hears role K S [] (if m.state.current = some t then some e else none) m (m.report t e) := by
  rw [report_eq hr]
  by_cases hcur : m.state.current = some t
  · obtain ⟨hacts, hreports, hreceived, hdelivered, hcore⟩ :=
      announce_spec (K := K) (S := S) h t e
    have hreg : (m.announce t e).state.registered = m.state.registered := congrArg Core.registered hcore
    have hlist : (m.announce t e).state.listeners = m.state.listeners := congrArg Core.listeners hcore
    have hdet := detach_acts (K := K) (S := S) hacts.tidy
    have hall := detachAll_delivers (K := K) (S := S) hacts.tidy e
    have hspawn : Aside role K S ((m.announce t e).detachAll e)
        (((m.announce t e).detachAll e).spawn (.stop t)).1 :=
      .of_effect hall.tidy (.single (.spawn _ (hs t))) rfl
    have hend := hspawn.delivers
    rw [if_pos hcur, if_pos hcur]
    refine ⟨((hacts.trans hdet).trans hall.toActs).trans hspawn.toActs, ?_, ?_, ?_, ?_, ?_, ?_, ?_, ?_,
      fun l => ?_⟩
    · exact (hend.receiver.trans hall.receiver).trans (congrArg Core.receiver hcore)
    · exact (hend.lock.trans hall.lock).trans (congrArg Core.lock hcore)
    · exact (hend.nextSeq.trans hall.nextSeq).trans (congrArg Core.nextSeq hcore)
    · exact hend.registered.trans hall.registered
    · exact hend.current.trans hall.current
    · exact (hend.length.trans hall.length).trans (congrArg List.length hlist)
    · exact ((hend.received.trans hall.received).trans hreceived).trans (List.append_nil _).symm
    · refine ⟨[(t, e)], (hend.reports.trans hall.reports).trans hreports, ?_⟩
      simp [hcur]
    · have hstart : Given l [] m ((m.announce t e).modify fun s => { s with registered := [], current := none }) := by
        refine .of_same (hdelivered l) ?_
        change State.listener (m.announce t e).state l = _
        simp only [State.listener, hlist]
      have hgiven := hstart.trans ((hall.given l).trans (hend.given l) hall.length hall.effect.extends.outcome
        hspawn.effect.extends.outcome) (congrArg List.length hlist) (hacts.trans hdet).effect.extends.outcome
        (hall.toActs.trans hspawn.toActs).effect.extends.outcome
      rw [hreg] at hgiven
      simpa [gifts] using hgiven
  · have hacts := record_acts (K := K) (S := S) h (.reported t e)
    rw [if_neg hcur, if_neg hcur]
    refine ⟨hacts, rfl, rfl, rfl, rfl, rfl, rfl, ?_, ?_, fun l => ?_⟩
    · exact State.received_record m.state (.reported t e)
    · exact ⟨[(t, e)], State.reports_record m.state (.reported t e), by simp [hcur]⟩
    · exact .of_same ((delivered_record m.state l (.reported t e)).trans (List.append_nil _)) rfl

end Loop

end DiagnosticsClient
