import DiagnosticsClient.Proofs.Session.Handover
import DiagnosticsClient.Proofs.Session.Inquiry
/-
Whoever waits for a listener is woken for what is there.

Several tasks may wait for the next item of one listener. An item that is put
into the queue wakes one of them, and a woken one that was cancelled wakes another
in its place. `Fed` says that this is enough: as long as somebody waits, there are
as many tasks about to look into the queue as there are items in it. So whoever
waits when nothing can go on by itself waits for an empty queue
(`IsRun.waits_for_nothing`).
-/
namespace DiagnosticsClient

open Async Async.Machine

namespace Loop

variable {role role' : FutureId → Role} {m m' : Loop} {t u : TaskId} {l : ListenerId} {g : FutureId} {n : Nat}
  {root called r : Routine} {F : Frame} {stack rest : List Frame} {o : Ending} {s : Loop × Move} {held : List ListenerId}

/-- A task waits for the next item of a listener. -/
def WaitsAt (m : Loop) (l : ListenerId) (g : FutureId) (u : TaskId) : Prop :=
  ∃ rest, m.thread? u = some ⟨.waits g, .getting l g :: rest⟩

/-- A task is about to look into the queue of a listener, or to wake another one in its place. -/
def Owes (m : Loop) (l : ListenerId) (u : TaskId) : Prop :=
  (∃ stack, m.thread? u = some ⟨.begins (.take l), stack⟩) ∨
    ∃ top g rest o, m.thread? u = some ⟨top, .getting l g :: rest⟩ ∧ m.outcome? g = some o ∧ o ≠ .cancelled

/-- As long as somebody waits for a listener, as many tasks are about to look into its queue as there are items in it. -/
structure Fed (m : Loop) (l : ListenerId) : Prop where
  listed : ∀ {u g}, m.WaitsAt l g u → m.isSettled g = false → g ∈ (m.state.listener l).getters
  manned : ∀ g ∈ (m.state.listener l).getters, m.isSettled g = false → ∃ u, m.WaitsAt l g u
  owed : ∀ g ∈ (m.state.listener l).getters, m.isSettled g = false →
    ∃ us : List TaskId, us.Nodup ∧ (∀ u ∈ us, m.Owes l u) ∧ (m.state.listener l).queue.length ≤ us.length

/-! ## A step of one task -/

/-- One task moves, and no other. -/
structure Moved (t : TaskId) (m m' : Loop) : Prop where
  keeps : m.Keeps m'
  other : ∀ {u th}, u ≠ t → m.thread? u = some th → m'.thread? u = some th
  back : ∀ {u th}, u ≠ t → m'.thread? u = some th → th.stack = [] ∨ m.thread? u = some th
  woken : ∀ {l g}, m.WaitsAt l g t → m.isSettled g = true

/-- What a step of one task does to those who wait for a listener: `ws` are those it wakes. -/
structure Supplies (t : TaskId) (l : ListenerId) (ws : List FutureId) (m m' : Loop) : Prop where
  nodup : ws.Nodup
  woken : ∀ g ∈ ws, g ∈ (m.state.listener l).getters ∧ m.isSettled g = false ∧ ∃ v, m'.outcome? g = some (.value v)
  kept : ∀ g ∈ (m.state.listener l).getters, m'.isSettled g = false → g ∈ (m'.state.listener l).getters
  getters : ∀ g ∈ (m'.state.listener l).getters, m'.isSettled g = false →
    g ∈ (m.state.listener l).getters ∨ m'.WaitsAt l g t
  self : ∀ {g}, m'.WaitsAt l g t → m'.isSettled g = false → g ∈ (m'.state.listener l).getters
  owed : ∀ g ∈ (m'.state.listener l).getters, m'.isSettled g = false → (m'.state.listener l).queue = [] ∨
    g ∈ (m.state.listener l).getters ∧
      ((m'.state.listener l).queue.length ≤ (m.state.listener l).queue.length + ws.length ∧ (m.Owes l t → m'.Owes l t) ∨
        (m'.state.listener l).queue.length + 1 ≤ (m.state.listener l).queue.length + ws.length)

/-- A frame that waits for a listener waits for a future of its own. -/
theorem Fits.plain_of_getting {top : Top Routine Value Failure} (hf : Fits role m)
    (hth : m.thread? u = some ⟨top, .getting l g :: rest⟩) : m.IsPlain g := by
  obtain ⟨root, -, hfits⟩ := hf.threads hth
  cases hfits with
  | begins _ _ hstack => cases hstack with | cons hc => cases hc
  | resumes _ _ hw _ => exact hw.1.1
  | waits _ ha _ => cases ha with | getting _ h => exact h.1

/-- Who does not move still looks into the queue. -/
theorem Moved.owes (h : Moved t m m') (hf : Fits role m) (hu : u ≠ t) (ho : m.Owes l u) : m'.Owes l u := by
  rcases ho with ⟨stack, hth⟩ | ⟨top, g, rest, o, hth, ho, hne⟩
  · exact .inl ⟨stack, h.other hu hth⟩
  · exact .inr ⟨top, g, rest, o, h.other hu hth, h.keeps.outcome (hf.plain_of_getting hth) ho, hne⟩

/-- A woken one looks into the queue. -/
theorem Moved.owes_of_woken (h : Moved t m m') (hun : m.isSettled g = false) (hw : m.WaitsAt l g u) {v : Value}
    (hv : m'.outcome? g = some (.value v)) : u ≠ t ∧ ¬ m.Owes l u ∧ m'.Owes l u := by
  have hne : u ≠ t := by
    rintro rfl
    rw [h.woken hw] at hun
    cases hun
  obtain ⟨rest, hth⟩ := hw
  refine ⟨hne, ?_, .inr ⟨_, g, rest, _, h.other hne hth, hv, fun hc => by cases hc⟩⟩
  rintro (⟨stack, hth'⟩ | ⟨top, g', rest', o, hth', ho, -⟩)
  · cases hth.symm.trans hth'
  · cases hth.symm.trans hth'
    rw [isSettled_iff.mpr ⟨_, ho⟩] at hun
    cases hun

/-- Those who wait for some futures. -/
theorem exists_waiting {ws : List FutureId} (hnodup : ws.Nodup) (h : ∀ g ∈ ws, ∃ u, m.WaitsAt l g u) :
    ∃ us : List TaskId, us.Nodup ∧ us.length = ws.length ∧ ∀ u ∈ us, ∃ g ∈ ws, m.WaitsAt l g u := by
  induction ws with
  | nil => exact ⟨[], List.nodup_nil, rfl, fun _ hu => by cases hu⟩
  | cons g ws ih =>
    obtain ⟨hnew, hrest⟩ := List.nodup_cons.mp hnodup
    obtain ⟨us, hus, hlen, hall⟩ := ih hrest fun g hg => h g (List.mem_cons_of_mem _ hg)
    obtain ⟨u, hu⟩ := h g List.mem_cons_self
    refine ⟨u :: us, List.nodup_cons.mpr ⟨fun hmem => ?_, hus⟩, by simp [hlen], fun v hv => ?_⟩
    · obtain ⟨g', hg', hu'⟩ := hall u hmem
      obtain ⟨rest, hth⟩ := hu
      obtain ⟨rest', hth'⟩ := hu'
      cases hth.symm.trans hth'
      exact hnew hg'
    · rcases List.mem_cons.mp hv with rfl | hv
      · exact ⟨g, List.mem_cons_self, hu⟩
      · obtain ⟨g', hg', hu'⟩ := hall v hv
        exact ⟨g', List.mem_cons_of_mem _ hg', hu'⟩

/-- **Enough are woken**, whatever one task does. -/
theorem Fed.step {ws : List FutureId} (h : m.Fed l) (hf : Fits role m) (hm : Moved t m m') (hs : Supplies t l ws m m') :
    m'.Fed l := by
  have hplain : ∀ {g}, g ∈ (m.state.listener l).getters → m.IsPlain g := fun hg => (hf.tidy.getter hg).1
  have hwas : ∀ {g}, m.IsPlain g → m'.isSettled g = false → m.isSettled g = false := fun hg hun =>
    Bool.eq_false_iff.mpr fun hset => by
      obtain ⟨o, ho⟩ := isSettled_iff.mp hset
      rw [isSettled_iff.mpr ⟨o, hm.keeps.outcome hg ho⟩] at hun
      cases hun
  refine ⟨fun {u g} hw hun => ?_, fun g hg hun => ?_, fun g hg hun => ?_⟩
  · by_cases hu : u = t
    · subst hu
      exact hs.self hw hun
    · obtain ⟨rest, hth⟩ := hw
      have hold := (hm.back hu hth).resolve_left fun hnil => by cases hnil
      have hun' := hwas (hf.plain_of_getting hold) hun
      exact hs.kept g (h.listed ⟨rest, hold⟩ hun') hun
  · rcases hs.getters g hg hun with hold | hw
    · have hun' := hwas (hplain hold) hun
      obtain ⟨u, hw⟩ := h.manned g hold hun'
      have hu : u ≠ t := by
        rintro rfl
        rw [hm.woken hw] at hun'
        cases hun'
      obtain ⟨rest, hth⟩ := hw
      exact ⟨u, rest, hm.other hu hth⟩
    · exact ⟨t, hw⟩
  · rcases hs.owed g hg hun with hnil | ⟨hold, hcount⟩
    · exact ⟨[], List.nodup_nil, fun _ hu => (by cases hu), by rw [hnil]; exact Nat.le_refl _⟩
    · obtain ⟨us, hnodup, hus, hlen⟩ := h.owed g hold (hwas (hplain hold) hun)
      obtain ⟨vs, hnodup', hlen', hvs⟩ := exists_waiting hs.nodup fun g hg => by
        obtain ⟨hmem, hun, -⟩ := hs.woken g hg
        exact h.manned g hmem hun
      -- those who are woken are others than those who looked already
      have hnew : ∀ v ∈ vs, v ≠ t ∧ ¬ m.Owes l v ∧ m'.Owes l v := fun v hv => by
        obtain ⟨g, hg, hw⟩ := hvs v hv
        obtain ⟨-, hun, _, hval⟩ := hs.woken g hg
        exact hm.owes_of_woken hun hw hval
      have hjoin : ∀ {us' : List TaskId}, us'.Nodup → (∀ u ∈ us', m.Owes l u ∧ m'.Owes l u) →
          (us' ++ vs).Nodup ∧ ∀ u ∈ us' ++ vs, m'.Owes l u := by
        intro us' hn hall
        refine ⟨List.nodup_append.mpr ⟨hn, hnodup', ?_⟩, fun u hu => ?_⟩
        · rintro u hu _ hv rfl
          exact (hnew u hv).2.1 (hall u hu).1
        · rcases List.mem_append.mp hu with hu | hu
          · exact (hall u hu).2
          · exact (hnew u hu).2.2
      rcases hcount with ⟨hle, hself⟩ | hle
      · obtain ⟨hn, hall⟩ := hjoin hnodup fun u hu => ⟨hus u hu, by
          by_cases hut : u = t
          · subst hut
            exact hself (hus u hu)
          · exact hm.owes hf hut (hus u hu)⟩
        exact ⟨us ++ vs, hn, hall, by rw [List.length_append, hlen']; omega⟩
      · obtain ⟨hn, hall⟩ := hjoin (hnodup.erase t) fun u hu => by
          have hmem := List.mem_of_mem_erase hu
          have hut : u ≠ t := fun heq => hnodup.not_mem_erase (heq ▸ hu)
          exact ⟨hus u hmem, hm.owes hf hut (hus u hmem)⟩
        have hlen'' : us.length ≤ (us.erase t).length + 1 := by
          rw [List.length_erase]
          split <;> omega
        exact ⟨us.erase t ++ vs, hn, hall, by rw [List.length_append, hlen']; omega⟩

/-! ## What most steps do -/

/-- Nobody comes to wait for a listener, and `n` items are put into its queue. -/
structure Tends (l : ListenerId) (n : Nat) (m m' : Loop) : Prop where
  served : Served l n m m'
  getters : ∀ g ∈ (m'.state.listener l).getters, g ∈ (m.state.listener l).getters
  queue : (m'.state.listener l).queue.length = (m.state.listener l).queue.length + n ∨ (m'.state.listener l).getters = []

theorem Tends.of_same (hq : (m'.state.listener l).queue = (m.state.listener l).queue)
    (hg : (m'.state.listener l).getters = (m.state.listener l).getters) : Tends l 0 m m' :=
  ⟨.of_same hg, fun _ h => hg ▸ h, .inl (by rw [hq]; rfl)⟩

theorem Tends.of_listeners (h : m'.state.listeners = m.state.listeners) : Tends l 0 m m' := by
  have hl : m'.state.listener l = m.state.listener l := by simp only [State.listener, h]
  exact .of_same (by rw [hl]) (by rw [hl])

theorem Given.tends {ds : List Delivery} (h : Given l ds m m') : Tends l ds.length m m' := by
  refine ⟨h.served, h.getters, ?_⟩
  by_cases hl : l < m.state.listeners.length
  · exact .inl (by rw [h.queue hl, List.length_append])
  · refine .inr (List.eq_nil_iff_forall_not_mem.mpr fun g hg => ?_)
    have hold := h.getters g hg
    rw [State.listener, List.getElem?_eq_none (Nat.le_of_not_lt hl)] at hold
    cases hold

theorem Mild.tends (h : Mild role m m') : Tends l 0 m m' := .of_same (h.queue l) (h.getters l)

theorem Deed.tends (hd : Deed role role' m t root called stack s) (ht : m.Tidy role) (h : Tends l n m s.1) :
    Tends l n m (s.1.perform t stack s.2) where
  served := hd.served ht h.served
  getters g hg := h.getters g (by rwa [hd.state] at hg)
  queue := by
    rw [hd.state]
    exact h.queue

/-- A task that neither comes to wait for a listener nor ceases to look into its queue feeds those who wait for it. -/
theorem Tends.supplies (h : Tends l n m m') (hself : ∀ g, ¬ m'.WaitsAt l g t) (howes : m.Owes l t → m'.Owes l t) :
    ∃ ws, Supplies t l ws m m' := by
  obtain ⟨ws, hnodup, hws, hall⟩ := h.served.woken
  refine ⟨ws, hnodup, hws, h.served.kept, fun g hg _ => .inl (h.getters g hg), fun hw => absurd hw (hself _),
    fun g hg hun => .inr ⟨h.getters g hg, .inl ⟨?_, howes⟩⟩⟩
  have hlen : ws.length = n := hall.resolve_right fun hall => by
    rw [hall g hg] at hun
    cases hun
  rcases h.queue with hq | hnil
  · exact Nat.le_of_eq (by rw [hq, hlen])
  · rw [hnil] at hg
    cases hg

theorem Begins.tends (h : Begins role m r called) (hr : r.StandsFor called) (ht : r ≠ .take l) :
    ∃ n, Tends l n m (begin r m).1 := by
  cases h with
  | minor _ _ hheard => exact ⟨_, (hheard.given l).tends⟩
  | mild _ _ _ hmild => exact ⟨0, hmild.tends⟩
  | acquire =>
    refine ⟨0, .of_listeners ?_⟩
    simp only [begin, Loop.acquire]
    split <;> rfl
  | take l' =>
    have hne : (Routine.take l').about ≠ some l := fun heq => by
      cases heq
      exact ht rfl
    obtain ⟨ds, hds⟩ := Begins.given (.take l' : Begins role m _ _) hr hne
    exact ⟨_, hds.tends⟩

theorem Resumes.tends (h : Resumes role m o F called) (ht : m.Tidy role) (hs : F.Serves m.routine? called) (hw : F.Woke role m o)
    (hF : ∀ g, F ≠ .getting l g) : ∃ n, Tends l n m (resume F o m).1 := by
  cases h with
  | minor _ _ hheard => exact ⟨_, (hheard.given l).tends⟩
  | mild _ _ hmild => exact ⟨0, hmild.tends⟩
  | locking w hstill => exact ⟨0, .of_listeners hstill.listeners⟩
  | registering _ hstill => exact ⟨0, .of_listeners hstill.listeners⟩
  | starting _ _ hstill => exact ⟨0, .of_listeners hstill.listeners⟩
  | leaving _ hstill => exact ⟨0, .of_listeners hstill.listeners⟩
  | releasing _ hstill => exact ⟨0, .of_listeners hstill.listeners⟩
  | closing =>
    obtain ⟨ds, hds⟩ := Resumes.given (l := l) (.closing : Resumes role m o _ _) ht hs hw (fun heq => by cases heq)
    exact ⟨_, hds.tends⟩
  | getting l' g h =>
    have hne : (Frame.getting l' g).about ≠ some l := fun heq => by
      cases heq
      exact hF g rfl
    obtain ⟨ds, hds⟩ := Resumes.given (.getting l' g h : Resumes role m o _ _) ht hs hw hne
    exact ⟨_, hds.tends⟩

/-! ## The running task -/

theorem Moved.of_deed {x : Running Routine Frame Value Failure} (hd : Deed role role' m t root called stack s) (hf : Fits role m)
    (hr : m.running = some x) (hx : x.task = t) : Moved t m (s.1.perform t stack s.2) where
  keeps := hd.keeps
  other hu hth := by
    rw [hd.switch.other hu, hd.does.effect.extends.thread? hd.does.tidy.sound.owned (lt_size_of_thread? hf.tidy.sound hth), hth]
  back hu hth := by
    rcases hd.thread_other hf hu hth with hold | ⟨r, -, -, rfl⟩
    · exact .inr hold
    · exact .inl rfl
  woken hw := by
    obtain ⟨rest, hth⟩ := hw
    subst hx
    rw [thread?_of_running hr] at hth
    cases x <;> cases hth

/-- Nobody comes to wait for a listener but who takes from it. -/
theorem Deed.not_waitsAt (hd : Deed role role' m t root called stack s) (hc : called ≠ .take l) :
    ¬ WaitsAt (s.1.perform t stack s.2) l g t := by
  rintro ⟨rest, hth⟩
  rw [hd.switch.self] at hth
  have hmove := hd.does.move
  generalize s.2 = a at hth hmove
  cases hmove with
  | done => cases hth
  | call => cases hth
  | become => cases hth
  | @await f F hs _ _ =>
    have hstack := congrArg Thread.stack (Option.some.inj hth)
    rw [stack_nextThread_await] at hstack
    cases hstack
    cases hs
    exact hc rfl

/-- Who begins something else than to take an item owes nothing. -/
theorem not_owes_of_begins (hf : Fits role m) (hr : m.running = some (.begin t r stack)) (hne : r ≠ .take l) : ¬ m.Owes l t := by
  have hth : m.thread? t = some ⟨.begins r, stack⟩ := thread?_of_running hr
  obtain ⟨root, -, hfits⟩ := hf.threads hth
  rintro (⟨stack', hth'⟩ | ⟨top, g, rest, o, hth', -⟩)
  · cases hth.symm.trans hth'
    exact hne rfl
  · cases hth.symm.trans hth'
    cases hfits with
    | begins _ _ hstack => cases hstack with | cons hc => cases hc

theorem not_owes_of_resumes (hr : m.running = some (.resume t o (F :: stack))) (hne : ∀ g, F ≠ .getting l g) : ¬ m.Owes l t := by
  have hth : m.thread? t = some ⟨.resumes o, F :: stack⟩ := thread?_of_running hr
  rintro (⟨stack', hth'⟩ | ⟨top, g, rest, o, hth', -⟩)
  · cases hth.symm.trans hth'
  · cases hth.symm.trans hth'
    exact hne g rfl

/-- Whoever takes an item looked into the queue; whoever finds none waits. -/
theorem take_supplies (hk : Known m held) (hr : m.running = some (.begin t (.take l) stack))
    (hd : Deed role role' m t root (.take l) stack (begin (.take l) m)) :
    ∃ ws, Supplies t l ws m ((begin (.take l) m).1.perform t stack (begin (.take l) m).2) := by
  have hlt : l < m.state.listeners.length := hk.there (thread?_of_running hr) (.inl ⟨_, .inr rfl, rfl⟩)
  cases hq : (m.state.listener l).queue with
  | cons item rest =>
    have hbegin : begin (.take l) m =
        (m.modifyListener l fun x => { x with queue := rest }, .done (.value (.delivery item))) := by
      simp only [begin, Loop.take, hq]
    rw [hbegin] at hd ⊢
    have hlistener : (m.modifyListener l fun x => { x with queue := rest }).state.listener l =
        { m.state.listener l with queue := rest } :=
      (listener_modifyListener m.state l l _).trans (if_pos ⟨rfl, hlt⟩)
    refine ⟨[], List.nodup_nil, fun _ hg => (by cases hg), fun g hg _ => ?_, fun g hg _ => .inl ?_, fun {g} hw => ?_,
      fun g hg _ => .inr ⟨?_, .inr ?_⟩⟩
    · rw [hd.state, hlistener]
      exact hg
    · rwa [hd.state, hlistener] at hg
    · obtain ⟨_, hth⟩ := hw
      rw [hd.switch.self] at hth
      cases hth
    · rwa [hd.state, hlistener] at hg
    · rw [hd.state, hlistener, hq]
      exact Nat.le_refl _
  | nil =>
    have hbegin : begin (.take l) m = (m.future.1.modifyListener l fun x => { x with getters := x.getters ++ [m.futures.size] },
        .await m.futures.size (.getting l m.futures.size)) := by
      simp only [begin, Loop.take, hq]
      rfl
    rw [hbegin] at hd ⊢
    have hlistener : (m.future.1.modifyListener l fun x => { x with getters := x.getters ++ [m.futures.size] }).state.listener l =
        { m.state.listener l with getters := (m.state.listener l).getters ++ [m.futures.size] } :=
      (listener_modifyListener m.state l l _).trans (if_pos ⟨rfl, hlt⟩)
    have hself := hd.switch.self
    refine ⟨[], List.nodup_nil, fun _ hg => (by cases hg), fun g hg _ => ?_, fun g hg _ => ?_, fun {g} hw _ => ?_,
      fun g hg _ => .inl ?_⟩
    · rw [hd.state, hlistener]
      exact List.mem_append_left _ hg
    · rw [hd.state, hlistener] at hg
      rcases List.mem_append.mp hg with hg | hg
      · exact .inl hg
      · obtain rfl := List.mem_singleton.mp hg
        exact .inr ⟨stack, hself.trans (congrArg some (nextThread_await_future _ _ _))⟩
    · obtain ⟨rest, hth⟩ := hw
      rw [hself] at hth
      have hstack := congrArg Thread.stack (Option.some.inj hth)
      rw [stack_nextThread_await] at hstack
      cases hstack
      rw [hd.state, hlistener]
      exact List.mem_append_right _ (List.mem_singleton.mpr rfl)
    · rw [hd.state, hlistener]
      exact hq

theorem getters_wakeGetter (h : ∀ f ∈ (m.state.listener l).getters, m.HasRole role .getter f) :
    ∀ g ∈ ((m.wakeGetter l).state.listener l).getters, g ∈ (m.state.listener l).getters := by
  obtain ⟨-, hstate, hmem, -⟩ := wakeNext_effect (D := m.state.IsDead) (K := fun _ => True) (S := fun _ => True) h
  intro g hg
  rw [show (m.wakeGetter l).state.listener l = _ from listener_modifyListener _ l l _] at hg
  split at hg
  · exact hmem g hg
  · rwa [hstate] at hg

theorem queue_wakeGetter (h : ∀ f ∈ (m.state.listener l).getters, m.HasRole role .getter f) :
    ((m.wakeGetter l).state.listener l).queue = (m.state.listener l).queue := by
  obtain ⟨-, hstate, -⟩ := wakeNext_effect (D := m.state.IsDead) (K := fun _ => True) (S := fun _ => True) h
  rw [show (m.wakeGetter l).state.listener l = _ from listener_modifyListener _ l l _]
  split <;> rw [hstate]

/-- Whoever leaves though he was woken wakes another one, if there is something in the queue. -/
theorem leave_supplies (hf : Fits role m) (hr : m.running = some (.resume t o (.getting l g :: stack)))
    (hw : (Frame.getting l g).Woke role m o) (ho : ∀ v, o ≠ .value v)
    (hd : Deed role role' m t root called stack (resume (.getting l g) o m)) :
    ∃ ws, Supplies t l ws m ((resume (.getting l g) o m).1.perform t stack (resume (.getting l g) o m).2) := by
  obtain ⟨⟨hplain, hrole⟩, o', ho', -⟩ := hw
  have hset : m.isSettled g = true := isSettled_iff.mpr ⟨o', ho'⟩
  let m₁ : Loop := m.modifyListener l fun x => { x with getters := x.getters.erase g }
  have hqueue : (m₁.state.listener l).queue = (m.state.listener l).queue := by
    rw [show m₁.state.listener l = _ from listener_modifyListener m.state l l _]
    split <;> rfl
  have hgetters : (m₁.state.listener l).getters = (m.state.listener l).getters.erase g := by
    rw [show m₁.state.listener l = _ from listener_modifyListener m.state l l _]
    split
    · rfl
    · next h =>
      rw [State.listener, List.getElem?_eq_none (Nat.le_of_not_lt fun hlt => h ⟨rfl, hlt⟩)]
      rfl
  have hsub : ∀ f ∈ (m₁.state.listener l).getters, f ∈ (m.state.listener l).getters := fun f hmem => by
    rw [hgetters] at hmem
    exact List.mem_of_mem_erase hmem
  have hrole₁ : ∀ f ∈ (m₁.state.listener l).getters, m₁.HasRole role .getter f := fun f hmem => by
    have hold : m.HasRole role .getter f := hf.tidy.getter (hsub f hmem)
    exact hold
  have hresume : resume (.getting l g) o m =
      (if !(m₁.state.listener l).queue.isEmpty && !m₁.isCancelled g then m₁.wakeGetter l else m₁, .done o) := by
    simp only [resume, takeResumed]
    cases o with
    | value v => exact absurd rfl (ho v)
    | _ => simp only [settle_of_isSettled hset]; rfl
  have hself : ∀ g', ¬ WaitsAt ((resume (.getting l g) o m).1.perform t stack (resume (.getting l g) o m).2) l g' t := by
    rintro g' ⟨rest, hth⟩
    rw [hd.switch.self, hresume] at hth
    cases hth
  have hne : ∀ g', (resume (.getting l g) o m).1.isSettled g' = false → g' ≠ g := by
    rintro g' hun rfl
    rw [settled_of_outcome hd.does.effect.extends.outcome hset] at hun
    cases hun
  have herase : ∀ g' ∈ (m.state.listener l).getters, g' ≠ g → g' ∈ (m₁.state.listener l).getters := fun g' hg' hne => by
    rw [hgetters]
    exact (List.mem_erase_of_ne hne).mpr hg'
  cases hwake : !(m₁.state.listener l).queue.isEmpty && !m₁.isCancelled g with
  | true =>
    have hstate : (resume (.getting l g) o m).1 = m₁.wakeGetter l := by rw [hresume, hwake]; rfl
    obtain ⟨hkept, hwoken⟩ := wakeGetter_served hrole₁
    have hserved : Served l 1 m (resume (.getting l g) o m).1 := by
      refine ⟨fun g' hg' hun => ?_, ?_⟩
      · have hmem := herase g' hg' (hne g' hun)
        rw [hstate] at hun ⊢
        exact hkept g' hmem hun
      · obtain ⟨ws, hnodup, hws, hall⟩ := hwoken
        rw [hstate]
        refine ⟨ws, hnodup, fun g' hg' => ?_, hall⟩
        obtain ⟨hmem, hrest⟩ := hws g' hg'
        exact ⟨hsub g' hmem, hrest⟩
    obtain ⟨hkept', ws, hnodup, hws, hall⟩ := hd.served hf.tidy hserved
    have hget : ∀ g' ∈ ((resume (.getting l g) o m).1.state.listener l).getters, g' ∈ (m.state.listener l).getters := by
      rw [hstate]
      exact fun g' hg' => hsub g' (getters_wakeGetter hrole₁ g' hg')
    refine ⟨ws, hnodup, hws, hkept', fun g' hg' _ => .inl (hget g' (by rwa [hd.state] at hg')),
      fun hw' => absurd hw' (hself _), fun g' hg' hun => .inr ⟨hget g' (by rwa [hd.state] at hg'), .inr ?_⟩⟩
    have hlen : ws.length = 1 := hall.resolve_right fun hall => by
      rw [hall g' hg'] at hun
      cases hun
    refine Nat.le_of_eq ?_
    rw [hd.state, hstate, hlen, queue_wakeGetter hrole₁, hqueue]
  | false =>
    have hstate : (resume (.getting l g) o m).1 = m₁ := by rw [hresume, hwake]; rfl
    have hserved : Served l 0 m (resume (.getting l g) o m).1 := by
      refine ⟨fun g' hg' hun => ?_, [], List.nodup_nil, fun _ hg => (by cases hg), .inl rfl⟩
      rw [hstate]
      exact herase g' hg' (hne g' hun)
    have hkept' := (hd.served hf.tidy hserved).kept
    refine ⟨[], List.nodup_nil, fun _ hg => (by cases hg), hkept', fun g' hg' _ => .inl ?_,
      fun hw' => absurd hw' (hself _), fun g' hg' hun => ?_⟩
    · rw [hd.state, hstate] at hg'
      exact hsub g' hg'
    · rw [hd.state, hstate] at hg' ⊢
      rw [hqueue]
      cases hq : (m.state.listener l).queue with
      | nil => exact .inl rfl
      | cons item rest =>
        -- he was not woken, but only cancelled
        refine .inr ⟨hsub g' hg', .inl ⟨Nat.le_refl _, fun howes => ?_⟩⟩
        rw [hqueue, hq] at hwake
        have hcancelled₁ : m₁.isCancelled g = true := by simpa using hwake
        have hcancelled : m.isCancelled g = true := hcancelled₁
        have hth : m.thread? t = some ⟨.resumes o, .getting l g :: stack⟩ := thread?_of_running hr
        rcases howes with ⟨stack', hth'⟩ | ⟨top, g'', rest', o'', hth', hout'', hno⟩
        · cases hth.symm.trans hth'
        · cases hth.symm.trans hth'
          rw [isCancelled, hout''] at hcancelled
          cases o'' <;> first | exact absurd rfl hno | cases hcancelled

/-- Whoever is woken looks into the queue. -/
theorem getting_supplies (hf : Fits role m) (hr : m.running = some (.resume t o (.getting l g :: stack)))
    (hw : (Frame.getting l g).Woke role m o) (hd : Deed role role' m t root called stack (resume (.getting l g) o m)) :
    ∃ ws, Supplies t l ws m ((resume (.getting l g) o m).1.perform t stack (resume (.getting l g) o m).2) := by
  by_cases hv : ∃ v, o = .value v
  · obtain ⟨v, rfl⟩ := hv
    have hself := hd.switch.self
    refine (hd.tends hf.tidy (Tends.of_same (l := l) rfl rfl)).supplies (fun g' hw' => ?_) fun _ => .inl ⟨stack, hself⟩
    obtain ⟨rest, hth⟩ := hw'
    rw [hself] at hth
    cases hth
  · exact leave_supplies hf hr hw (fun v hv' => hv ⟨v, hv'⟩) hd

/-! ## Every step -/

theorem owes_of_switch {m' : Loop} {th th' : Thread Routine Frame Value Failure} (hf : Fits role m) (hth : m.thread? t = some th)
    (ha : m.Awakes t th th') (hs : m.Switch t (some th') m') (ho : m.Owes l t) : m'.Owes l t := by
  rcases ho with ⟨stack, hth'⟩ | ⟨top, g, rest, o, hth', ho, hne⟩
  · cases hth.symm.trans hth'
    cases ha
  · cases hth.symm.trans hth'
    have hkept := (hs.outcome (hf.plain_of_getting hth)).trans ho
    cases ha with
    | resumes => exact .inr ⟨_, g, rest, o, hs.self, hkept, hne⟩
    | interrupted => exact .inr ⟨_, g, rest, o, hs.self, hkept, hne⟩

theorem not_waitsAt_of_lt {T : FutureId → Prop} (hs : m.Sound T) (ht : m.tasks.size ≤ t) : ¬ m.WaitsAt l g t := fun ⟨_, hth⟩ =>
  absurd (lt_size_of_thread? hs hth) (Nat.not_lt_of_le ht)

theorem not_owes_of_lt {T : FutureId → Prop} (hs : m.Sound T) (ht : m.tasks.size ≤ t) : ¬ m.Owes l t := by
  rintro (⟨stack, hth⟩ | ⟨top, g, rest, o, hth, -⟩) <;> exact absurd (lt_size_of_thread? hs hth) (Nat.not_lt_of_le ht)

/-- Where no task moves, enough are woken for what is put into a queue. -/
theorem Fed.extends {may : Licence Routine} (h : m.Fed l) (hf : Fits role m) (hf' : Fits role' m') (he : m.Extends may m')
    (ht : Tends l n m m') : m'.Fed l := by
  have hsize := Nat.le_refl m.tasks.size
  have hback : ∀ {u th}, m'.thread? u = some th → th.stack = [] ∨ m.thread? u = some th := fun hth => by
    rcases he.thread?_cases hf.tidy.sound hf'.tidy.sound hth with hold | ⟨r, -, -, -, rfl⟩
    · exact .inr hold
    · exact .inl rfl
  have hmoved : Moved m.tasks.size m m' :=
    ⟨keeps_of_extends he, fun _ hth => by
      rw [he.thread? hf'.tidy.sound.owned (lt_size_of_thread? hf.tidy.sound hth), hth], fun _ hth => hback hth,
      fun hw => absurd hw (not_waitsAt_of_lt hf.tidy.sound hsize)⟩
  obtain ⟨ws, hsupplies⟩ := ht.supplies (t := m.tasks.size) (fun g ⟨rest, hth⟩ => by
    rcases hback hth with hnil | hold
    · cases hnil
    · exact not_waitsAt_of_lt hf.tidy.sound hsize ⟨rest, hold⟩) fun ho => absurd ho (not_owes_of_lt hf.tidy.sound hsize)
  exact h.step hf hmoved hsupplies

/-- **Enough are woken in every step.** -/
theorem Fed.tick (h : m.Fed l) (hf : Fits role m) (hk : Known m held) (ht : Tick role m role' m') (hf' : Fits role' m') :
    m'.Fed l := by
  cases ht with
  | @awakes _ t th th' idle hth how switch =>
    have htends : Tends l 0 m m' := .of_listeners (by rw [switch.state])
    have hmoved : Moved t m m' := by
      refine ⟨keeps_of_switch switch, fun hu hth => (switch.other hu).trans hth, fun hu hth => .inr ((switch.other hu).symm.trans hth),
        fun {l g} hw => ?_⟩
      obtain ⟨rest, hth'⟩ := hw
      cases hth.symm.trans hth'
      cases how with
      | resumes _ ho => exact isSettled_iff.mpr ⟨_, ho⟩
      | interrupted _ hset => exact hset
    obtain ⟨ws, hsupplies⟩ := htends.supplies (t := t) (fun g ⟨rest, hth'⟩ => by
      rw [switch.self] at hth'
      cases hth'
      cases how) (owes_of_switch hf hth how switch)
    exact h.step hf hmoved hsupplies
  | passes idle he hstate => exact h.extends hf hf' he (.of_listeners (by rw [hstate]))
  | @ends _ t o runs switch _ =>
    have hth : m.thread? t = some ⟨.resumes o, []⟩ := thread?_of_running runs
    have htends : Tends l 0 m m' := .of_listeners (by rw [switch.state])
    have hmoved : Moved t m m' := by
      refine ⟨keeps_of_switch switch, fun hu hth => (switch.other hu).trans hth, fun hu hth => .inr ((switch.other hu).symm.trans hth),
        fun hw => ?_⟩
      obtain ⟨rest, hth'⟩ := hw
      cases hth.symm.trans hth'
    obtain ⟨ws, hsupplies⟩ := htends.supplies (t := t) (fun g ⟨rest, hth'⟩ => by
      rw [switch.self] at hth'
      cases hth') fun ho => by
        rcases ho with ⟨stack, hth'⟩ | ⟨top, g, rest, o', hth', -⟩ <;> cases hth.symm.trans hth'
    exact h.step hf hmoved hsupplies
  | @begins _ t r called root stack runs valid stands how deed =>
    have hmoved := Moved.of_deed deed hf runs rfl
    by_cases ht : r = .take l
    · subst ht
      cases stands
      obtain ⟨ws, hsupplies⟩ := take_supplies hk runs deed
      exact h.step hf hmoved hsupplies
    · obtain ⟨n, htends⟩ := how.tends (l := l) stands ht
      have hcalled : called ≠ .take l := by
        rintro rfl
        cases stands
        exact ht rfl
      obtain ⟨ws, hsupplies⟩ := (deed.tends hf.tidy htends).supplies (fun g => deed.not_waitsAt hcalled)
        fun ho => absurd ho (not_owes_of_begins hf runs ht)
      exact h.step hf hmoved hsupplies
  | @resumes t o F called root stack runs serves gets woke how deed =>
    have hmoved := Moved.of_deed deed hf runs rfl
    by_cases hF : ∃ g, F = .getting l g
    · obtain ⟨g, rfl⟩ := hF
      obtain ⟨ws, hsupplies⟩ := getting_supplies hf runs woke deed
      exact h.step hf hmoved hsupplies
    · have hne : ∀ g, F ≠ .getting l g := fun g heq => hF ⟨g, heq⟩
      obtain ⟨n, htends⟩ := how.tends (l := l) hf.tidy serves woke hne
      have hcalled : called ≠ .take l := by
        rintro rfl
        cases serves with
        | getting => exact hne _ rfl
        | finishing hx => cases hx
        | introducing hx => cases hx
        | expecting hx => cases hx
      obtain ⟨ws, hsupplies⟩ := (deed.tends hf.tidy htends).supplies (fun g => deed.not_waitsAt hcalled)
        fun ho => absurd ho (not_owes_of_resumes runs hne)
      exact h.step hf hmoved hsupplies

/-- And by whatever reaches the session. -/
theorem Fed.apply {i : Stimulus} (h : m.Fed l) (hf : Fits role m) (hr : m.running = none) (ha : i.Admissible held m) :
    (m.apply i).1.Fed l := by
  obtain ⟨ds, hgiven⟩ := apply_given (l := l) hf hr ha
  exact h.extends hf (hf.apply hr ha) (apply_arrives hf hr ha).extends_ hgiven.tends

theorem IsNew.fed (h : m.IsNew) : m.Fed l := by
  have hnone : ∀ {g u}, ¬ m.WaitsAt l g u := fun ⟨_, hth⟩ => by
    rw [h.isEmpty.thread?] at hth
    cases hth
  have hempty : (m.state.listener l).getters = [] := by
    obtain ⟨s, rfl⟩ := h
    rfl
  refine ⟨fun hw => absurd hw hnone, fun g hg => ?_, fun g hg => ?_⟩ <;> rw [hempty] at hg <;> cases hg

end Loop

variable {a : Moment} {past : List Moment} {l : ListenerId} {g : FutureId} {u : TaskId}

theorem IsRun.fed (h : IsRun (a :: past)) (l : ListenerId) : a.loop.Fed l :=
  (h.induction (P := fun a _ => a.loop.Fed l) (fun hm => hm.fed) fun ha hb hg hfed => by
    cases hg with
    | tick hq ht => exact hfed.tick ha.fits ha.known ht hb.fits
    | stimulus hr hs => exact hfed.apply ha.fits hr hs).2

/-- **Whoever waits for a listener when nothing can go on by itself waits for an empty queue.** -/
theorem IsRun.waits_for_nothing (h : IsRun (a :: past)) (hq : a.loop.isQuiet = true) (hw : a.loop.WaitsAt l g u) :
    (a.loop.state.listener l).queue = [] := by
  obtain ⟨role, hholds⟩ := h.holds
  have hsound := hholds.fits.tidy.sound
  have hfed := h.fed l
  obtain ⟨rest, hth⟩ := hw
  obtain ⟨f, stack, heq, hun⟩ := hsound.waits_of_quiet hq hth
  cases heq
  obtain ⟨us, -, hus, hlen⟩ := hfed.owed g (hfed.listed ⟨rest, hth⟩ hun) hun
  cases us with
  | nil => exact List.eq_nil_of_length_eq_zero (Nat.le_zero.mp hlen)
  | cons v us =>
    -- whoever owes something can go on
    rcases hus v List.mem_cons_self with ⟨stack, hth'⟩ | ⟨top, g', rest', o, hth', ho, -⟩
    · obtain ⟨_, _, heq, -⟩ := hsound.waits_of_quiet hq hth'
      cases heq
    · obtain ⟨f, _, heq, hun'⟩ := hsound.waits_of_quiet hq hth'
      cases heq
      obtain ⟨root, -, hfits⟩ := hholds.fits.threads hth'
      cases hfits with
      | waits _ hawaits _ =>
        cases hawaits
        rw [isSettled_iff.mpr ⟨o, ho⟩] at hun'
        cases hun'

end DiagnosticsClient
