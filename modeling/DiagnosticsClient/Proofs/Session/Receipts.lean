import DiagnosticsClient.Proofs.Session.Invariants
/-
What a step of a session does to the queues of its listeners.

A step hears some messages and then perhaps a farewell, and puts them into the
queue of every listener that was registered before it; or somebody takes the
first item of a queue. `Pours` says that nothing else happens to a queue: what is
taken in a step and what is in the queue after it are, in this order, what was in
it and what was put there.

An item is taken when a call for the next message of a listener goes on with it;
it then returns it, or raises if it is the end (`Thread.receipt`).
-/
namespace DiagnosticsClient

open Async Async.Machine

/-- The item with which a call for the next message of a listener goes on. -/
def Thread.receipt (th : Thread Routine Frame Value Failure) : Option (ListenerId × Delivery) :=
  match th.top, th.stack with
  | .resumes (.value (.delivery d)), .receiving l :: _ => some (l, d)
  | _, _ => none

namespace Loop

variable {role role' : FutureId → Role} {K : TaskId → Prop} {S : Routine → Prop} {roots : TaskId → Option Routine}
  {m m' m₁ : Loop} {t : TaskId} {l : ListenerId} {root called r : Routine} {F : Frame} {stack : List Frame} {o : Ending}
  {a : Move} {size : Nat} {th : Thread Routine Frame Value Failure} {s : Loop × Move} {held : List ListenerId}
  {ms : List Message} {e : Option (Option ServerError)}

/-- What the running task has just taken, and from which listener. -/
def receipt (m : Loop) : Option (ListenerId × Delivery) := m.running.bind fun x => Thread.receipt x.thread

/-- What the running task has just taken from a listener. -/
def receipts (m : Loop) (l : ListenerId) : List Delivery :=
  match m.receipt with
  | some (l', d) => if l' = l then [d] else []
  | none => []

/-- The messages received in a step. -/
def news (m m' : Loop) : List Message := m'.state.received.drop m.state.received.length

/-- The end that every listener is given in a step: the session is closed, or its transport has reported its end. -/
def farewell (m m' : Loop) : Option (Option ServerError) :=
  match m.running with
  | some (.resume _ (.value _) (.closing :: _)) => some none
  | _ => ((m'.state.reports.drop m.state.reports.length).find? fun r => m.state.current = some r.1).map (·.2)

/-- What is given to a listener in a step, if it was registered before it. -/
def gift (m m' : Loop) (l : ListenerId) : List Delivery :=
  if l ∈ m.state.registered then (news m m').map .message ++ (farewell m m').toList.map .ended else []

/-- Nothing happens to a queue but that something is put there, or taken. -/
structure Pours (m m' : Loop) : Prop where
  received : m'.state.received = m.state.received ++ news m m'
  delivered : ∀ l, m'.state.delivered l = m.state.delivered l ++ gift m m' l
  queue : ∀ l, m'.receipts l ++ (m'.state.listener l).queue = (m.state.listener l).queue ++ gift m m' l
  registered : (farewell m m').isSome = true → m'.state.registered = []

/-! ## What is taken -/

theorem receipts_of_not_running (h : m.running = none) : m.receipts l = [] := by
  unfold receipts receipt
  rw [h]
  rfl

theorem exists_of_receipt {d : ListenerId × Delivery} (h : Thread.receipt th = some d) :
    ∃ rest, th.top = .resumes (.value (.delivery d.2)) ∧ th.stack = .receiving d.1 :: rest := by
  unfold Thread.receipt at h
  split at h
  · next htop hstack =>
    cases h
    exact ⟨_, htop, hstack⟩
  · cases h

theorem isIdle_of_receipt {d : ListenerId × Delivery} (h : Thread.receipt th = some d) : th.top.isIdle = false := by
  obtain ⟨_, htop, -⟩ := exists_of_receipt h
  rw [htop]
  rfl

/-- Only the task that moves takes something. -/
theorem receipt_of_switch {th : Option (Thread Routine Frame Value Failure)} (hs : m.Switch t th m')
    (hr : ∀ x, m.running = some x → x.task = t) :
    m'.receipt = th.bind Thread.receipt := by
  unfold receipt
  cases hx : m'.running with
  | none =>
    cases hth : th.bind Thread.receipt with
    | none => rfl
    | some d =>
      obtain ⟨th', rfl, hd⟩ := Option.bind_eq_some_iff.mp hth
      obtain ⟨x, hx', -⟩ := running_of_thread? hs.self (isIdle_of_receipt hd)
      rw [hx] at hx'
      cases hx'
  | some x =>
    have hthread : m'.thread? x.task = some x.thread := thread?_of_running hx
    have htask : x.task = t := by
      refine Decidable.byContradiction fun hne => ?_
      rw [hs.other hne] at hthread
      obtain ⟨y, hy, htask, -⟩ := running_of_thread? hthread x.thread_isIdle
      exact hne (htask ▸ hr y hy)
    rw [htask, hs.self] at hthread
    rw [hthread]
    rfl

theorem receipts_of_switch {th : Option (Thread Routine Frame Value Failure)} (hs : m.Switch t th m')
    (hr : ∀ x, m.running = some x → x.task = t) (hnone : th.bind Thread.receipt = none) : m'.receipts l = [] := by
  unfold receipts
  rw [receipt_of_switch hs hr, hnone]

theorem receipt_of_ne (h : ∀ l rest, th.stack ≠ .receiving l :: rest) : Thread.receipt th = none := by
  cases hr : Thread.receipt th with
  | none => rfl
  | some d =>
    obtain ⟨rest, -, hstack⟩ := exists_of_receipt hr
    exact absurd hstack (h _ _)

theorem receipt_await (f : FutureId) (hF : ∀ l, F ≠ .receiving l) :
    Thread.receipt (m.nextThread stack (.await f F : Move)) = none := by
  refine receipt_of_ne fun l rest heq => ?_
  rw [stack_nextThread_await] at heq
  cases heq
  exact hF _ rfl

/-- Nothing is taken by what is done next, unless an item was asked for. -/
theorem MoveFits.receipt (hm : MoveFits role m size called a) (hs : Stacked roots root called stack)
    (ht : ∀ l, called ≠ .take l) : Thread.receipt (m.nextThread stack a) = none := by
  cases hm with
  | done =>
    refine receipt_of_ne ?_
    rintro l rest rfl
    cases hs with
    | cons hc => cases hc; exact ht l rfl
  | call => rfl
  | become => rfl
  | await _ hawaits =>
    refine receipt_await _ fun l heq => ?_
    subst heq
    cases hawaits

/-- What the running task takes is seen in what it does next. -/
theorem Deed.receipt (hd : Deed role role' m t root called stack s) (hr : ∀ x, m.running = some x → x.task = t) :
    Loop.receipt (s.1.perform t stack s.2) = Thread.receipt (s.1.nextThread stack s.2) :=
  receipt_of_switch hd.switch fun x hx => hr x (hd.does.effect.extends.running.symm.trans hx)

theorem Deed.receipts_eq_nil (hd : Deed role role' m t root called stack s) (hr : ∀ x, m.running = some x → x.task = t)
    (ht : ∀ l, called ≠ .take l) (l : ListenerId) : receipts (s.1.perform t stack s.2) l = [] := by
  rw [receipts, hd.receipt hr, hd.does.move.receipt hd.stacked ht]

/-! ## What is put into queues -/

theorem not_mem_of_ge (hl : Allotted (m.view Thread.right) m.state) (h : m.state.listeners.length ≤ l) :
    l ∉ m.state.registered := by
  intro hmem
  have hopened := hl.listed hmem
  rw [State.listener, List.getElem?_eq_none h] at hopened
  cases hopened

/-- What is given is put at the end of a queue. -/
theorem Given.queue_eq {m m' : Loop} {ds : List Delivery} (h : Given l ds m m') (hl : m.state.listeners.length ≤ l → ds = []) :
    (m'.state.listener l).queue = (m.state.listener l).queue ++ ds := by
  rcases Nat.lt_or_ge l m.state.listeners.length with hlt | hge
  · exact h.queue hlt
  · rw [h.same (hl hge), hl hge, List.append_nil]

/-- What those who are registered are given, when nobody is registered twice. -/
theorem gifts_of_nodup {registered : List ListenerId} (h : registered.Nodup) (ms : List Message)
    (e : Option (Option ServerError)) (l : ListenerId) :
    gifts registered ms e l = if l ∈ registered then ms.map .message ++ e.toList.map .ended else [] := by
  unfold gifts
  rw [h.count]
  split <;> cases e <;> simp

/-- The running task is not one that closes the session. -/
theorem farewell_of_reports (hr : ∀ t v stack, m.running ≠ some (.resume t (.value v) (.closing :: stack)))
    {rs : List (TransportId × Option ServerError)} (h : m'.state.reports = m.state.reports ++ rs) :
    farewell m m' = (rs.find? fun r => m.state.current = some r.1).map (·.2) := by
  unfold farewell
  split
  · next hrun => exact absurd hrun (hr _ _ _)
  · rw [h, List.drop_left]

theorem farewell_of_same (hr : ∀ t v stack, m.running ≠ some (.resume t (.value v) (.closing :: stack)))
    (h : m'.state.reports = m.state.reports) : farewell m m' = none := by
  rw [farewell_of_reports hr (h.trans (List.append_nil _).symm)]
  rfl

/-- To hear messages, and then perhaps an end, pours. -/
theorem Heard.pours (h : Heard ms e m m₁) (hl : Allotted (m.view Thread.right) m.state)
    (hr : ∀ t v stack, m.running ≠ some (.resume t (.value v) (.closing :: stack))) (hstate : m'.state = m₁.state)
    (hnone : ∀ l, m'.receipts l = []) : Pours m m' := by
  obtain ⟨rs, hrs, he⟩ := h.reports
  have hnews : news m m' = ms := by rw [news, hstate, h.received, List.drop_left]
  have hfarewell : farewell m m' = e := by rw [farewell_of_reports hr (hstate ▸ hrs), he]
  have hgift : ∀ l, gift m m' l = gifts m.state.registered ms e l := by
    intro l
    rw [gift, hnews, hfarewell, gifts_of_nodup hl.nodup]
  refine ⟨by rw [hnews, hstate, h.received], fun l => ?_, fun l => ?_, fun hsome => ?_⟩
  · rw [hgift, hstate, (h.given l).delivered]
  · rw [hgift, hnone, hstate, (h.given l).queue_eq fun hge => ?_, List.nil_append]
    rw [gifts_of_nodup hl.nodup, if_neg (not_mem_of_ge hl hge)]
  · rw [hfarewell] at hsome
    rw [hstate, h.registered, if_pos hsome]

/-- Where nothing is heard, a queue loses what is taken. -/
theorem Pours.of_quiet (hr : ∀ t v stack, m.running ≠ some (.resume t (.value v) (.closing :: stack)))
    (hreceived : m'.state.received = m.state.received) (hreports : m'.state.reports = m.state.reports)
    (hdelivered : ∀ l, m'.state.delivered l = m.state.delivered l)
    (hqueue : ∀ l, m'.receipts l ++ (m'.state.listener l).queue = (m.state.listener l).queue) : Pours m m' := by
  have hnews : news m m' = [] := by rw [news, hreceived, List.drop_length]
  have hfarewell : farewell m m' = none := farewell_of_same hr hreports
  have hgift : ∀ l, gift m m' l = [] := by
    intro l
    rw [gift, hnews, hfarewell]
    split <;> rfl
  refine ⟨by rw [hnews, hreceived, List.append_nil], fun l => ?_, fun l => ?_, fun hsome => ?_⟩
  · rw [hgift, hdelivered, List.append_nil]
  · rw [hgift, hqueue, List.append_nil]
  · rw [hfarewell] at hsome
    cases hsome

theorem Calm.pours (h : Calm role m m₁) (hr : ∀ t v stack, m.running ≠ some (.resume t (.value v) (.closing :: stack)))
    (hstate : m'.state = m₁.state) (hnone : ∀ l, m'.receipts l = []) : Pours m m' :=
  .of_quiet hr (hstate ▸ h.received) (hstate ▸ h.reports) (hstate ▸ h.delivered)
    fun _ => by rw [hnone, hstate, h.queue, List.nil_append]

theorem Still.pours (h : Still m.state m'.state)
    (hr : ∀ t v stack, m.running ≠ some (.resume t (.value v) (.closing :: stack))) (hnone : ∀ l, m'.receipts l = []) :
    Pours m m' :=
  .of_quiet hr (by simp only [State.received, h.log]) (by simp only [State.reports, h.log])
    (fun l => by simp only [State.delivered, h.log]) fun _ => by rw [hnone, h.listener, List.nil_append]

/-- Whoever takes an item takes the first. -/
theorem take_pours (hf : Fits role m) (hr : m.running = some (.begin t (.take l) stack))
    (hd : Deed role role' m t root (.take l) stack (begin (.take l) m)) :
    Pours m ((begin (.take l) m).1.perform t stack (begin (.take l) m).2) := by
  have hclosing : ∀ t v stack, m.running ≠ some (.resume t (.value v) (.closing :: stack)) := by
    rw [hr]
    exact fun _ _ _ h => by cases h
  have htask : ∀ x, m.running = some x → x.task = t := by
    rw [hr]
    rintro _ ⟨⟩
    rfl
  obtain ⟨below, rfl⟩ : ∃ below, stack = .receiving l :: below := by
    cases hd.stacked with
    | nil => cases hf.roots hd.made
    | cons hc => cases hc; exact ⟨_, rfl⟩
  cases hq : (m.state.listener l).queue with
  | cons item rest =>
    have hbegin : begin (.take l) m =
        (m.modifyListener l fun x => { x with queue := rest }, .done (.value (.delivery item))) := by
      simp only [begin, Loop.take, hq]
    rw [hbegin] at hd ⊢
    refine .of_quiet hclosing (by rw [hd.state]; rfl) (by rw [hd.state]; rfl) (fun l' => by rw [hd.state]; rfl)
      fun l' => ?_
    have hlt : l < m.state.listeners.length := by
      refine Nat.lt_of_not_le fun hge => ?_
      rw [State.listener, List.getElem?_eq_none hge] at hq
      cases hq
    have hlistener : (m.modifyListener l fun x => { x with queue := rest }).state.listener l' = _ :=
      listener_modifyListener m.state l l' _
    rw [receipts, hd.receipt htask, hd.state, hlistener]
    change (if l = l' then [item] else []) ++ _ = _
    by_cases hl : l = l'
    · subst hl
      rw [if_pos rfl, if_pos ⟨rfl, hlt⟩, hq]
      rfl
    · rw [if_neg hl, if_neg fun h => hl h.1.symm, List.nil_append]
  | nil =>
    have hbegin : begin (.take l) m = (m.future.1.modifyListener l fun x => { x with getters := x.getters ++ [m.futures.size] },
        .await m.futures.size (.getting l m.futures.size)) := by
      simp only [begin, Loop.take, hq]
      rfl
    rw [hbegin] at hd ⊢
    have hnone : ∀ l', receipts (Machine.perform _ t _ _) l' = [] := fun l' => 
      receipts_of_switch hd.switch htask (receipt_await _ fun l h => by cases h)
    refine .of_quiet hclosing (by rw [hd.state]; rfl) (by rw [hd.state]; rfl) (fun l' => by rw [hd.state]; rfl)
      fun l' => ?_
    have hlistener : (m.future.1.modifyListener l fun x => { x with getters := x.getters ++ [m.futures.size] }).state.listener l' = _ :=
      listener_modifyListener m.state l l' _
    rw [hnone, hd.state, hlistener]
    split
    · next h => rw [h.1]; rfl
    · rfl

/-- Whoever closes the session gives all who are registered their end. -/
theorem closing_pours (hf : Fits role m) (hl : Allotted (m.view Thread.right) m.state) {v : Value}
    (hr : m.running = some (.resume t (.value v) (.closing :: stack))) (hnone : ∀ l, m'.receipts l = [])
    (hstate : m'.state.listeners = (m.detachAll none).state.listeners ∧ m'.state.log = (m.detachAll none).state.log ∧
      m'.state.registered = (m.detachAll none).state.registered) : Pours m m' := by
  have hall := detachAll_delivers (K := fun _ => True) (S := fun _ => True) hf.tidy none
  have hreceived : m'.state.received = m.state.received := by
    simp only [State.received, hstate.2.1]
    exact hall.received
  have hnews : news m m' = [] := by rw [news, hreceived, List.drop_length]
  have hfarewell : farewell m m' = some none := by
    unfold farewell
    rw [hr]
  have hgift : ∀ l, gift m m' l = List.replicate (m.state.registered.count l) (.ended none) := by
    intro l
    rw [gift, hnews, hfarewell, hl.nodup.count]
    split <;> rfl
  refine ⟨by rw [hnews, hreceived, List.append_nil], fun l => ?_, fun l => ?_, fun _ => hstate.2.2.trans hall.registered⟩
  · rw [hgift]
    simp only [State.delivered, hstate.2.1]
    exact (hall.given l).delivered
  · rw [hgift, hnone, List.nil_append, State.listener, hstate.1]
    refine (hall.given l).queue_eq fun hge => ?_
    rw [List.count_eq_zero_of_not_mem (not_mem_of_ge hl hge)]
    rfl

/-! ## Every step pours -/

theorem Begins.pours (hf : Fits role m) (hl : Allotted (m.view Thread.right) m.state) (hr : m.running = some (.begin t r stack))
    (hstands : r.StandsFor called) (how : Begins role m r called) (hd : Deed role role' m t root called stack (begin r m)) :
    Pours m ((begin r m).1.perform t stack (begin r m).2) := by
  have hclosing : ∀ t v stack, m.running ≠ some (.resume t (.value v) (.closing :: stack)) := by
    rw [hr]
    exact fun _ _ _ h => by cases h
  have htask : ∀ x, m.running = some x → x.task = t := by
    rw [hr]
    rintro _ ⟨⟩
    rfl
  have hnone := hd.receipts_eq_nil htask
  cases how with
  | minor hdrive _ hheard =>
    exact hheard.pours hl hclosing hd.state (hnone fun l h => by rw [h] at hdrive; cases hdrive)
  | mild hdrive hacquire htake hmild =>
    refine hmild.toCalm.pours hclosing hd.state (hnone ?_)
    rintro l rfl
    cases hstands
    exact htake l rfl
  | acquire =>
    refine Still.pours ?_ hclosing (hnone fun l h => by cases h)
    rw [hd.state]
    simp only [begin, Loop.acquire]
    split <;> exact ⟨rfl, rfl, rfl⟩
  | take l => exact take_pours hf hr hd

theorem Resumes.pours (hf : Fits role m) (hl : Allotted (m.view Thread.right) m.state)
    (hr : m.running = some (.resume t o (F :: stack))) (hs : F.Serves m.routine? called)
    (how : Resumes role m o F called) (hd : Deed role role' m t root called stack (resume F o m)) :
    Pours m ((resume F o m).1.perform t stack (resume F o m).2) := by
  have htask : ∀ x, m.running = some x → x.task = t := by
    rw [hr]
    rintro _ ⟨⟩
    rfl
  have hclosing : F ≠ .closing → ∀ t v stack, m.running ≠ some (.resume t (.value v) (.closing :: stack)) := by
    rw [hr]
    intro hne _ _ _ h
    cases h
    exact hne rfl
  have hnone := hd.receipts_eq_nil htask
  cases how with
  | minor hdrive _ hheard =>
    refine hheard.pours hl (hclosing ?_) hd.state (hnone fun l h => by rw [h] at hdrive; cases hdrive)
    rintro rfl
    cases hs
    cases hdrive
  | mild hdrive hmildF hmild =>
    refine hmild.toCalm.pours (hclosing ?_) hd.state (hnone ?_)
    · rintro rfl
      cases hmildF
    · rintro l rfl
      cases hs with
      | getting => cases hmildF
      | finishing hx => cases hx
      | introducing hx => cases hx
      | expecting hx => cases hx
  | locking w h =>
    exact Still.pours (hd.state ▸ h) (hclosing fun h => by cases h) (hnone fun l h => by cases h)
  | registering l h =>
    exact Still.pours (hd.state ▸ h) (hclosing fun h => by cases h) (hnone fun l h => by cases h)
  | starting l c h =>
    exact Still.pours (hd.state ▸ h) (hclosing fun h => by cases h) (hnone fun l h => by cases h)
  | leaving l h =>
    exact Still.pours (hd.state ▸ h) (hclosing fun h => by cases h) (hnone fun l h => by cases h)
  | closing =>
    cases o with
    | value v =>
      refine closing_pours hf hl hr (hnone fun l h => by cases h) ?_
      rw [hd.state]
      simp only [resume, closeLocked]
      split
      · exact ⟨rfl, rfl, rfl⟩
      · rw [releaseLock_state]
        exact ⟨rfl, rfl, rfl⟩
    | _ =>
      refine Still.pours (hd.state ▸ ⟨rfl, rfl, rfl⟩) ?_ (hnone fun l h => by cases h)
      rw [hr]
      exact fun _ _ _ h => by cases h
  | releasing hcalled h =>
    refine Still.pours (hd.state ▸ h) (hclosing fun h => by cases h) (hnone fun l h => ?_)
    rcases hcalled with rfl | ⟨l, rfl⟩ <;> cases h
  | getting l g h =>
    refine h.pours (hclosing fun h => by cases h) hd.state fun l' => ?_
    rw [receipts, hd.receipt htask]
    cases o <;> rfl

/-- **Every step pours.** -/
theorem Tick.pours (ht : Tick role m role' m') (hf : Fits role m) (hl : Allotted (m.view Thread.right) m.state) :
    Pours m m' := by
  cases ht with
  | @awakes _ t th th' idle hth how switch =>
    refine Still.pours (switch.state ▸ ⟨rfl, rfl, rfl⟩) (by rw [idle]; exact fun _ _ _ h => by cases h)
      fun l => receipts_of_switch switch (fun x hx => by rw [idle] at hx; cases hx) (receipt_of_ne ?_)
    obtain ⟨root, -, hfits⟩ := hf.threads hth
    cases how with
    | begins => exact fun _ _ h => by cases h
    | dropped => exact fun _ _ h => by cases h
    | resumes =>
      rintro l rest rfl
      cases hfits with
      | waits _ hawaits _ => cases hawaits
    | interrupted =>
      rintro l rest rfl
      cases hfits with
      | waits _ hawaits _ => cases hawaits
  | passes idle he hstate =>
    exact Still.pours (hstate ▸ ⟨rfl, rfl, rfl⟩) (by rw [idle]; exact fun _ _ _ h => by cases h)
      fun l => receipts_of_not_running (he.running.trans idle)
  | @ends _ t o runs switch outcome =>
    refine Still.pours (switch.state ▸ ⟨rfl, rfl, rfl⟩) (by rw [runs]; exact fun _ _ _ h => by cases h)
      fun l => receipts_of_switch switch (fun x hx => ?_) rfl
    rw [runs] at hx
    cases hx
    rfl
  | begins runs valid stands how deed => exact how.pours hf hl runs stands deed
  | resumes runs serves gets woke how deed => exact how.pours hf hl runs serves deed

/-- **Whatever reaches the session pours, too.** -/
theorem apply_pours {s : Stimulus} (hf : Fits role m) (hl : Allotted (m.view Thread.right) m.state) (hr : m.running = none)
    (ha : s.Admissible held m) : Pours m (m.apply s).1 := by
  have hclosing : ∀ t v stack, m.running ≠ some (.resume t (.value v) (.closing :: stack)) := by
    rw [hr]
    exact fun _ _ _ h => by cases h
  have hquiet : ∀ {m' : Loop}, m'.running = m.running → ∀ l, m'.receipts l = [] :=
    fun h _ => receipts_of_not_running (h.trans hr)
  refine apply_cases (P := Pours m) hf hr ha ?_ ?_ (fun hset => ?_) fun hears => ?_
  · exact (show Mild role m m.listen.1 from .listen m).toCalm.pours hclosing rfl (hquiet rfl)
  · exact .of_quiet hclosing rfl rfl (fun _ => rfl) fun l => by
      have hnone : m.issueSeq.1.receipts l = [] := hquiet rfl l
      rw [hnone]
      rfl
  · exact .of_quiet hclosing (by rw [hset.state]) (by rw [hset.state]) (fun _ => by rw [hset.state])
      fun l => by rw [hquiet hset.extends_.running l, hset.state]; rfl
  · exact hears.pours hl hclosing rfl (hquiet hears.effect.extends.running)

/-- Who leaves is not registered any more, and nobody is given an end. -/
theorem Tick.leaving {v : Value} (ht : Tick role m role' m') (hl : Allotted (m.view Thread.right) m.state)
    (hmem : l ∈ m.state.registered) (hr : m.running = some (.resume t (.value v) (.leaving l :: stack))) :
    l ∉ m'.state.registered ∧ farewell m m' = none := by
  cases ht with
  | awakes idle => rw [idle] at hr; cases hr
  | passes idle => rw [idle] at hr; cases hr
  | ends runs => rw [runs] at hr; cases hr
  | begins runs => rw [runs] at hr; cases hr
  | resumes runs serves gets woke how deed =>
    rw [runs] at hr
    cases hr
    constructor
    · have herase : (resume (.leaving l) (.value v) m).1.state.registered = m.state.registered.erase l := by
        simp only [resume, leaveLocked]
        rw [if_pos (List.contains_iff_mem.mpr hmem)]
        split
        · rfl
        · rw [releaseLock_state]
          rfl
      rw [deed.state, herase]
      exact List.Nodup.not_mem_erase hl.nodup
    · cases how with
      | minor hdrive =>
        cases serves with
        | leaving => cases hdrive
      | mild _ hF => cases hF
      | leaving _ h =>
        refine farewell_of_same (by rw [runs]; exact fun _ _ _ h => by cases h) ?_
        rw [deed.state]
        simp only [State.reports, h.log]

end Loop

end DiagnosticsClient
