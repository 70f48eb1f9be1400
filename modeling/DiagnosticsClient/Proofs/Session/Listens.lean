import DiagnosticsClient.Proofs.Session.Limits
/-
What listening and asking do to a session.

Whoever asks for the lock or takes from a listener may have to wait for a new
future, which gets the role of what is waited for. All else these routines do is a change of what is shared, or to wake somebody; and what they do
next fits.
-/
namespace DiagnosticsClient

open Async Async.Machine

namespace Loop

variable {role : FutureId → Role} {K : TaskId → Prop} {S : Routine → Prop} {m m' : Loop} {f : FutureId} {l : ListenerId}
  {called r : Routine} {o : Ending} {s : Loop × Move}

/-! ## The lock -/

theorem Works.modifyLock (h : m.Tidy role) {k : Lock → Lock}
    (hk : ∀ f ∈ (k m.state.lock).waiters, m.HasRole role .lock f) : Works role K S m (m.modifyLock k) :=
  .modify h _ rfl id ⟨h.names.transports, h.names.children, hk, h.names.getters⟩

theorem Works.takeLock (h : m.Tidy role) : Works role K S m m.takeLock := .modifyLock h h.names.lock

theorem Works.wakeLock (h : m.Tidy role) : Works role K S m m.wakeLock := by
  unfold Loop.wakeLock
  split
  · exact .refl h
  · next f _ hw =>
    obtain ⟨hplain, hrole⟩ := h.names.lock f (hw ▸ List.mem_cons_self)
    have heff : Effect (permit role m.state.IsDead K S) m (m.settle f (.value .nothing)) :=
      .single (.settle _ hplain (.inr ⟨.inl hrole, rfl⟩))
    have hstate : (m.settle f (.value .nothing)).state = m.state := settle_state
    have hdead : ∀ {c}, m.state.IsDead c → (m.settle f (.value .nothing)).state.IsDead c := fun hc => by rwa [hstate]
    exact ⟨heff.mono (permit_covers hdead), hdead,
      h.effect heff hdead hdead (by rw [hstate]; exact names_extends h.names heff.extends), by rw [hstate]⟩

theorem Works.releaseLock (h : m.Tidy role) : Works role K S m m.releaseLock := by
  have hfree := Works.modifyLock (K := K) (S := S) h (k := fun lock => { lock with held := false }) h.names.lock
  exact hfree.trans (.wakeLock hfree.tidy)

/-- An end that gives nothing special. -/
theorem Does.done (h : Works role m.Cancellable (·.isOwn = true) m m') (hg : ∀ v, o = .value v → called.Gives m'.state v) :
    Does role role m called (m', .done o) :=
  .of_works h (.done hg)

/-- Another routine is called, which cancels nothing. -/
theorem Does.call {F : Frame} (h : Works role m.Cancellable (·.isOwn = true) m m') (hc : F.Calls r)
    (hs : F.Serves m'.routine? called) (hn : ∀ u, r ≠ .cancelAndWait u) (hv : r.Valid m'.routine?) :
    Does role role m called (m', .call r F) :=
  .of_works h (.call hc hs (not_minds hn) hv)

theorem acquire_does (h : m.Tidy role) :
    ∃ role', Does role role' m .acquireLock m.acquire ∧
      (m.lockIsFree = true → role' = role) ∧ (m.lockIsFree = false → role' = assign role m.futures.size .lock) := by
  unfold acquire
  by_cases hfree : m.lockIsFree = true
  · rw [if_pos hfree]
    exact ⟨role, .done (.takeLock h) fun _ _ => trivial, fun _ => rfl, fun hne => by rw [hfree] at hne; cases hne⟩
  · rw [if_neg hfree]
    obtain ⟨htidy, hrole⟩ := h.assign .lock
    have hqueue := Works.modifyLock (K := m.Cancellable) (S := (·.isOwn = true)) htidy
      (k := fun lock => { lock with waiters := lock.waiters ++ [m.future.2] }) fun f hf => by
        rcases List.mem_append.mp hf with hf | hf
        · exact htidy.names.lock f hf
        · exact List.mem_singleton.mp hf ▸ hrole
    refine ⟨_, ⟨?_, hqueue.dead, hqueue.tidy, agrees_assign .lock (Nat.le_refl _), hqueue.receiver, ?_⟩, fun hf => absurd hf hfree, fun _ => rfl⟩
    · exact .tail (.single (.newFuture m)) (.share _ _)
    · exact .await (.locking _) (.locking ⟨hrole.1, hrole.2⟩) fun _ => Nat.le_refl _

theorem acquireResumed_does (h : m.Tidy role) (w : FutureId) (o : Ending) :
    Does role role m .acquireLock (acquireResumed w o m) := by
  have hleave := Works.modifyLock (K := m.Cancellable) (S := (·.isOwn = true)) h
    (k := fun lock => { lock with waiters := lock.waiters.erase w }) fun f hf => h.names.lock f (List.mem_of_mem_erase hf)
  unfold acquireResumed
  dsimp only
  split
  · exact .done (hleave.trans (.takeLock hleave.tidy)) fun _ _ => trivial
  · refine .done ?_ fun _ _ => trivial
    split
    · exact hleave
    · exact hleave.trans (.wakeLock hleave.tidy)

theorem stopResumed_does (h : m.Tidy role) (hg : ∀ s v, called.Gives s v) (o : Ending) :
    Does role role m called (stopResumed o m) :=
  .of_works (.releaseLock h) (by unfold stopResumed; dsimp only; split <;> exact .done fun v _ => hg _ v)

/-! ## Opening -/

/-- A listener is changed, but not who waits for it. -/
theorem Works.modifyListener (h : m.Tidy role) (l : ListenerId) {k : Listener → Listener}
    (hk : ∀ listener, ∀ f ∈ (k listener).getters, f ∈ listener.getters) : Works role K S m (m.modifyListener l k) :=
  .modify h _ rfl id (h.names.modifyListener l fun listener _ hall f hf => hall f (hk listener f hf))

theorem openListener_does (h : m.Tidy role) (l : ListenerId) :
    Does role role m (.openListener l) (openListener l m) := by
  unfold openListener
  split
  · exact .done (.refl h) fun _ _ => trivial
  · exact .call (.modifyListener h l fun _ f hf => hf) (.opening l) (.opening l) (fun u hu => by cases hu) trivial

theorem openResumed_does (h : m.Tidy role) (l : ListenerId) (o : Ending) :
    Does role role m (.openListener l) (openResumed l o m) := by
  unfold openResumed
  split
  · exact .done (.refl h) fun _ _ => trivial
  · exact .done (.modifyListener h l fun _ f hf => hf) fun _ _ => trivial

theorem register_does (h : m.Tidy role) (l : ListenerId) :
    Does role role m (.register l) (m, .call .acquireLock (.registering l)) :=
  .call (.refl h) (.registering l) (.registering l) (fun u hu => by cases hu) trivial

theorem Aside.addTransport (h : m.Tidy role) : Aside role K S m m.addTransport.1 := by
  have hadd : ∀ {m₁ : Loop} (t : Transport), m₁.Tidy role → t.Names (m₁.HasRole role .other) m₁.IsReader →
      Aside role K S m₁ (m₁.modify fun s => { s with transports := s.transports ++ [t] }) := by
    intro m₁ t h₁ ht
    refine .modify h₁ _ rfl id ⟨fun t' ht' => ?_, h₁.names.children, h₁.names.lock, h₁.names.getters⟩
    rcases List.mem_append.mp ht' with ht' | ht'
    · exact h₁.names.transports t' ht'
    · exact List.mem_singleton.mp ht' ▸ ht
  unfold Loop.addTransport
  dsimp only
  split
  · exact hadd (.child {}) h ⟨fun u hu => (by cases hu), fun u hu => (by cases hu)⟩
  · have hrest := fun rehearsals => Aside.modify (K := K) (S := S) h (fun s => { s with rehearsals }) rfl id
      ⟨h.names.transports, h.names.children, h.names.lock, h.names.getters⟩
    exact (hrest _).trans
      (hadd (.rehearsed { rehearsal := _ }) (hrest _).tidy ⟨fun f hf => (by cases hf), fun f hf => (by cases hf)⟩)

/-- The registered listeners and the current transport are changed. -/
theorem Works.modifyDesk (h : m.Tidy role) (registered : List ListenerId → List ListenerId)
    (current : Option TransportId → Option TransportId) :
    Works role K S m (m.modify fun s => { s with registered := registered s.registered, current := current s.current }) :=
  .modify h _ rfl id ⟨h.names.transports, h.names.children, h.names.lock, h.names.getters⟩

theorem registerLocked_does (h : m.Tidy role) (l : ListenerId) (o : Ending) :
    Does role role m (.register l) (registerLocked l o m) := by
  have hreg := Works.modifyDesk (K := m.Cancellable) (S := (·.isOwn = true)) h (· ++ [l]) id
  unfold registerLocked
  split
  · dsimp only
    split
    · exact .done (hreg.trans (.releaseLock hreg.tidy)) fun _ _ => trivial
    · exact .call (hreg.trans (Aside.addTransport hreg.tidy).works) (.starting l _) (.starting l _)
        (fun u hu => by cases hu) trivial
  · exact .done (.refl h) fun _ _ => trivial

theorem startResumed_does (h : m.Tidy role) (l : ListenerId) (t : TransportId) (o : Ending) :
    Does role role m (.register l) (startResumed l t o m) := by
  unfold startResumed
  split
  · have hcur := Works.modifyDesk (K := m.Cancellable) (S := (·.isOwn = true)) h id fun _ => some t
    exact .done (hcur.trans (.releaseLock hcur.tidy)) fun _ _ => trivial
  · have hreg := Works.modifyDesk (K := m.Cancellable) (S := (·.isOwn = true)) h (·.erase l) id
    exact .done (hreg.trans (.releaseLock hreg.tidy)) fun _ _ => trivial

/-! ## Closing -/

theorem closeListener_does (h : m.Tidy role) (l : ListenerId) :
    Does role role m (.closeListener l) (closeListener l m) :=
  .call (.modifyListener h l fun _ f hf => hf) (.leaving l) (.leaving l) (fun u hu => by cases hu) trivial

theorem leaveLocked_does (h : m.Tidy role) (l : ListenerId) (o : Ending) :
    Does role role m (.closeListener l) (leaveLocked l o m) := by
  unfold leaveLocked
  split
  · split
    · have hreg := Works.modifyDesk (K := m.Cancellable) (S := (·.isOwn = true)) h (·.erase l) id
      dsimp only
      split
      · next t _ _ =>
        have hcur := hreg.trans (.modifyDesk hreg.tidy id fun _ => none)
        exact .call (hcur.trans (Aside.note hcur.tidy .debug _).works) (.releasing t) (.releasingListener l)
          (fun u hu => by cases hu) trivial
      · exact .done (hreg.trans (.releaseLock hreg.tidy)) fun _ _ => trivial
    · exact .done (.releaseLock h) fun _ _ => trivial
  · exact .done (.refl h) fun _ _ => trivial

theorem closeSession_does (h : m.Tidy role) :
    Does role role m .closeSession (m, .call .acquireLock .closing) :=
  .call (.refl h) .closing .closing (fun u hu => by cases hu) trivial

theorem Works.detachAll (h : m.Tidy role) (e : Option ServerError) : Works role K S m (m.detachAll e) := by
  have hclear := Works.modifyDesk (K := K) (S := S) h (fun _ => []) fun _ => none
  have hall := detachAll_delivers (K := K) (S := S) h e
  exact hclear.trans (hall.toActs.works hall.receiver)

theorem closeLocked_does (h : m.Tidy role) (o : Ending) : Does role role m .closeSession (closeLocked o m) := by
  unfold closeLocked
  split
  · have hdetach := Works.detachAll (K := m.Cancellable) (S := (·.isOwn = true)) h none
    dsimp only
    split
    · next t _ => exact .call hdetach (.releasing t) .releasingSession (fun u hu => by cases hu) trivial
    · exact .done (hdetach.trans (.releaseLock hdetach.tidy)) fun _ _ => trivial
  · exact .done (.refl h) fun _ _ => trivial

/-! ## Taking messages -/

theorem next_does (h : m.Tidy role) (l : ListenerId) : Does role role m (.next l) (next l m) := by
  unfold next
  dsimp only
  split
  · exact .done (.refl h) fun v hv => by cases hv
  · split
    · exact .done (.refl h) fun v hv => by cases hv
    · exact .call (.refl h) (.receiving l) (.receiving l) (fun u hu => by cases hu) trivial

theorem nextResumed_does (h : m.Tidy role) (l : ListenerId) (ho : ∀ v, o = .value v → ∃ d, v = .delivery d) :
    Does role role m (.next l) (nextResumed l o m) := by
  unfold nextResumed
  split
  · exact .done (.refl h) fun v hv => ⟨_, (Outcome.value.inj hv).symm⟩
  · exact .done (.modifyListener h l fun _ f hf => hf) fun v hv => by cases hv
  · next hmessage hended =>
    refine .done (.refl h) fun v hv => ?_
    obtain ⟨d, rfl⟩ := ho v hv
    cases d with
    | message message => exact absurd hv (hmessage message)
    | ended error => exact absurd hv (hended error)

theorem take_does (h : m.Tidy role) (l : ListenerId) :
    ∃ role', Does role role' m (.take l) (take l m) ∧
      ((m.state.listener l).queue ≠ [] → role' = role) ∧
      ((m.state.listener l).queue = [] → role' = assign role m.futures.size .getter) := by
  unfold take
  cases hq : (m.state.listener l).queue with
  | cons item rest =>
    exact ⟨role, .done (.modifyListener h l fun _ f hf => hf) fun v hv => ⟨_, (Outcome.value.inj hv).symm⟩,
      fun _ => rfl, fun hnil => (by cases hnil)⟩
  | nil =>
    obtain ⟨htidy, hrole⟩ := h.assign .getter
    have hqueue := Works.modify (K := m.Cancellable) (S := (·.isOwn = true)) htidy
      (·.modifyListener l fun listener => { listener with getters := listener.getters ++ [m.future.2] }) rfl id
      (htidy.names.modifyListener l fun listener _ hall f hf => by
        rcases List.mem_append.mp hf with hf | hf
        · exact hall f hf
        · exact List.mem_singleton.mp hf ▸ hrole)
    refine ⟨_, ⟨?_, hqueue.dead, hqueue.tidy, agrees_assign .getter (Nat.le_refl _), hqueue.receiver, ?_⟩, fun hne => absurd rfl hne, fun _ => rfl⟩
    · exact .tail (.single (.newFuture m)) (.share _ _)
    · exact .await (.getting l _) (.getting l ⟨hrole.1, hrole.2⟩) fun _ => Nat.le_refl _

theorem Tidy.getter (h : m.Tidy role) (hf : f ∈ (m.state.listener l).getters) : m.HasRole role .getter f := by
  unfold State.listener at hf
  cases hl : m.state.listeners[l]? with
  | none => simp [hl] at hf
  | some listener =>
    rw [hl] at hf
    exact h.names.getters listener (List.mem_of_getElem? hl) f hf

theorem Works.wakeGetter (h : m.Tidy role) (l : ListenerId) : Works role K S m (m.wakeGetter l) := by
  obtain ⟨heff, hstate, hmem, -⟩ := wakeNext_effect (D := m.state.IsDead) (K := K) (S := S) fun f (hf : f ∈ (m.state.listener l).getters) => h.getter hf
  have hwake : Works role K S m (m.wakeNext (m.state.listener l).getters).1 :=
    (Aside.of_effect h heff hstate).works
  refine hwake.trans (.modify hwake.tidy (·.modifyListener l fun listener =>
    { listener with getters := (m.wakeNext (m.state.listener l).getters).2 }) rfl id
    (hwake.tidy.names.modifyListener l fun _ _ _ f hf => ?_))
  exact (h.getter (hmem f hf)).extends hwake.effect.extends

theorem takeResumed_does (h : m.Tidy role) (l : ListenerId) {g : FutureId} (hg : m.isSettled g = true) (o : Ending) :
    Does role role m (.take l) (takeResumed l g o m) := by
  unfold takeResumed
  split
  · exact .of_works (.refl h) (.become (.refl _) trivial)
  · next hne =>
    have hleave := Works.modifyListener (K := m.Cancellable) (S := (·.isOwn = true)) h l
      (k := fun listener => { listener with getters := listener.getters.erase g }) fun _ f hf => List.mem_of_mem_erase hf
    rw [settle_of_isSettled hg]
    refine .done ?_ fun v hv => absurd hv (hne v)
    split
    · exact hleave.trans (.wakeGetter hleave.tidy l)
    · exact hleave

theorem collect_does (h : m.Tidy role) (l : ListenerId) :
    Does role role m (.collect l) (m, .call (.next l) (.collecting l [])) :=
  .call (.refl h) (.collecting l []) (.collecting l []) (fun u hu => by cases hu) trivial

theorem collectResumed_does (h : m.Tidy role) (l : ListenerId) (taken : List Message) (o : Ending) :
    Does role role m (.collect l) (collectResumed l taken o m) := by
  unfold collectResumed
  split
  · exact .call (.refl h) (.collecting l _) (.collecting l _) (fun u hu => by cases hu) trivial
  · exact .done (.refl h) fun _ _ => trivial
  · exact .done (.refl h) fun _ _ => trivial

/-! ## Visits -/

theorem Works.listen (h : m.Tidy role) : Works role K S m m.listen.1 := by
  refine .modify h (fun s => { s with listeners := s.listeners ++ [{}] }) rfl id
    ⟨h.names.transports, h.names.children, h.names.lock, fun listener hl => ?_⟩
  rcases List.mem_append.mp hl with hl | hl
  · exact h.names.getters listener hl
  · rw [List.mem_singleton.mp hl]
    exact fun f hf => by cases hf

theorem visit_does (h : m.Tidy role) (count : Nat) : Does role role m (.visit count) (visit count m) :=
  .call (.listen h) (.visiting _ count) (.visiting _ count count) (fun u hu => by cases hu) trivial

theorem visitOn_does (h : m.Tidy role) (total : Nat) (l : ListenerId) (count : Nat) (taken : List Message) :
    Does role role m (.visit total) (visitOn l count taken m) := by
  unfold visitOn
  split
  · exact .call (.refl h) (.finishing _ l) (.finishingVisit _ total) (fun u hu => by cases hu) trivial
  · exact .call (.refl h) (.visited l _ taken) (.visited l _ total taken) (fun u hu => by cases hu) trivial

theorem visitOpened_does (h : m.Tidy role) (total : Nat) (l : ListenerId) (count : Nat) (o : Ending) :
    Does role role m (.visit total) (visitOpened l count o m) := by
  unfold visitOpened
  split
  · exact visitOn_does h total l count []
  · exact .done (.refl h) fun _ _ => trivial

theorem visitResumed_does (h : m.Tidy role) (total : Nat) (l : ListenerId) (count : Nat) (taken : List Message)
    (o : Ending) : Does role role m (.visit total) (visitResumed l count taken o m) := by
  unfold visitResumed
  split
  · exact visitOn_does h total l count _
  · exact .call (.refl h) (.finishing _ l) (.finishingVisit _ total) (fun u hu => by cases hu) trivial

theorem cleanedUp_does (h : m.Tidy role) {ending : Ending} (hg : ∀ v, ending = .value v → called.Gives m.state v) (o : Ending) :
    Does role role m called (cleanedUp ending o m) := by
  unfold cleanedUp
  split
  · exact .done (.refl h) hg
  · next hne => exact .done (.refl h) fun v hv => absurd hv (hne v)

/-! ## Asking -/

/-- What answers the second of two requests is what those who ask may give. -/
theorem gives_of_answers {opening asking : Request} (hx : called.Exchanges opening asking) (s : State) {v : Value}
    (hv : v.Answers asking) : called.Gives s v := by
  cases hx with
  | exchange => exact hv
  | request file n => exact ⟨_, hv⟩

theorem Works.issueSeq (h : m.Tidy role) : Works role K S m m.issueSeq.1 :=
  .modify h (fun s => { s with nextSeq := s.nextSeq + 1 }) rfl id
    ⟨h.names.transports, h.names.children, h.names.lock, h.names.getters⟩

theorem request_does (h : m.Tidy role) (file : Json) (limit : Option Seconds) :
    Does role role m (.request file limit) (request file limit m) := by
  have hfirst := Works.issueSeq (K := m.Cancellable) (S := (·.isOwn = true)) h
  have hboth := hfirst.trans (.issueSeq hfirst.tidy)
  unfold request
  dsimp only
  split
  · exact .of_works hboth (.become (.exchange (.request file _)) trivial)
  · next limit =>
    exact .call hboth (.requesting file _ limit _) (.requesting file _ limit) (fun u hu => by cases hu) rfl

theorem requestResumed_does (h : m.Tidy role) (file : Json) (seq : Int) (limit : Seconds)
    (ho : ∀ v, o = .value v → v.Answers (.semanticDiagnostics seq file)) :
    Does role role m (.request file (some limit)) (requestResumed file seq limit o m) := by
  unfold requestResumed
  split
  · exact .done (.refl h) fun v hv => by cases hv
  · exact .done (.refl h) fun v hv => ⟨seq, ho v hv⟩

theorem exchange_does (h : m.Tidy role) {opening asking : Request} (hx : called.Exchanges opening asking) :
    Does role role m called (exchange opening asking m) :=
  .call (.listen h) (.introducing _ opening asking) (.introducing hx) (fun u hu => by cases hu) trivial

theorem exchangeOpened_does (h : m.Tidy role) {opening asking : Request} (hx : called.Exchanges opening asking)
    (l : ListenerId) (o : Ending) : Does role role m called (exchangeOpened l opening asking o m) := by
  unfold exchangeOpened
  split
  · have hsend := Aside.sendAll (K := m.Cancellable) (S := (·.isOwn = true)) h [opening, asking]
    split <;> rename_i hm <;> rw [hm] at hsend
    · exact .call hsend.works (.expecting l asking) (.expecting hx) (fun u hu => by cases hu) trivial
    · exact .call hsend.works (.finishing _ l) (.finishing hx fun v hv => by cases hv) (fun u hu => by cases hu) trivial
  · next hne => exact .done (.refl h) fun v hv => absurd hv (hne v)

theorem exchangeResumed_does (h : m.Tidy role) {opening asking : Request} (hx : called.Exchanges opening asking)
    (l : ListenerId) (ho : ∀ v, o = .value v → ∃ message, v = .message message) :
    Does role role m called (exchangeResumed l asking o m) := by
  have hleave : ∀ {m' : Loop} {ending : Ending}, Works role m.Cancellable (·.isOwn = true) m m' →
      (∀ v, ending = .value v → v.Answers asking) →
      Does role role m called (m', .call (.closeListener l) (.finishing ending)) :=
    fun hw he => .call hw (.finishing _ l) (.finishing hx he) (fun u hu => by cases hu) trivial
  have hwait : Does role role m called (m, .call (.next l) (.expecting l asking)) :=
    .call (.refl h) (.expecting l asking) (.expecting hx) (fun u hu => by cases hu) trivial
  unfold exchangeResumed
  dsimp only
  split
  · next response =>
    split
    · next ha => exact hleave (Aside.note h .debug _).works fun v hv => Outcome.value.inj hv ▸ ha
    · exact hwait
  · exact hwait
  · exact hleave (.refl h) fun v hv => by cases hv
  · next hvalue hend => exact hleave (.refl h) fun v hv => absurd hv (hvalue v)

end Loop

end DiagnosticsClient
