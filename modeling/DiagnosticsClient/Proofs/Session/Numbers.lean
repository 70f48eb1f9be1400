import DiagnosticsClient.Proofs.Session.Tasks
/-
The numbers of requests.

A task that asks for diagnostics is given a number as it begins, and no other is given the
same (`IsRun.numbers_ne`). From then on it quotes that number: the last of its frames
names it, and what it ends with answers the request that has it (`IsRun.quotes`).
-/
namespace DiagnosticsClient

open Async Async.Machine

/-- The number that a task is given for its request for diagnostics, if it begins now. -/
def Moment.issues (u : TaskId) (a : Moment) : Option Nat :=
  match a.loop.running with
  | some (.begin t (.request ..) []) => if t = u then some (a.loop.state.nextSeq + 1) else none
  | _ => none

/-- The numbers that a task was given for its request for diagnostics. -/
def numbers (u : TaskId) (moments : List Moment) : List Nat := moments.filterMap (·.issues u)

/-- A frame has to do with the request for the diagnostics of a file that has this number. -/
def Frame.Quotes (file : Json) (n : Int) : Frame → Prop
  | .requesting f seq _ => f = file ∧ seq = n
  | .introducing _ _ asking => asking = .semanticDiagnostics n file
  | .expecting _ asking => asking = .semanticDiagnostics n file
  | .finishing e => ∀ v, e = .value v → v.Answers (.semanticDiagnostics n file)
  | _ => False

/-- A task has to do with the request for the diagnostics of a file that has this number; it was called by `base`. -/
inductive Thread.Quotes (file : Json) (n : Int) (base : List Frame) : Thread Routine Frame Value Failure → Prop
  | exchanges (opening : Request) : Quotes file n base ⟨.begins (.exchange opening (.semanticDiagnostics n file)), base⟩
  | below {top : Top Routine Value Failure} {stack : List Frame} {F : Frame} (hsuffix : F :: base <:+ stack)
      (h : F.Quotes file n) : Quotes file n base ⟨top, stack⟩
  | ends {o : Ending} (h : ∀ v, o = .value v → v.Answers (.semanticDiagnostics n file)) : Quotes file n base ⟨.resumes o, base⟩

namespace Loop

variable {role role' : FutureId → Role} {m m' : Loop} {u : TaskId} {called r : Routine} {F : Frame} {stack : List Frame}
  {o : Ending} {th : Thread Routine Frame Value Failure} {held : List ListenerId} {file : Json} {n : Int}
  {limit : Option Seconds} {base : List Frame}

/-! ## Numbers are not given twice -/

theorem Begins.nextSeq (h : Begins role m r called) : m.state.nextSeq ≤ (begin r m).1.state.nextSeq := by
  cases h with
  | minor _ _ h => exact Nat.le_of_eq h.nextSeq.symm
  | mild _ _ _ h => exact h.nextSeq
  | acquire =>
    simp only [begin, Loop.acquire]
    split <;> exact Nat.le_refl _
  | take l =>
    simp only [begin, Loop.take]
    split <;> exact Nat.le_refl _

theorem Resumes.nextSeq (h : Resumes role m o F called) (ht : m.Tidy role) :
    m.state.nextSeq ≤ (resume F o m).1.state.nextSeq := by
  cases h with
  | minor _ _ h => exact Nat.le_of_eq h.nextSeq.symm
  | mild _ _ h => exact h.nextSeq
  | locking _ h => exact Nat.le_of_eq h.nextSeq.symm
  | registering _ h => exact Nat.le_of_eq h.nextSeq.symm
  | starting _ _ h => exact Nat.le_of_eq h.nextSeq.symm
  | leaving _ h => exact Nat.le_of_eq h.nextSeq.symm
  | closing =>
    have hall := (detachAll_delivers (K := fun _ => True) (S := fun _ => True) ht none).nextSeq
    simp only [resume, closeLocked]
    split
    · split
      · exact Nat.le_of_eq hall.symm
      · rw [releaseLock_state]
        exact Nat.le_of_eq hall.symm
    · exact Nat.le_refl _
  | releasing _ h => exact Nat.le_of_eq h.nextSeq.symm
  | getting _ _ h => exact h.nextSeq

theorem Tick.nextSeq (ht : Tick role m role' m') (hf : Fits role m) : m.state.nextSeq ≤ m'.state.nextSeq := by
  cases ht with
  | awakes _ _ _ switch => exact Nat.le_of_eq (by rw [switch.state])
  | passes _ _ h => exact Nat.le_of_eq (by rw [h])
  | ends _ switch _ => exact Nat.le_of_eq (by rw [switch.state])
  | begins _ _ _ how deed =>
    rw [deed.state]
    exact how.nextSeq
  | resumes _ _ _ _ how deed =>
    rw [deed.state]
    exact how.nextSeq hf.tidy

/-- Whoever begins to ask uses two numbers. -/
theorem nextSeq_request : (begin (.request file limit) m).1.state.nextSeq = m.state.nextSeq + 2 := by
  cases limit <;> rfl

/-! ## What is quoted -/

/-- What the last frame of a request goes on with quotes the same number. -/
theorem quotes_resume (h : F.Quotes file n) (hg : F.Gets m.state o) :
    Thread.Quotes file n base ((resume F o m).1.nextThread base (resume F o m).2) := by
  have hleave : ∀ {l : ListenerId} {e : Ending}, (∀ v, e = .value v → v.Answers (.semanticDiagnostics n file)) →
      Thread.Quotes file n base ⟨.begins (.closeListener l), .finishing e :: base⟩ := fun he => .below (List.suffix_refl _) he
  cases F with
  | requesting f seq limit =>
    obtain ⟨rfl, rfl⟩ := h
    simp only [resume, requestResumed]
    split
    · exact .ends fun v hv => by cases hv
    · refine .ends fun v hv => ?_
      rcases hg with hg | ⟨r, hc, hg⟩
      · cases hg
      · cases hc
        exact hg v hv
  | introducing l opening asking =>
    subst h
    simp only [resume, exchangeOpened]
    split
    · split
      · exact .below (List.suffix_refl _) rfl
      · exact hleave fun v hv => by cases hv
    · next hne => exact .ends fun v hv => absurd hv (hne v)
  | expecting l asking =>
    subst h
    simp only [resume, exchangeResumed]
    split
    · split
      · next ha => exact hleave fun v hv => Outcome.value.inj hv ▸ ha
      · exact .below (List.suffix_refl _) rfl
    · exact .below (List.suffix_refl _) rfl
    · exact hleave fun v hv => by cases hv
    · next hne _ => exact hleave fun v hv => absurd hv (hne v)
  | finishing e =>
    simp only [resume, cleanedUp]
    split
    · exact .ends h
    · next hne => exact .ends fun v hv => absurd hv (hne v)
  | _ => exact h.elim

/-- **A task quotes its number until the request has ended.** -/
theorem Turn.quotes (ht : Turn role m u th role' m') (h : Thread.Quotes file n base th) :
    (∃ th', m'.thread? u = some th' ∧ Thread.Quotes file n base th') ∨
      ∃ o, th = ⟨.resumes o, base⟩ ∧ ∀ v, o = .value v → v.Answers (.semanticDiagnostics n file) := by
  cases h with
  | ends h => exact .inr ⟨_, rfl, h⟩
  | exchanges opening =>
    obtain ⟨-, -, called, root, -, -, hdeed, rfl⟩ := ht.of_begins
    exact .inl ⟨_, hdeed.switch.self, .below (List.suffix_refl _) rfl⟩
  | below hsuffix hF =>
    rcases ht.beneath hsuffix with ⟨o, heq⟩ | ⟨th', hth', hsuffix'⟩
    · cases heq
      cases ht with
      | rests idle => cases idle
      | awakes how => cases how
      | resumes runs serves gets how deed => exact .inl ⟨_, deed.switch.self, quotes_resume hF gets⟩
    · exact .inl ⟨th', hth', .below hsuffix' hF⟩

/-- Whoever begins to ask quotes the number it is given. -/
theorem quotes_request : Thread.Quotes file (m.state.nextSeq + 1 : Nat) base
    ((begin (.request file limit) m).1.nextThread base (begin (.request file limit) m).2) := by
  cases limit with
  | none => exact .exchanges _
  | some limit => exact .below (List.suffix_refl _) ⟨rfl, rfl⟩

end Loop

section goes

variable {role role' : FutureId → Role} {a b : Moment} {past : List Moment} {u v : TaskId} {n n' : Nat} {file : Json}
  {limit : Option Seconds} {th : Thread Routine Frame Value Failure} {o : Ending}

theorem Moment.issues_eq_some (h : a.issues u = some n) : n = a.loop.state.nextSeq + 1 ∧
    ∃ file limit, a.loop.running = some (.begin u (.request file limit) []) := by
  unfold Moment.issues at h
  split at h
  · next t file limit hr =>
    split at h
    · next heq =>
      cases h
      exact ⟨rfl, file, limit, heq ▸ hr⟩
    · cases h
  · cases h

/-- Only a task that begins its request is given a number. -/
theorem Moment.issues_eq_none (hth : a.loop.thread? u = some th) (h : ∀ file limit, th ≠ ⟨.begins (.request file limit), []⟩) :
    a.issues u = none := by
  refine Option.eq_none_iff_forall_ne_some.mpr fun n hn => ?_
  obtain ⟨-, file, limit, hr⟩ := issues_eq_some hn
  exact h file limit (Option.some.inj (hth.symm.trans (thread?_of_running hr)))

theorem Moment.issues_of_not_running (h : ∀ x, a.loop.running = some x → x.task ≠ u) : a.issues u = none := by
  refine Option.eq_none_iff_forall_ne_some.mpr fun n hn => ?_
  obtain ⟨-, file, limit, hr⟩ := issues_eq_some hn
  exact h _ hr rfl

theorem Moment.Holds.issues_of_ended (hb : b.Holds role) (ho : b.loop.taskOutcome? u = some o) : b.issues u = none :=
  Moment.issues_of_not_running (hb.task_ne_of_ended ho)

theorem numbers_cons (h : b.issues u = none) : numbers u (b :: a :: past) = numbers u (a :: past) :=
  List.filterMap_cons_none h

theorem Goes.nextSeq (hg : Goes role a role' b) (ha : a.Holds role) : a.loop.state.nextSeq ≤ b.loop.state.nextSeq := by
  cases hg with
  | tick hq ht => exact ht.nextSeq ha.fits
  | stimulus hr hs =>
    exact Loop.apply_cases (P := fun m' => a.loop.state.nextSeq ≤ m'.state.nextSeq) ha.fits hr hs (Nat.le_refl _) (Nat.le_succ _)
      (fun hset => Nat.le_of_eq (by rw [hset.state])) fun hears => Nat.le_of_eq hears.nextSeq.symm

/-- Whoever begins to ask is given two numbers. -/
theorem Goes.nextSeq_of_request {t : TaskId} {stack : List Frame} (hg : Goes role a role' b)
    (hr : a.loop.running = some (.begin t (.request file limit) stack)) : b.loop.state.nextSeq = a.loop.state.nextSeq + 2 := by
  cases hg with
  | stimulus hnot => cases hnot.symm.trans hr
  | tick hq ht =>
    dsimp only
    generalize Machine.tick Loop.program a.loop = m' at ht
    cases ht with
    | awakes idle => cases idle.symm.trans hr
    | passes idle => cases idle.symm.trans hr
    | ends runs => cases runs.symm.trans hr
    | begins runs valid stands how deed =>
      cases runs.symm.trans hr
      rw [deed.state, Loop.nextSeq_request]
    | resumes runs => cases runs.symm.trans hr

/-- A number that is given is not given any more. -/
theorem Goes.issues_lt (hg : Goes role a role' b) (hn : a.issues u = some n) :
    n < b.loop.state.nextSeq := by
  obtain ⟨rfl, file, limit, hr⟩ := Moment.issues_eq_some hn
  rw [hg.nextSeq_of_request hr]
  exact Nat.lt_succ_self _

theorem IsRun.numbers_lt (h : IsRun (a :: past)) : ∀ u, ∀ n ∈ numbers u past, n < a.loop.state.nextSeq := by
  refine (h.induction (P := fun a past => ∀ u, ∀ n ∈ numbers u past, n < a.loop.state.nextSeq) (fun _ _ _ hn => by cases hn)
    fun {_ _ a b past} ha hb hg hp u n hn => ?_).2
  cases hi : a.issues u with
  | none =>
    rw [numbers, List.filterMap_cons_none hi] at hn
    exact Nat.lt_of_lt_of_le (hp u n hn) (hg.nextSeq ha)
  | some k =>
    rw [numbers, List.filterMap_cons_some hi] at hn
    rcases List.mem_cons.mp hn with rfl | hn
    · exact hg.issues_lt hi
    · exact Nat.lt_of_lt_of_le (hp u n hn) (hg.nextSeq ha)

/-- **No two tasks are given the same number.** -/
theorem IsRun.numbers_ne (h : IsRun (a :: past)) (huv : u ≠ v) (hn : n ∈ numbers u (a :: past))
    (hn' : n' ∈ numbers v (a :: past)) : n ≠ n' := by
  induction past generalizing a with
  | nil =>
    -- nobody runs in a new session
    cases h with
    | new hm =>
      obtain ⟨c, hc, hi⟩ := List.mem_filterMap.mp hn
      rw [List.mem_singleton.mp hc] at hi
      obtain ⟨-, _, _, hr⟩ := Moment.issues_eq_some hi
      cases hm.isEmpty.running.symm.trans hr
  | cons b past ih =>
    have hold := h.numbers_lt
    have hcases : ∀ {w k}, k ∈ numbers w (a :: b :: past) → a.issues w = some k ∨ k ∈ numbers w (b :: past) := by
      intro w k hk
      cases hi : a.issues w with
      | none => exact .inr (by rwa [numbers_cons hi] at hk)
      | some j =>
        rw [numbers, List.filterMap_cons_some hi] at hk
        rcases List.mem_cons.mp hk with rfl | hk
        · exact .inl rfl
        · exact .inr hk
    rintro rfl
    rcases hcases hn with hi | hn <;> rcases hcases hn' with hi' | hn'
    · obtain ⟨-, _, _, hr⟩ := Moment.issues_eq_some hi
      obtain ⟨-, _, _, hr'⟩ := Moment.issues_eq_some hi'
      cases hr.symm.trans hr'
      exact huv rfl
    · have := hold v n hn'
      have := (Moment.issues_eq_some hi).1
      omega
    · have := hold u n hn
      have := (Moment.issues_eq_some hi').1
      omega
    · exact ih h.lastStep.1 hn hn' rfl

/-- How far a task has got with its request for diagnostics. -/
inductive Numbered (u : TaskId) (file : Json) (limit : Option Seconds) (a : Moment) (past : List Moment) :
    Thread Routine Frame Value Failure → Prop
  | fresh (hn : numbers u (a :: past) = []) : Numbered u file limit a past ⟨.fresh (.request file limit), []⟩
  | begins (hn : numbers u past = []) : Numbered u file limit a past ⟨.begins (.request file limit), []⟩
  | dropped : Numbered u file limit a past ⟨.resumes .cancelled, []⟩
  | quotes {n : Nat} {th : Thread Routine Frame Value Failure} (hn : numbers u (a :: past) = [n]) (h : Thread.Quotes file n [] th) :
      Numbered u file limit a past th

theorem Thread.Quotes.ne_begins {n : Int} (h : Thread.Quotes file n [] th) (file' : Json) (limit : Option Seconds) :
    th ≠ ⟨.begins (.request file' limit), []⟩ := by
  rintro rfl
  cases h with
  | below hsuffix => cases List.suffix_nil.mp hsuffix

/-- What is given for the request of a task stays with it at the next moment. -/
theorem Numbered.step (h : Numbered u file limit a past th) (hb : b.Holds role')
    (ht : Loop.Turn role a.loop u th role' b.loop) :
    (∃ th', b.loop.thread? u = some th' ∧ Numbered u file limit b (a :: past) th') ∨
      ∃ o, b.loop.taskOutcome? u = some o ∧
        ∀ v, o = .value v → ∃ n, numbers u (b :: a :: past) = [n] ∧ v.Answers (.semanticDiagnostics n file) := by
  have hquotes : ∀ {th' n}, b.loop.thread? u = some th' → numbers u (a :: past) = [n] → Thread.Quotes file n [] th' →
      Numbered u file limit b (a :: past) th' := fun hth' hn hq =>
    .quotes ((numbers_cons (Moment.issues_eq_none hth' hq.ne_begins)).trans hn) hq
  cases h with
  | quotes hn hq =>
    rcases ht.quotes hq with ⟨th', hth', hq'⟩ | ⟨o, rfl, hv⟩
    · exact .inl ⟨th', hth', hquotes hth' hn hq'⟩
    · have ho := ht.of_ends
      exact .inr ⟨o, ho, fun v hval => ⟨_, (numbers_cons (hb.issues_of_ended ho)).trans hn, hv v hval⟩⟩
  | fresh hn =>
    refine .inl ?_
    cases ht with
    | rests _ _ hth' =>
      exact ⟨_, hth', .fresh ((numbers_cons (Moment.issues_eq_none hth' fun _ _ h => by cases h)).trans hn)⟩
    | awakes how switch =>
      cases how with
      | begins => exact ⟨_, switch.self, .begins hn⟩
      | dropped => exact ⟨_, switch.self, .dropped⟩
  | begins hn =>
    -- the number is given at this moment, and is quoted at the next
    obtain ⟨hr, -, called, root, -, -, hdeed, hb'⟩ := ht.of_begins
    have hi : a.issues u = some (a.loop.state.nextSeq + 1) := by simp [Moment.issues, hr]
    have hth' : b.loop.thread? u = _ := hb' ▸ hdeed.switch.self
    refine .inl ⟨_, hth', hquotes hth' ?_ Loop.quotes_request⟩
    rw [numbers, List.filterMap_cons_some hi, ← numbers, hn]
  | dropped =>
    cases ht with
    | rests idle => cases idle
    | awakes how => cases how
    | ends outcome => exact .inr ⟨_, outcome, fun v h => by cases h⟩

/-- **What a request for diagnostics returns answers the request that has its number.** -/
theorem IsRun.quotes (h : IsRun (a :: past)) (hroot : a.loop.routine? u = some (.request file limit)) :
    (∃ th, a.loop.thread? u = some th ∧ Numbered u file limit a past th) ∨
      ∃ o, a.loop.taskOutcome? u = some o ∧
        ∀ v, o = .value v → ∃ n, numbers u (a :: past) = [n] ∧ v.Answers (.semanticDiagnostics n file) := by
  refine h.follow (P := Numbered u file limit) (Q := fun a past o => ∀ v, o = .value v →
    ∃ n, numbers u (a :: past) = [n] ∧ v.Answers (.semanticDiagnostics n file)) (fun {a past} hpast hth => .fresh ?_)
    (fun _ _ hb _ _ _ hturn hp => hp.step hb hturn) (fun {role role' a b past o} _ ha hb hg ho hq v hv => ?_) hroot
  · -- who was not there was given no number
    refine List.filterMap_eq_nil_iff.mpr fun c hc => ?_
    rcases List.mem_cons.mp hc with rfl | hc
    · exact Moment.issues_eq_none hth fun _ _ h => by cases h
    · refine Option.eq_none_iff_forall_ne_some.mpr fun n hn => ?_
      obtain ⟨-, _, _, hr⟩ := Moment.issues_eq_some hn
      cases (hpast c hc).symm.trans (thread?_of_running hr)
  · obtain ⟨n, hn, hanswers⟩ := hq v hv
    exact ⟨n, (numbers_cons (hb.issues_of_ended (hg.ended ha hb ho))).trans hn, hanswers⟩

end goes

end DiagnosticsClient
