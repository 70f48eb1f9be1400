import DiagnosticsClient.Proofs.Session.Doings
/-
Who is woken by the clock.

Only who limits a time sets a timer, for a new future that he waits for himself
(`Goes.alarms`). So nobody is let through a gate because some time is up (`IsRun.not_alarmed`).
-/
namespace DiagnosticsClient

open Async Async.Machine

namespace Loop

variable {m m' : Loop} {t : TransportId} {c : ChildId} {f : FutureId}

@[simp] theorem alarms_writeLine (t : TransportId) (line : Except EncodeError Bytes) : (m.writeLine t line).1.alarms = m.alarms := by
  unfold writeLine
  dsimp only
  split
  · split
    · rfl
    · split <;> rfl
  · rfl

@[simp] theorem alarms_write (t : TransportId) (request : Request) : (m.write t request).1.alarms = m.alarms := by
  unfold write
  split
  · rfl
  · have hline := alarms_writeLine (m := m) t (encodeMessage m.state.settings.encoding (.request request))
    split <;> rename_i hm <;> rw [hm] at hline
    · exact hline
    · exact (alarms_of_doings (doings_react _ _)).trans hline
    · exact hline

@[simp] theorem alarms_send (request : Request) : (m.send request).1.alarms = m.alarms := by
  unfold send
  dsimp only
  split
  · rfl
  · exact alarms_write _ _

@[simp] theorem alarms_sendAll (rs : List Request) : (m.sendAll rs).1.alarms = m.alarms := by
  induction rs generalizing m with
  | nil => rfl
  | cons r rest ih =>
    have hsend := alarms_send (m := m) r
    unfold sendAll
    split <;> rename_i hm <;> rw [hm] at hsend
    · exact ih.trans hsend
    · exact hsend

/-- What a frame goes on with sets no timer. -/
theorem resume_alarms (m : Loop) (F : Frame) (o : Ending) : (resume F o m).1.alarms = m.alarms := by
  by_cases hs : ∃ l opening asking, F = .introducing l opening asking
  · obtain ⟨l, opening, asking, rfl⟩ := hs
    have hsend := alarms_sendAll (m := m) [opening, asking]
    simp only [resume, exchangeOpened]
    split
    · split <;> rename_i hm <;> rw [hm] at hsend <;> exact hsend
    · rfl
  · exact alarms_of_doings (resume_doings m (fun l opening asking h => hs ⟨l, opening, asking, h⟩) o)

/-- Who limits a time sets a timer for a new future. -/
theorem mem_alarms_within {limit : Seconds} {inner : Routine} {w : FutureId} (h : w ∈ (within limit inner m).1.alarms) :
    w ∈ m.alarms ∨ m.futures.size ≤ w := by
  have hspawn : (m.spawn inner).1.alarms = m.alarms := alarms_spawn inner
  unfold within at h
  split at h
  · exact .inl (hspawn ▸ h)
  · split at h
    · exact .inl h
    · dsimp only at h
      rw [alarms_addCallback] at h
      rcases mem_alarms_addTimer h with hold | rfl
      · exact .inl (hspawn ▸ hold)
      · exact .inr (by simp [Machine.spawn, newFuture])

/-- Nothing that reaches a session sets a timer. -/
theorem mem_alarms_apply {s : Stimulus} {w : FutureId} (h : w ∈ (m.apply s).1.alarms) : w ∈ m.alarms := by
  have hto : ∀ {t : TransportId} {k : Loop → Loop × Reaction}, (k m).1.alarms = m.alarms → (m.withTransport t k).1.alarms = m.alarms := by
    intro t k hk
    unfold withTransport
    split
    · exact hk
    · rfl
  have hchild : ∀ {c : ChildId} {k : Loop → Loop × Reaction}, (k m).1.alarms = m.alarms → (m.withChild c k).1.alarms = m.alarms := by
    intro c k hk
    unfold withChild
    split
    · exact hk
    · rfl
  have hwritten : ∀ c pipe octets, (m.written c pipe octets).1.alarms = m.alarms := by
    intro c pipe octets
    unfold written
    split
    · next h => exact alarms_of_doings (doings_feedStream h)
    · rfl
  have heq : (∀ time, s ≠ .advance time) → (m.apply s).1.alarms = m.alarms := by
    intro ht
    cases s with
    | ask r => exact alarms_spawn r
    | cancel u => exact alarms_cancelTask u
    | advance time => exact absurd rfl (ht time)
    | send r => exact (congrArg Machine.alarms (reacted_fst _ _)).trans (alarms_send r)
    | write t r => exact hto ((congrArg Machine.alarms (reacted_fst _ _)).trans (alarms_write t r))
    | writeValue t v =>
      have hline := alarms_writeLine (m := m) t (encodeValue m.state.settings.encoding v)
      refine hto ?_
      split <;> rename_i hm <;> rw [hm] at hline <;> exact hline
    | receive t v => exact hto ((congrArg Machine.alarms (reacted_fst _ _)).trans (alarms_of_doings (doings_receive t v)))
    | report t e => exact hto (alarms_of_doings (doings_report t e))
    | openGate t call => exact hto (alarms_settleAll _ _)
    | output c octets => exact hchild (hwritten c _ octets)
    | errors c octets => exact hchild (hwritten c _ octets)
    | exit c code => exact hchild (alarms_of_doings (doings_exitChild c code))
    | closeInput c => exact hchild rfl
    | breakOutput c message => exact hchild (alarms_of_doings (doings_breakStream c .output _))
    | _ => rfl
  by_cases ht : ∃ time, s = .advance time
  · obtain ⟨time, rfl⟩ := ht
    exact mem_alarms_setTime h
  · rwa [heq fun time hs => ht ⟨time, hs⟩] at h

/-- A start waits for a new future. -/
theorem le_of_start {role : FutureId → Role} (h : m.Tidy role) {F : Frame} (ha : (start t m).2 = .await f F) :
    m.futures.size ≤ f := by
  have hgate : ∀ {n : Loop} {call : Call} {conduct : Conduct}, m.futures.size ≤ n.futures.size →
      (n.rehearse t call conduct).2 = .await f F → m.futures.size ≤ f := by
    intro n call conduct hle ha
    have hconclude : ∀ fails, (n.concludeCall t call fails).2 ≠ .await f F := by
      intro fails
      unfold concludeCall
      split <;> exact fun h => by cases h
    have hpass : ∀ fails, (n.passGate t call fails).2 = .await f F → m.futures.size ≤ f := by
      intro fails ha
      unfold passGate at ha
      split at ha
      · exact absurd ha (hconclude fails)
      · cases ha
        exact hle
    cases conduct with
    | succeeds => exact absurd ha (hconclude false)
    | fails => exact absurd ha (hconclude true)
    | timesOut => cases ha
    | waits => exact hpass false ha
    | waitsAndFails => exact hpass true ha
  have hreport : ∀ {n : Loop} {b : Bool}, n.Tidy role → m.futures.size ≤ n.futures.size →
      m.futures.size ≤ (if b then n.report t none else n).futures.size := by
    intro n b hn hle
    split
    · exact Nat.le_trans hle (report_tells (K := fun _ => True) (S := fun _ => True) hn (fun _ => trivial) t none).works.effect.extends.room
    · exact hle
  unfold start at ha
  split at ha
  · next r _ =>
    have hrec : (m.record (.called t .start)).Tidy role := (record_acts (K := fun _ => True) (S := fun _ => True) h _).tidy
    unfold startRehearsed at ha
    cases hgreet : r.rehearsal.greeting with
    | none =>
      simp only [hgreet] at ha
      exact hgate (hreport hrec (Nat.le_refl _)) ha
    | some v =>
      simp only [hgreet] at ha
      have htold := receive_told (K := fun _ => True) (S := fun _ => True) hrec t v
      exact hgate (hreport htold.works.tidy htold.works.effect.extends.room) ha
  · unfold startChild at ha
    dsimp only at ha
    split at ha
    · split at ha
      · cases ha
      · split at ha <;> cases ha
    · cases ha

end Loop

variable {role role' : FutureId → Role} {a b : Moment} {past : List Moment} {u : TaskId} {w g : FutureId} {t : TransportId}
  {fails : Bool} {stack : List Frame}

/-- **A step sets no timer**, unless it sets one for a new future, for a task that limits a time. -/
theorem Goes.alarms (hg : Goes role a role' b) (hw : w ∈ b.loop.alarms) : w ∈ a.loop.alarms ∨
    a.loop.futures.size ≤ w ∧ ∃ u limit inner stack, a.loop.running = some (.begin u (.within limit inner) stack) := by
  cases hg with
  | stimulus => exact .inl (Loop.mem_alarms_apply hw)
  | tick hq =>
    change w ∈ (a.loop.tick Loop.program).alarms at hw
    cases hr : a.loop.running with
    | none =>
      obtain ⟨h, rest, hready, htick⟩ := Loop.tick_of_idle hr hq
      rw [htick] at hw
      exact .inl (mem_alarms_handle hready hw)
    | some x =>
      simp only [Machine.tick, hr] at hw
      cases x with
      | begin u r stack =>
        dsimp only at hw
        rw [alarms_perform] at hw
        by_cases hwithin : ∃ limit inner, r = .within limit inner
        · obtain ⟨limit, inner, rfl⟩ := hwithin
          exact (Loop.mem_alarms_within hw).imp_right fun h => ⟨h, u, limit, inner, stack, rfl⟩
        · exact .inl (Loop.alarms_of_doings (Loop.begin_doings a.loop fun limit inner h => hwithin ⟨limit, inner, h⟩) ▸ hw)
      | resume u o stack =>
        cases stack with
        | nil => exact .inl (by rwa [alarms_endTask] at hw)
        | cons F stack =>
          dsimp only at hw
          rw [alarms_perform] at hw
          exact .inl (Loop.resume_alarms a.loop F o ▸ hw)

/-- Whoever waits until a transport has started did so before, or has just begun to start it, and then the future is new. -/
theorem Loop.Turn.waits_start {m m' : Loop} {th : Thread Routine Frame Value Failure} (ht : Loop.Turn role m u th role' m')
    (hf : Loop.Fits role m) (hf' : Loop.Fits role' m') (hth : m'.thread? u = some ⟨.waits w, .gated t .start fails g :: stack⟩) :
    th = ⟨.waits w, .gated t .start fails g :: stack⟩ ∨
      m.futures.size ≤ w ∧ ∃ stack, m.running = some (.begin u (.start t) stack) := by
  cases ht with
  | rests _ _ hsame => exact .inl (Option.some.inj (hsame.symm.trans hth))
  | awakes how switch =>
    cases switch.self.symm.trans hth
    cases how
  | ends outcome => cases (hf'.tidy.sound.taskOutcome?_of_thread? hth).symm.trans outcome
  | begins runs valid stands how deed =>
    obtain ⟨hmove, -⟩ := Loop.await_of_nextThread (Option.some.inj (deed.switch.self.symm.trans hth))
    have hfits := deed.does.move
    rw [hmove] at hfits
    cases hfits with
    | await hs =>
      cases hs with
      | gatedStart =>
        cases stands with
        | refl => exact .inr ⟨Loop.le_of_start hf.tidy hmove, _, runs⟩
  | resumes runs serves gets how deed =>
    obtain ⟨hmove, -⟩ := Loop.await_of_nextThread (Option.some.inj (deed.switch.self.symm.trans hth))
    have hfits := deed.does.move
    rw [hmove] at hfits
    cases hfits with
    | await hs =>
      cases hs with
      | gatedStart =>
        -- who has waited does not wait again
        cases serves with
        | gatedStart =>
          simp only [Loop.resume, Loop.gateResumed] at hmove
          split at hmove
          · unfold Loop.concludeCall at hmove
            split at hmove <;> cases hmove
          · cases hmove
        | finishing hx => cases hx
        | introducing hx => cases hx
        | expecting hx => cases hx

/-- **Nobody passes a gate because some time is up.** -/
theorem IsRun.not_alarmed (h : IsRun (a :: past)) (hth : a.loop.thread? u = some ⟨.waits w, .gated t .start fails g :: stack⟩) :
    w ∉ a.loop.alarms := by
  refine (h.induction (P := fun a _ => ∀ u w t fails g stack,
    a.loop.thread? u = some ⟨.waits w, .gated t .start fails g :: stack⟩ → w ∉ a.loop.alarms)
    (fun hm _ _ _ _ _ _ hth => ?_) fun {_ _ a b past} ha hb hg hp u w t fails g stack hth hw => ?_).2 u w t fails g stack hth
  · cases hm.isEmpty.thread?.symm.trans hth
  · obtain hnil | ⟨th, hth₀⟩ := hg.was ha hb hth
    · cases hnil
    rcases (hg.turn ha hb hth₀).waits_start ha.fits hb.fits hth with rfl | ⟨hge, stack', hr⟩ <;>
      rcases hg.alarms hw with hold | ⟨hnew, u', limit, inner, stack'', hr'⟩
    · exact hp u w t fails g stack hth₀ hold
    · obtain ⟨_, -, hfits⟩ := ha.fits.threads hth₀
      cases hfits with
      | waits _ hawaits =>
        cases hawaits with
        | gated _ _ _ _ h => exact absurd h.1.lt_size (Nat.not_lt_of_le hnew)
    · exact absurd (ha.fits.tidy.sound.alarm hold).lt_size (Nat.not_lt_of_le hge)
    · cases hr.symm.trans hr'

end DiagnosticsClient
