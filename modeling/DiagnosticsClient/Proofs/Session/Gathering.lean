import DiagnosticsClient.Proofs.Async.Gather
import DiagnosticsClient.Proofs.Session.Findings
/-
What a check ends with.

A check waits for all its members, and goes on with a value only when every one of
them has ended with one (`Assembled`). So a check that ends with records has found
something about every file, and has a record of each file that is not clean
(`IsCheck.concluded`).
-/
namespace DiagnosticsClient

open Async Async.Machine

variable {s : Surroundings} {files : List Text} {context : Context} {limit : Option Seconds} {role role' : FutureId → Role}
  {m m' : Loop} {a b : Moment} {past : List Loop} {t u : TaskId} {w : FutureId} {fs : List FutureId} {members : List TaskId} {g : Nat}
  {root called : Routine} {stack : List Frame} {o : Ending} {th : Thread Routine Frame Value Failure} {x : Running Routine Frame Value Failure}

/-! ## Groups are left alone -/

/-- Only a task that was made to make a group makes one. -/
theorem Stacked.gathers {roots : TaskId → Option Routine} (h : Stacked roots root called stack) (hc : called.gathers = true) :
    root = called := by
  cases h with
  | nil => rfl
  | cons hcalls => cases hcalls <;> cases hc

namespace Loop

/-- The running task leaves a group alone, if it was not made to make one. -/
theorem tick_reckons (hf : Fits role m) (ht : Tick role m role' (m.tick program)) (hr : m.running = some x)
    (hroot : ∀ root, m.routine? x.task = some root → root.gathers = false) : Reckons g m (m.tick program) := by
  rcases ht.stride.of_running hr with ⟨o, htick⟩ | ⟨root, called, stack, s, hd, htick⟩
  · rw [htick]
    exact endTask_reckons hf.tidy.sound hr o
  · rw [htick]
    refine (hd.does.effect.reckons fun hc => ?_).trans
      (perform_reckons hd.does.tidy.sound (hd.does.effect.extends.running.trans hr) stack s.2 hd.lt_size)
    cases hd.stacked.gathers hc
    cases (hroot _ hd.made).symm.trans hc

end Loop

/-- A step leaves a group alone, or it is the turn of an entry. -/
theorem Goes.reckons (hg : Goes role a role' b) (ha : a.Holds role)
    (hroot : ∀ x root, a.loop.running = some x → a.loop.routine? x.task = some root → root.gathers = false) :
    Reckons g a.loop b.loop ∨ a.loop.running = none ∧
      ∃ h rest, a.loop.ready = h :: rest ∧ b.loop = ({ a.loop with ready := rest } : Loop).handle h := by
  cases hg with
  | tick hq ht =>
    cases hr : a.loop.running with
    | some x => exact .inl (Loop.tick_reckons ha.fits ht hr fun root => hroot x root hr)
    | none =>
      refine .inr ⟨rfl, ?_⟩
      cases hready : a.loop.ready with
      | nil => simp [isQuiet, hr, hready] at hq
      | cons h rest => exact ⟨h, rest, rfl, by simp only [Machine.tick, hr, hready]⟩
  | @stimulus s hr hs =>
    refine .inl ?_
    by_cases htime : ∃ time, s = .advance time
    · obtain ⟨time, rfl⟩ := htime
      exact setTime_reckons _ _
    · exact (Loop.apply_works ha.fits hr hs fun time h => htime ⟨time, h⟩).effect.reckons id

/-- What was made to make a group is the task of the check. -/
theorem IsCheck.eq_zero_of_gathers (h : IsCheck s files context limit (m :: past)) (hroot : m.routine? u = some root)
    (hgathers : root.gathers = true) : u = 0 := by
  refine (h.induction (P := fun m _ => ∀ u root, m.routine? u = some root → root.gathers = true → u = 0)
    (fun u root hroot _ => (Surroundings.thread?_loop hroot).1) fun {_ _ m m' past} _ hm hm' hmoves hp u root hroot hg => ?_).2
    u root hroot hgathers
  cases hbefore : m.routine? u with
  | some r =>
    cases ((hmoves.keeps hm).routine hbefore).symm.trans hroot
    exact hp u root hbefore hg
  | none =>
    cases hmoves with
    | lapse _ now => cases hbefore.symm.trans hroot
    | goes hgoes =>
      rcases hgoes.born hm hbefore hroot with hkind | hkind | ⟨hkind, -⟩ | ⟨hkind, -⟩ <;> cases root <;> first | (cases hg; done) | cases hkind

/-! ## The members -/

/-- A group takes note of the ends of the members of a check, and each file has a member. -/
structure Assembled (files : List Text) (context : Context) (limit : Option Seconds) (g : Nat) (w : FutureId)
    (fs : List FutureId) (members : List TaskId) (m : Loop) : Prop where
  gathers : Gathers g w fs m
  owned : ∀ t ∈ members, ∃ f ∈ fs, m.owner? f = some (some t)
  there : ∀ file ∈ files, ∃ t ∈ members, m.routine? t = some (.checkFile file context limit)

/-- All members of a check have ended with a value. -/
def Complete (files : List Text) (context : Context) (limit : Option Seconds) (members : List TaskId) (m : Loop) : Prop :=
  ∀ file ∈ files, ∃ t ∈ members, m.routine? t = some (.checkFile file context limit) ∧ ∃ v, m.taskOutcome? t = some (.value v)

/-- **A check that begins assembles its members.** -/
theorem assembled_of_begins (hf : Loop.Fits role m) (hn : m.tallies m.groups.length = 0)
    (hr : m.running = some (.begin t (.checkFiles files context limit) stack))
    (hd : Loop.Deed role role' m t root called stack (Loop.begin (.checkFiles files context limit) m)) :
    ∃ g w fs members, (Loop.begin (.checkFiles files context limit) m).2 = .await w (.gathered members) ∧
      Assembled files context limit g w fs members ((Loop.begin (.checkFiles files context limit) m).1.perform t stack
        (Loop.begin (.checkFiles files context limit) m).2) := by
  let routines := files.map fun file => Routine.checkFile file context limit
  let made := m.spawnGroup routines
  have hsound : made.1.Sound fun f => (role' f).isScheduled = true := hd.does.tidy.sound
  have hgathers : Gathers m.groups.length made.2.1 (made.2.2.map made.1.futureOf) made.1 :=
    spawnGroup_gathers hf.tidy.sound hn routines
  have hrun : made.1.running = some (.begin t (.checkFiles files context limit) stack) :=
    hd.does.effect.extends.running.trans hr
  have hreckons : Reckons m.groups.length made.1 (made.1.perform t stack (.await made.2.1 (.gathered made.2.2))) :=
    perform_reckons hsound hrun stack _ hd.lt_size
  have havoids : Avoids made.2.1 made.1 (made.1.perform t stack (.await made.2.1 (.gathered made.2.2))) :=
    perform_avoids hsound hrun stack _ hd.lt_size
  refine ⟨_, made.2.1, _, made.2.2, rfl, hgathers.keeps hreckons havoids, fun u hu => ?_, fun file hfile => ?_⟩
  · obtain ⟨i, r, hroutine, rfl⟩ := mem_spawnGroup hu
    obtain ⟨-, htask⟩ := getElem?_spawnGroup (m := m) hroutine
    refine ⟨_, List.mem_map_of_mem hu, ?_⟩
    rw [hd.switch.owner, futureOf, htask]
    exact hsound.owned.future htask
  · obtain ⟨i, hi⟩ := List.getElem?_of_mem hfile
    have hroutine : routines[i]? = some (.checkFile file context limit) := by rw [List.getElem?_map, hi]; rfl
    obtain ⟨hmem, htask⟩ := getElem?_spawnGroup (m := m) hroutine
    have hmade : made.1.routine? (m.tasks.size + i) = some (.checkFile file context limit) := by rw [routine?, htask]; rfl
    exact ⟨_, hmem, (hd.switch.routine _).trans hmade⟩

/-- While the task of a check does not run, nobody makes a group. -/
theorem IsCheck.not_gathers (h : IsCheck s files context limit (m :: past)) (hth : m.thread? 0 = some th)
    (hidle : th.top.isIdle = true) (hr : m.running = some x) (hroot : m.routine? x.task = some root) : root.gathers = false := by
  refine Bool.eq_false_iff.mpr fun hgathers => ?_
  have hzero := h.eq_zero_of_gathers hroot hgathers
  have hthread := hzero ▸ thread?_of_running hr
  cases Option.some.inj (hth.symm.trans hthread)
  cases hidle.symm.trans x.thread_isIdle

theorem tallies_of_reckons (h : Reckons m.groups.length m m') (hn : m.tallies m.groups.length = 0) :
    m'.tallies m'.groups.length = 0 := by
  have hlength : m'.groups.length = m.groups.length := by simpa using congrArg List.length h.outers
  rw [hlength, h.tallies, hn]

/-- Nobody reckons with a group that is not made yet. -/
theorem IsCheck.tallies_step (h : IsCheck s files context limit (m :: past)) (hm : m.Holds role) (hmoves : Moves role m role' m')
    (hth : m.thread? 0 = some th) (hidle : th.top.isIdle = true) (hn : m.tallies m.groups.length = 0) :
    m'.tallies m'.groups.length = 0 := by
  cases hmoves with
  | lapse hr now => exact tallies_of_reckons (setTime_reckons m now) hn
  | goes hgoes =>
    rcases hgoes.reckons hm fun x root hr => h.not_gathers hth hidle hr with hreckons | ⟨-, k, rest, hready, hloop⟩
    · exact tallies_of_reckons hreckons hn
    · have hkind : k.isTally m.groups.length = false := by
        refine Bool.eq_false_iff.mpr fun hk => ?_
        have hzero : m.ready.countP (Handle.isTally m.groups.length) = 0 := (Nat.add_eq_zero_iff.mp hn).2
        exact List.countP_eq_zero.mp hzero k (hready ▸ List.mem_cons_self) hk
      have hturn : m' = ({ m with ready := rest } : Loop).handle k := hloop
      exact tallies_of_reckons (hturn ▸ (Reckons.drop hready hkind).trans (handle_reckons hkind)) hn

/-- The check waits, and its members go on. -/
theorem Assembled.step (h : Assembled files context limit g w fs members m) (hcheck : IsCheck s files context limit (m :: past))
    (hm : m.Holds role) (hmoves : Moves role m role' m') (hth : m.thread? 0 = some ⟨.waits w, [.gathered members]⟩)
    (hroot : m.routine? 0 = some (.checkFiles files context limit)) : Assembled files context limit g w fs members m' := by
  have hkeeps := hmoves.keeps hm
  have hw : role w = .reserved := by
    obtain ⟨_, -, hfits⟩ := hm.fits.threads hth
    cases hfits with
    | waits _ hawaits => cases hawaits with | gathered _ h => exact h.2
  refine ⟨?_, fun t ht => ?_, fun file hfile => ?_⟩
  · have hturn : ∀ {k rest}, m.ready = k :: rest → m' = ({ m with ready := rest } : Loop).handle k → Gathers g w fs m' :=
      fun hready heq => heq ▸ h.gathers.turn hready
    cases hmoves with
    | lapse hr now => exact h.gathers.setTime now
    | goes hgoes =>
      rcases hgoes.avoids hm hw hth hroot rfl (fun h => by cases h) with havoids | ⟨hr, ⟨k, rest, hready, hloop⟩ | ⟨now, hloop⟩⟩
      · rcases hgoes.reckons hm fun x root hr => hcheck.not_gathers hth rfl hr with hreckons | ⟨hr, k, rest, hready, hloop⟩
        · exact h.gathers.keeps hreckons havoids
        · exact hturn hready hloop
      · exact hturn hready hloop
      · have htime : m' = m.setTime now := hloop
        exact htime ▸ h.gathers.setTime now
  · obtain ⟨f, hf, howner⟩ := h.owned t ht
    exact ⟨f, hf, hkeeps.owner howner⟩
  · obtain ⟨t, ht, hroutine⟩ := h.there file hfile
    exact ⟨t, ht, hkeeps.routine hroutine⟩

/-- The end of the whole comes with a value only when all members have ended with one. -/
theorem Assembled.complete (h : Assembled files context limit g w fs members m) (hm : m.Holds role) {v : Value}
    (hv : m.outcome? w = some (.value v)) : Complete files context limit members m := by
  intro file hfile
  obtain ⟨t, ht, hroutine⟩ := h.there file hfile
  obtain ⟨f, hf, howner⟩ := h.owned t ht
  obtain ⟨v', hv'⟩ := h.gathers.complete v hv f hf
  obtain ⟨task, htask, rfl⟩ := hm.fits.tidy.sound.owned.task howner
  exact ⟨t, ht, hroutine, v', by rw [taskOutcome?, htask]; exact hv'⟩

theorem Complete.step (h : Complete files context limit members m) (hm : m.Holds role) (hm' : m'.Holds role')
    (hmoves : Moves role m role' m') : Complete files context limit members m' := by
  intro file hfile
  obtain ⟨t, ht, hroutine, v, hv⟩ := h file hfile
  exact ⟨t, ht, (hmoves.keeps hm).routine hroutine, v, hmoves.ended hm hm' hv⟩

/-! ## The whole -/

/-- What a check is to end with: each file was checked, its records are about what was found, and a file without one is
clean. -/
def IsConcluded (s : Surroundings) (files : List Text) (context : Context) (limit : Option Seconds) (o : Ending) (m : Loop)
    (past : List Loop) : Prop :=
  ∀ v, o = .value v → ∃ records, v = .records records ∧ ∀ file ∈ files, ∃ t r,
    m.routine? t = some (.checkFile file context limit) ∧ m.taskOutcome? t = some (.value (.record r)) ∧
      IsFound file (Path.absolute s.tree.workingDirectory file) r.diagnostics m past ∧ (r ∈ records ∨ r.diagnostics = [])

theorem IsConcluded.step (h : IsConcluded s files context limit o m past) (hm : m.Holds role) (hm' : m'.Holds role')
    (hmoves : Moves role m role' m') : IsConcluded s files context limit o m' (m :: past) := by
  intro v hv
  obtain ⟨records, hrecords, hfiles⟩ := h v hv
  refine ⟨records, hrecords, fun file hfile => ?_⟩
  obtain ⟨t, r, hroutine, ho, hfound, hor⟩ := hfiles file hfile
  exact ⟨t, r, (hmoves.keeps hm).routine hroutine, hmoves.ended hm hm' ho, hfound.step hm hmoves, hor⟩

/-- The records of members that have all ended with one. -/
theorem Complete.concluded (h : Complete files context limit members m) (hcheck : IsCheck s files context limit (m :: past)) :
    IsConcluded s files context limit (.value (.records (m.recordsOf members))) m past := by
  rintro v ⟨⟩
  refine ⟨_, rfl, fun file hfile => ?_⟩
  obtain ⟨t, ht, hroutine, v, hv⟩ := h file hfile
  obtain ⟨r, rfl, -, hfound⟩ := hcheck.found hroutine hv
  refine ⟨t, r, hroutine, hv, hfound, ?_⟩
  cases hclean : r.diagnostics with
  | nil => exact .inr rfl
  | cons d ds => exact .inl (List.mem_filterMap.mpr ⟨t, ht, by simp only [hv, hclean, List.isEmpty_cons]; rfl⟩)

/-- How far a check has got. -/
inductive Gathering (s : Surroundings) (files : List Text) (context : Context) (limit : Option Seconds) (m : Loop)
    (past : List Loop) : Thread Routine Frame Value Failure → Prop
  | fresh (hn : m.tallies m.groups.length = 0) : Gathering s files context limit m past ⟨.fresh (.checkFiles files context limit), []⟩
  | begins (hn : m.tallies m.groups.length = 0) :
      Gathering s files context limit m past ⟨.begins (.checkFiles files context limit), []⟩
  | waits {g : Nat} {w : FutureId} {fs : List FutureId} {members : List TaskId}
      (h : Assembled files context limit g w fs members m) : Gathering s files context limit m past ⟨.waits w, [.gathered members]⟩
  | woken {members : List TaskId} {o : Ending} (h : ∀ v, o = .value v → Complete files context limit members m) :
      Gathering s files context limit m past ⟨.resumes o, [.gathered members]⟩
  | closes {e : Ending} {th : Thread Routine Frame Value Failure} (he : IsConcluded s files context limit e m past)
      (hsuffix : [.finishing e] <:+ th.stack) : Gathering s files context limit m past th
  | ends {o : Ending} (h : IsConcluded s files context limit o m past) : Gathering s files context limit m past ⟨.resumes o, []⟩

/-- **A turn of the task of a check** brings it on, and what it ends with is concluded. -/
theorem Gathering.step (h : Gathering s files context limit m past th) (hcheck : IsCheck s files context limit (m :: past))
    (hm : m.Holds role) (hm' : m'.Holds role') (hmoves : Moves role m role' m') (hth : m.thread? 0 = some th)
    (hroot : m.routine? 0 = some (.checkFiles files context limit)) (hturn : Loop.Turn role m 0 th role' m') :
    (∃ th', m'.thread? 0 = some th' ∧ Gathering s files context limit m' (m :: past) th') ∨
      ∃ o, m'.taskOutcome? 0 = some o ∧ IsConcluded s files context limit o m' (m :: past) := by
  cases h with
  | fresh hn =>
    have hn' := hcheck.tallies_step hm hmoves hth rfl hn
    cases hturn with
    | rests _ _ hth' => exact .inl ⟨_, hth', .fresh hn'⟩
    | awakes how switch =>
      cases how with
      | begins => exact .inl ⟨_, switch.self, .begins hn'⟩
      | dropped => exact .inl ⟨_, switch.self, .ends fun v hv => by cases hv⟩
  | begins hn =>
    obtain ⟨hr, -, called, root, -, -, hd, heq⟩ := hturn.of_begins
    obtain ⟨g, w, fs, members, hmove, hassembled⟩ := assembled_of_begins hm.fits hn hr hd
    have hplain : (Loop.begin (.checkFiles files context limit) m).1.IsPlain w := by
      have hfits := hd.does.move
      rw [hmove] at hfits
      cases hfits with
      | await _ hawaits => cases hawaits with | gathered _ h => exact h.1
    have hself := hd.switch.self
    have houtcome := hd.switch.outcome hplain
    rw [← heq] at hassembled hself houtcome
    refine .inl ⟨_, hself, ?_⟩
    rw [hmove]
    unfold Machine.nextThread
    dsimp only
    split
    · next o ho => exact .woken fun v hv => hassembled.complete hm' (houtcome.trans (hv ▸ ho))
    · exact .waits hassembled
  | waits hassembled =>
    cases hturn with
    | rests _ _ hth' => exact .inl ⟨_, hth', .waits (hassembled.step hcheck hm hmoves hth hroot)⟩
    | awakes how switch =>
      cases how with
      | interrupted => exact .inl ⟨_, switch.self, .woken fun v hv => by cases hv⟩
      | resumes _ ho =>
        exact .inl ⟨_, switch.self, .woken fun v hv => (hassembled.complete hm (hv ▸ ho)).step hm hm' hmoves⟩
  | woken hcomplete =>
    obtain ⟨rfl, -, called, root, -, -, hd, rfl⟩ := hturn.of_resumes
    refine .inl ⟨_, hd.switch.self, ?_⟩
    simp only [Loop.resume, Loop.gatherResumed]
    refine .closes ?_ (List.suffix_refl _)
    split
    · exact ((hcomplete _ rfl).concluded hcheck).step hm hm' hmoves
    · next hne => exact fun v hv => absurd hv (hne v)
  | closes he hsuffix =>
    rcases hturn.beneath hsuffix with ⟨o, rfl⟩ | ⟨th', hth', hsuffix'⟩
    · obtain ⟨rfl, -, called, root, -, -, hd, rfl⟩ := hturn.of_resumes
      refine .inl ⟨_, hd.switch.self, ?_⟩
      simp only [Loop.resume, Loop.cleanedUp]
      split
      · exact .ends (he.step hm hm' hmoves)
      · next hne => exact .ends fun v hv => absurd hv (hne v)
    · exact .inl ⟨th', hth', .closes (he.step hm hm' hmoves) hsuffix'⟩
  | ends h => exact .inr ⟨_, hturn.of_ends, h.step hm hm' hmoves⟩

/-- **What a check ends with is concluded.** -/
theorem IsCheck.concluded (h : IsCheck s files context limit (m :: past)) (ho : m.taskOutcome? 0 = some o) :
    IsConcluded s files context limit o m past := by
  have hgathering := (h.induction (P := fun m past => m.routine? 0 = some (.checkFiles files context limit) ∧
    ((∃ th, m.thread? 0 = some th ∧ Gathering s files context limit m past th) ∨
      ∃ o, m.taskOutcome? 0 = some o ∧ IsConcluded s files context limit o m past)) ⟨rfl, .inl ⟨_, rfl, .fresh rfl⟩⟩
    fun {_ _ m m' past} hcheck hm hm' hmoves hp => ?_).2
  · rcases hgathering.2 with ⟨th, hth, -⟩ | ⟨o', ho', hconcluded⟩
    · obtain ⟨role, hm⟩ := h.holds
      cases (hm.fits.tidy.sound.taskOutcome?_of_thread? hth).symm.trans ho
    · cases ho'.symm.trans ho
      exact hconcluded
  · obtain ⟨hroot, ⟨th, hth, hgathering⟩ | ⟨o, ho, hconcluded⟩⟩ := hp
    · exact ⟨(hmoves.keeps hm).routine hroot,
        hgathering.step hcheck hm hm' hmoves hth hroot (hmoves.turn hm hm' hth)⟩
    · exact ⟨(hmoves.keeps hm).routine hroot, .inr ⟨o, hmoves.ended hm hm' ho, hconcluded.step hm hm' hmoves⟩⟩

end DiagnosticsClient
