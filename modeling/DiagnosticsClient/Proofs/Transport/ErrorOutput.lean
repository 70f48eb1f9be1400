import DiagnosticsClient.Proofs.Transport.Custody
import DiagnosticsClient.Proofs.Transport.EndOfFile
import DiagnosticsClient.Proofs.Transport.Outpour
/-
What becomes of the error output of a child.

While nobody stops a transport or cancels its drain, the error output of its child is on its way to the notes at every moment
(`IsHeard.outflow`). So the lines that were noted are the first ones of what was written, in order, and once nothing can go on they
are all the lines before the first one that is too long: that line is not noted, nor anything after it, and the drain has ended
though the child may still run (`error_output_noted`).
-/
namespace DiagnosticsClient

open Async Async.Machine

namespace Stream

/-- A line feed does not make a line longer. -/
theorem length_takeWhile_feed (piece : Bytes) : ((piece ++ [10]).takeWhile (· ≠ 10)).length ≤ piece.length := by
  rw [List.takeWhile_append]
  split
  · simp
  · exact (List.takeWhile_prefix _).length_le

/-- Where no line is too long all of them are readable. -/
theorem readableLines_of_not_isOverlong {ended : Bool} {octets : Bytes} (h : ¬ IsOverlong octets) :
    readableLines ended octets = linesIn ended octets := by
  have hshort : ∀ piece ∈ octets.splitOn 10, piece.length ≤ lineLimit := fun piece hpiece =>
    Nat.le_of_not_lt fun hlong => h ⟨piece, hpiece, hlong⟩
  refine List.takeWhile_eq_self_iff.mpr fun line hline => decide_eq_true ?_
  rcases List.mem_append.mp hline with hwhole | hrest
  · obtain ⟨piece, hpiece, rfl⟩ := List.mem_map.mp hwhole
    exact Nat.le_trans (length_takeWhile_feed piece) (hshort piece (List.dropLast_subset _ hpiece))
  · have hpiece : line ∈ octets.splitOn 10 := by
      split at hrest
      · exact List.mem_of_getLast? (Option.mem_toList.mp (List.mem_filter.mp hrest).1)
      · cases hrest
    exact Nat.le_trans (List.takeWhile_prefix _).length_le (hshort line hpiece)

/-- A line that is too long cannot be read. -/
theorem readLine_of_long {s : Stream} (hbroken : s.broken = none) (hlong : lineLimit < (s.buffer.takeWhile (· ≠ 10)).length) :
    s.readLine = .failed .lineTooLong := by
  rcases s.readLine_cases hbroken with ⟨content, rest, hbuffer, hfeed, hshort, -⟩ | ⟨hfeed, hshort, -⟩ | ⟨-, hread⟩
  · rw [hbuffer, takeWhile_line hfeed] at hlong
    exact absurd hlong (Nat.not_lt_of_le hshort)
  · rw [takeWhile_rest hfeed] at hlong
    exact absurd hlong (Nat.not_lt_of_le hshort)
  · exact hread

end Stream

open Loop

/-! ## The whole run -/

/-- The moments of a run of a transport, newest first, and what its child has written to its error output by the newest. -/
inductive IsHeard : List Watch → Bytes → Prop
  | new {m : Loop} (h : m.IsUnused) : IsHeard [{ loop := m }] []
  | tick {a : Watch} {past : List Watch} {wrote : Bytes} (h : IsHeard (a :: past) wrote) (hq : a.loop.isQuiet = false) :
      IsHeard ({ a with loop := a.loop.tick Loop.program } :: a :: past) wrote
  | stimulus {a : Watch} {past : List Watch} {wrote : Bytes} {s : Stimulus} (h : IsHeard (a :: past) wrote)
      (hr : a.loop.running = none) (hd : s.Drives a.loop) : IsHeard (a.after s :: a :: past) (wrote ++ s.complaint (a.loop.apply s).2)

/-- Nobody has asked for a stop, and nobody has cancelled a task that drains the error output of the child. -/
structure Watch.Unhindered (a : Watch) : Prop where
  unstopped : ∀ u : TaskId, a.loop.routine? u ≠ some (.stop 0)
  uncancelled : ∀ u ∈ a.cancelled, a.loop.routine? u ≠ some (.drainErrors 0)

section heard

variable {a b : Watch} {past : List Watch} {moments : List Watch} {wrote : Bytes} {charset : Charset} {role : FutureId → Role}
  {u : TaskId} {root : Routine}

theorem IsHeard.isWatched (h : IsHeard moments wrote) : IsWatched moments := by
  induction h with
  | new hm => exact .new hm
  | tick _ hq ih => exact .step ih (.tick hq)
  | stimulus _ hr hd ih => exact .step ih (.stimulus hr hd)

/-- In every run it is known what the child has written to its error output. -/
theorem IsWatched.heard (h : IsWatched moments) : ∃ wrote, IsHeard moments wrote := by
  induction h with
  | new hm => exact ⟨[], .new hm⟩
  | step _ hs ih =>
    obtain ⟨wrote, h⟩ := ih
    cases hs with
    | tick hq => exact ⟨wrote, h.tick hq⟩
    | stimulus hr hd => exact ⟨_, h.stimulus hr hd⟩

theorem Watch.Unhindered.earlier (h : b.Unhindered) (hs : a.Step b) (he : Endures a.loop b.loop) : a.Unhindered :=
  ⟨fun u hu => h.unstopped u (he.routine hu), fun u hu hr => h.uncancelled u (hs.cancelled hu) (he.routine hr)⟩

/-- Nothing was written before a transport was used. -/
theorem Loop.IsUnused.outflow {m : Loop} (h : m.IsUnused) : Outflow charset m [] := by
  have he := h.isEmpty
  have hnone : ∀ {u : TaskId} {r : Routine}, m.routine? u ≠ some r := fun hr => by
    rw [he.routine?] at hr
    cases hr
  refine ⟨he.sound, ⟨fun hth => ?_⟩, fun hu => absurd hu hnone, ?_, ?_, .inl ⟨?_, rfl, ?_, hnone⟩⟩
  · rw [he.thread?] at hth
    cases hth
  all_goals
    obtain ⟨s, rfl⟩ := h
    rfl

/-- **At every moment of a run the error output of the child is on its way**, unless somebody stops the transport or cancels the
drain. -/
theorem IsHeard.outflow (h : IsHeard (a :: past) wrote) (ha : a.Unhindered)
    (hcharset : Charset.lookup a.loop.state.settings.encoding = .ok charset) : Outflow charset a.loop wrote := by
  generalize hms : a :: past = moments at h
  have hback : ∀ {a b : Watch} {past : List Watch} {wrote : Bytes}, IsHeard (b :: past) wrote → b.Step a → a.Unhindered →
      Charset.lookup a.loop.state.settings.encoding = .ok charset → ∃ x role, Orderly x b.loop ∧ Fits role b.loop .transport ∧
        Endures b.loop a.loop ∧ b.Unhindered ∧ Charset.lookup b.loop.state.settings.encoding = .ok charset := by
    intro a b past wrote h hs ha hcharset
    obtain ⟨x, ho, -⟩ := h.isWatched.orderly
    obtain ⟨role, hf⟩ := h.isWatched.fits
    have he := hs.endures ho hf
    have hsettings : a.loop.state.settings = b.loop.state.settings := congrArg Setup.settings he.setup
    exact ⟨x, role, ho, hf, he, ha.earlier hs he, hsettings ▸ hcharset⟩
  induction h generalizing a past with
  | new hm =>
    cases hms
    exact hm.outflow
  | tick h hq ih =>
    cases hms
    obtain ⟨x, role, ho, hf, -, hb, hlookup⟩ := hback h (.tick hq) ha hcharset
    exact (ih hb hlookup rfl).tick ho.toPosture hf hq hlookup
  | @stimulus b past wrote s h hr hd ih =>
    cases hms
    obtain ⟨x, role, -, hf, he, hb, hlookup⟩ := hback h (.stimulus hr hd) ha hcharset
    refine (ih hb hlookup rfl).apply hf hr hd ?_ ?_
    · rintro rfl
      refine ha.unstopped b.loop.tasks.size ?_
      exact (routine?_spawn b.loop _ _).trans (if_pos rfl)
    · rintro u rfl hu
      exact ha.uncancelled u (List.mem_append_right _ (List.mem_singleton_self u)) (he.routine hu)

/-- A task that has no thread any more has ended. -/
theorem IsWatched.hasEnded_of_thread?_none (h : IsWatched (a :: past)) (hroot : a.loop.routine? u = some root)
    (hnone : a.loop.thread? u = none) : a.loop.hasEnded u = true := by
  have hfollow : (∃ th, a.loop.thread? u = some th ∧ True) ∨ ∃ o, a.loop.taskOutcome? u = some o ∧ True := by
    refine h.follow (P := fun _ _ _ => True) (Q := fun _ _ _ => True) trivial (fun _ _ _ _ _ _ hcourse _ => ?_)
      (fun _ _ _ _ _ _ => trivial) hroot
    exact hcourse.proceeds.imp (fun ⟨th, hth⟩ => ⟨th, hth, trivial⟩) fun ⟨o, ho⟩ => ⟨o, ho, trivial⟩
  rcases hfollow with ⟨th, hth, -⟩ | ⟨o, ho, -⟩
  · cases hnone.symm.trans hth
  · rw [hasEnded, ho]
    rfl

namespace Loop

variable {m : Loop} {th : Option (Thread Routine Frame Value Failure)}

/-- The error output has ended exactly if the child has. -/
theorem Sifted.ended_eq (h : Sifted charset m wrote) : (m.streamOf 0 .errors).ended = !(m.state.child 0).isAlive := by
  rw [h.ended, Child.isAlive]
  cases (m.state.child 0).returnCode <;> rfl

/-- What was noted and the lines that are still in the pipe are the lines of what was written. -/
theorem Sifted.kept (h : Sifted charset m wrote) :
    m.state.complaints ++ (Stream.readableLines (!(m.state.child 0).isAlive) (m.streamOf 0 .errors).buffer).map (complaintOf charset) =
      (Stream.readableLines (!(m.state.child 0).isAlive) wrote).map (complaintOf charset) := by
  have hlines : m.state.complaints ++
      (Stream.readableLines (!(m.state.child 0).isAlive) ((m.streamOf 0 .errors).buffer ++ [])).map (complaintOf charset) =
        (Stream.readableLines (!(m.state.child 0).isAlive) (wrote ++ [])).map (complaintOf charset) :=
    h.lines fun hended => ⟨rfl, h.ended_eq.symm.trans hended⟩
  rwa [List.append_nil, List.append_nil] at hlines

theorem Sifted.isOverlong_iff (h : Sifted charset m wrote) : Stream.IsOverlong (m.streamOf 0 .errors).buffer ↔ Stream.IsOverlong wrote := by
  have hlong : Stream.IsOverlong ((m.streamOf 0 .errors).buffer ++ []) ↔ Stream.IsOverlong (wrote ++ []) := h.overlong fun _ => rfl
  rwa [List.append_nil, List.append_nil] at hlong

/-- What was noted is the beginning of what there is to note. -/
theorem Outflow.noted (h : Outflow charset m wrote) :
    m.state.complaints <+: (Stream.readableLines (!(m.state.child 0).isAlive) wrote).map (complaintOf charset) := by
  rcases h.stage with hnone | ⟨u, hd⟩
  · rw [hnone.complaints]
    exact List.nil_prefix
  · exact hd.sifted.kept ▸ List.prefix_append _ _

/-- A drain that cannot go on has nothing to read. It has ended if the child has, or if a line is too long. -/
theorem Stage.still (hs : Stage m th) (hth : ∀ {t}, th = some t → ∃ f stack, t = ⟨.waits f, stack⟩ ∧ m.isSettled f = false) :
    Stream.readableLines (m.streamOf 0 .errors).ended (m.streamOf 0 .errors).buffer = [] ∧
    (th = none ↔ (m.streamOf 0 .errors).ended = true ∨ Stream.IsOverlong (m.streamOf 0 .errors).buffer) := by
  cases hs with
  | finished hg =>
    cases hg with
    | exhausted hempty hended =>
      rw [hempty, hended]
      exact ⟨rfl, iff_of_true rfl (.inl rfl)⟩
    | choked hlong => exact ⟨Stream.readableLines_of_long hlong, iff_of_true rfl (.inr (Stream.isOverlong_of_long hlong))⟩
  | waits hw =>
    obtain ⟨f, stack, heq, hunsettled⟩ := hth rfl
    cases heq
    rcases hw with ⟨-, hfeed, hshort, hopen⟩ | ⟨v, hv⟩
    · rw [Stream.readableLines_rest hfeed hshort, hopen]
      refine ⟨rfl, iff_of_false (fun h => by cases h) ?_⟩
      rintro (hended | hlong)
      · cases hended
      · exact Stream.not_isOverlong_rest hfeed hshort hlong
    · simp [isSettled, hv] at hunsettled
  | fresh | begins | resumes | ends =>
    obtain ⟨f, stack, heq, -⟩ := hth rfl
    cases heq

/-- Once nothing can go on all there is to note was noted, and the drain has ended if the child has, or if a line was too long. -/
theorem Outflow.noted_all (h : Outflow charset m wrote) (hq : m.isQuiet = true) :
    m.state.complaints = (Stream.readableLines (!(m.state.child 0).isAlive) wrote).map (complaintOf charset) ∧
    ∀ {u : TaskId}, m.routine? u = some (.drainErrors 0) →
      (m.thread? u = none ↔ (m.state.child 0).isAlive = false ∨ Stream.IsOverlong wrote) := by
  rcases h.stage with hnone | ⟨u, hd⟩
  · have hchild : (m.state.child 0).isAlive = true := by
      rw [State.child, hnone.children]
      rfl
    rw [hnone.complaints, hnone.wrote, hchild]
    exact ⟨rfl, fun hu => absurd hu hnone.drains⟩
  · obtain ⟨hempty, hended⟩ := hd.stage.still fun hth => h.sound.waits_of_quiet hq hth
    rw [hd.sifted.ended_eq] at hempty hended
    rw [hd.sifted.isOverlong_iff, Bool.not_eq_true'] at hended
    refine ⟨?_, fun hu => by rwa [hd.one hu]⟩
    rw [← hd.sifted.kept, hempty, List.map_nil, List.append_nil]

end Loop

/-- **The lines of a child's error output are noted, in order, up to the first that is too long.** The child may have written them in
any pieces, and octets that cannot be decoded. What was noted is the beginning of that at every moment, and all of it once nothing can
go on; by then the drain has ended if the child has, or if a line was too long. If none was, every line is noted. -/
theorem error_output_noted (h : IsHeard (a :: past) wrote) (ha : a.Unhindered)
    (hcharset : Charset.lookup a.loop.state.settings.encoding = .ok charset) :
    a.loop.state.complaints <+: (Stream.readableLines (!(a.loop.state.child 0).isAlive) wrote).map (complaintOf charset) ∧
    (a.loop.isQuiet = true →
      a.loop.state.complaints = (Stream.readableLines (!(a.loop.state.child 0).isAlive) wrote).map (complaintOf charset) ∧
      (¬ Stream.IsOverlong wrote →
        a.loop.state.complaints = (Stream.linesIn (!(a.loop.state.child 0).isAlive) wrote).map (complaintOf charset)) ∧
      ∀ u : TaskId, a.loop.routine? u = some (.drainErrors 0) →
        (a.loop.hasEnded u = true ↔ (a.loop.state.child 0).isAlive = false ∨ Stream.IsOverlong wrote)) := by
  have hflow := h.outflow ha hcharset
  refine ⟨hflow.noted, fun hq => ?_⟩
  obtain ⟨hall, hdrain⟩ := hflow.noted_all hq
  refine ⟨hall, fun hshort => ?_, fun u hu => ?_⟩
  · rw [hall, Stream.readableLines_of_not_isOverlong hshort]
  · rw [← hdrain hu]
    refine ⟨fun hended => ?_, h.isWatched.hasEnded_of_thread?_none hu⟩
    cases hth : a.loop.thread? u with
    | none => rfl
    | some th =>
      rw [hasEnded, hflow.sound.taskOutcome?_of_thread? hth] at hended
      cases hended

theorem IsHeard.onward (h : IsHeard (a :: past) wrote) (fuel : Nat) :
    IsHeard ((a.onward fuel past).1 :: (a.onward fuel past).2) wrote := by
  induction fuel generalizing a past with
  | zero => exact h
  | succ fuel ih =>
    unfold Watch.onward
    split
    · exact h
    · next hq => exact ih (h.tick (Bool.eq_false_iff.mpr hq))

/-- The moments after a stimulus are part of a run. -/
theorem IsHeard.pursue {s : Stimulus} {moments : Watch × List Watch} (h : IsHeard (moments.1 :: moments.2) wrote)
    (hr : moments.1.loop.running.isNone = true) (hd : s.Drives moments.1.loop) (fuel : Nat) :
    IsHeard ((Watch.pursue fuel s moments).1 :: (Watch.pursue fuel s moments).2)
      (wrote ++ s.complaint (moments.1.loop.apply s).2) :=
  (h.stimulus (Option.isNone_iff_eq_none.mp hr) hd).onward fuel

/-- Nobody hinders a transport that was only started. -/
theorem Watch.unhindered_of_tasks (htasks : a.loop.tasks.toList.map (·.routine) = [.start 0, .readOutput 0 0, .drainErrors 0])
    (hcancelled : a.cancelled = []) : a.Unhindered := by
  refine ⟨fun u hu => ?_, fun u hu => ?_⟩
  · obtain ⟨task, htask, hroutine⟩ := Option.map_eq_some_iff.mp hu
    have hmem := List.mem_map_of_mem (f := (·.routine)) (Array.mem_toList_iff.mpr (Array.mem_of_getElem? htask))
    rw [htasks, hroutine] at hmem
    simp at hmem
  · rw [hcancelled] at hu
    cases hu

end heard

theorem isHeard_startedWatch (launches : List Launch) : IsHeard ((startedWatch launches).1 :: (startedWatch launches).2) [] := by
  have hnew : Loop.IsUnused { unusedWatch.1.loop with state := { unusedWatch.1.loop.state with launches } } :=
    ⟨{ settings := { command := [lit "node"] }, launches }, rfl⟩
  exact ((IsHeard.new hnew).stimulus (s := .ask (.start 0)) rfl (.inl rfl)).onward 60

/-- A transport that was started, when its child has written a line and the beginning of another, and has ended. -/
def moanedWatch : Watch × List Watch :=
  Watch.pursue 60 (.exit 0 0) (Watch.pursue 60 (.errors 0 [111, 255, 32, 10, 98]) (startedWatch []))

/-- Both lines were noted, without the blank at the end of the first, and what cannot be decoded was replaced. -/
theorem error_output_noted_when_ended : ∃ a past, IsHeard (a :: past) [111, 255, 32, 10, 98] ∧ a.loop.state.complaints =
    [⟨.debug, lit "[tsserver stderr] o�"⟩, ⟨.debug, lit "[tsserver stderr] b"⟩] ∧ a.loop.hasEnded 2 = true := by
  have hwrote := (isHeard_startedWatch []).pursue (s := .errors 0 [111, 255, 32, 10, 98]) (by decide +kernel) trivial 60
  have hrun : IsHeard (moanedWatch.1 :: moanedWatch.2) [111, 255, 32, 10, 98] :=
    hwrote.pursue (s := .exit 0 0) (by decide +kernel) trivial 60
  have hcharset : Charset.lookup moanedWatch.1.loop.state.settings.encoding = .ok .utf8 := by rfl
  have hdead : (moanedWatch.1.loop.state.child 0).isAlive = false := by decide +kernel
  obtain ⟨-, hnoted⟩ := error_output_noted hrun (Watch.unhindered_of_tasks (by rfl) (by rfl)) hcharset
  obtain ⟨hall, -, hdrain⟩ := hnoted (by decide +kernel)
  rw [hdead] at hall
  exact ⟨_, _, hrun, hall.trans (by rfl), (hdrain 2 (by rfl)).mpr (.inl hdead)⟩

/-! ## A line that is too long -/

/-- Whoever has waited for error output ends if the first line is too long. -/
theorem Loop.tick_of_long {m : Loop} {t : TaskId} {v : Value} (hrun : m.running = some (.resume t (.value v) [.draining 0]))
    (hc : 0 < m.state.children.length) (hbroken : (m.streamOf 0 .errors).broken = none)
    (hlong : Stream.lineLimit < ((m.streamOf 0 .errors).buffer.takeWhile (· ≠ 10)).length) :
    m.tick program = (m.streamResumed 0 .errors).perform t [] (.done (.failed .lineTooLong)) := by
  have hstream : (m.streamResumed 0 .errors).streamOf 0 .errors = { m.streamOf 0 .errors with waiter := none } :=
    streamOf_errors_modifyStream hc fun s => { s with waiter := none }
  have hread : ((m.streamResumed 0 .errors).streamOf 0 .errors).readLine = .failed .lineTooLong := by
    rw [hstream]
    exact Stream.readLine_of_long hbroken hlong
  have hdrain : resume (.draining 0) (.value v) m = (m.streamResumed 0 .errors, .done (.failed .lineTooLong)) := by
    change drainLines 0 _ (m.streamResumed 0 .errors) = _
    unfold Loop.drainLines
    rw [hread]
  unfold Machine.tick
  rw [hrun]
  exact congrArg (fun s : Loop × Move => s.1.perform t [] s.2) hdrain

/-- A line that is longer by one octet than what can be read. -/
def wail : Bytes := List.replicate 65537 120 ++ [10]

/-- The child of a transport that was started has written that line, and the drain is about to read it. -/
def wailedWatch : Watch :=
  let a := (startedWatch []).1.after (.errors 0 wail)
  { a with loop := a.loop.tick Loop.program }

/-- The drain has read it. -/
def chokedLoop : Loop := (wailedWatch.loop.streamResumed 0 .errors).perform 2 [] (.done (.failed .lineTooLong))

theorem tick_wailedWatch : wailedWatch.loop.tick program = chokedLoop := by
  have hstream : wailedWatch.loop.streamOf 0 .errors = { buffer := wail } := by rfl
  have hfeed : 10 ∉ List.replicate 65537 (120 : UInt8) := fun h => by cases (List.mem_replicate.mp h).2
  refine tick_of_long (by rfl) (by decide +kernel) (by rw [hstream]) ?_
  rw [hstream, wail, Stream.takeWhile_line hfeed, List.length_replicate]
  decide

theorem isHeard_chokedLoop : ∃ past, IsHeard ({ wailedWatch with loop := chokedLoop } :: past) wail := by
  have hwailed := (isHeard_startedWatch []).stimulus (s := .errors 0 wail) (by decide +kernel) trivial
  have hchoked := (hwailed.tick (by decide +kernel)).tick (a := wailedWatch) (by decide +kernel)
  rw [tick_wailedWatch] at hchoked
  exact ⟨_, hchoked⟩

/-- **A line that is too long ends the drain while the child runs.** It is not noted, and neither is the next one. -/
theorem error_output_lost : ∃ a past, IsHeard (a :: past) (wail ++ asciiBytes "hello\n") ∧ a.Unhindered ∧
    Charset.lookup a.loop.state.settings.encoding = .ok .utf8 ∧ a.loop.isQuiet = true ∧ (a.loop.state.child 0).isAlive = true ∧
    a.loop.state.complaints = [] ∧ a.loop.routine? 2 = some (.drainErrors 0) ∧ a.loop.hasEnded 2 = true := by
  obtain ⟨past, hchoked⟩ := isHeard_chokedLoop
  have hgone := hchoked.tick (by decide +kernel)
  have hrun := hgone.stimulus (s := .errors 0 (asciiBytes "hello\n")) (by decide +kernel) trivial
  exact ⟨_, _, hrun, Watch.unhindered_of_tasks (by rfl) (by rfl), by rfl, by decide +kernel, by decide +kernel, by rfl, by rfl,
    by decide +kernel⟩

end DiagnosticsClient
