import DiagnosticsClient.Proofs.Transport.Inflow
/-
What a child complains of, line by line.

The error output of a child is read a line at a time, up to the first line that is too long (`Stream.readableLines`), and
each line is a note of its own (`State.complaints`). What a reading of a line does to the octets that are left is what taking
the first line away does to the lines of them all (`Stream.readLine_cases`, `Stream.readableLines_line`). Nobody but the
drain complains or touches the error output (`Ignores`): the reader and a start that launches no child only make futures.
-/
namespace DiagnosticsClient

open Async Async.Machine

/-! ## Lines of octets -/

namespace Stream

/-- The lines of some octets: each with its line feed, and what is left after the last one once nothing more comes. -/
def linesIn (ended : Bool) (octets : Bytes) : List Bytes :=
  (octets.splitOn 10).dropLast.map (· ++ [10]) ++
    if ended then (octets.splitOn 10).getLast?.toList.filter (· ≠ []) else []

/-- Whether a line is not too long to be read. -/
def isReadable (line : Bytes) : Bool := (line.takeWhile (· ≠ 10)).length ≤ lineLimit

/-- The lines before the first that is too long. -/
def readableLines (ended : Bool) (octets : Bytes) : List Bytes := (linesIn ended octets).takeWhile isReadable

/-- Whether a line is too long, be it whole or not. -/
def IsOverlong (octets : Bytes) : Prop := ∃ piece ∈ octets.splitOn 10, lineLimit < piece.length

variable {content rest octets more : Bytes} {ended : Bool} {s : Stream}

theorem takeWhile_line (h : 10 ∉ content) : (content ++ 10 :: rest).takeWhile (· ≠ 10) = content := by
  rw [List.takeWhile_append_of_pos fun x hx => decide_eq_true (ne_of_mem_of_not_mem hx h)]
  simp

theorem dropWhile_line (h : 10 ∉ content) : (content ++ 10 :: rest).dropWhile (· ≠ 10) = 10 :: rest := by
  rw [List.dropWhile_append_of_pos fun x hx => decide_eq_true (ne_of_mem_of_not_mem hx h)]
  simp

theorem takeWhile_rest (h : 10 ∉ octets) : octets.takeWhile (· ≠ 10) = octets :=
  List.takeWhile_eq_self_iff.mpr fun _ hx => decide_eq_true (ne_of_mem_of_not_mem hx h)

theorem dropWhile_rest (h : 10 ∉ octets) : octets.dropWhile (· ≠ 10) = [] :=
  List.dropWhile_eq_nil_iff.mpr fun _ hx => decide_eq_true (ne_of_mem_of_not_mem hx h)

/-- More octets do not make the first line shorter. -/
theorem length_takeWhile_append (octets more : Bytes) :
    (octets.takeWhile (· ≠ 10)).length ≤ ((octets ++ more).takeWhile (· ≠ 10)).length := by
  rw [List.takeWhile_append]
  split
  · next hall =>
    rw [hall, List.length_append]
    exact Nat.le_add_right _ _
  · exact le_rfl

/-- What a reading of a line gives: a whole line that is not too long, all that is left once nothing more comes, or nothing. -/
theorem readLine_cases (s : Stream) (h : s.broken = none) :
    (∃ content rest, s.buffer = content ++ 10 :: rest ∧ 10 ∉ content ∧ content.length ≤ lineLimit ∧
      s.readLine = .octets (content ++ [10]) rest) ∨
    (10 ∉ s.buffer ∧ s.buffer.length ≤ lineLimit ∧ s.readLine = if s.ended then .octets s.buffer [] else .nothingYet) ∨
    lineLimit < (s.buffer.takeWhile (· ≠ 10)).length ∧ s.readLine = .failed .lineTooLong := by
  unfold readLine
  rw [h]
  dsimp only
  by_cases hfeed : 10 ∈ s.buffer
  · obtain ⟨content, rest, hbuffer, hnot⟩ := List.eq_append_cons_of_mem hfeed
    rw [hbuffer, takeWhile_line hnot, dropWhile_line hnot]
    by_cases hlong : lineLimit < content.length
    · exact .inr (.inr ⟨hlong, if_pos hlong⟩)
    · exact .inl ⟨content, rest, rfl, hnot, Nat.le_of_not_lt hlong, if_neg hlong⟩
  · rw [takeWhile_rest hfeed, dropWhile_rest hfeed]
    by_cases hlong : lineLimit < s.buffer.length
    · exact .inr (.inr ⟨hlong, if_pos hlong⟩)
    · exact .inr (.inl ⟨hfeed, Nat.le_of_not_lt hlong, if_neg hlong⟩)

/-! ### One line after the other -/

/-- A line that is not too long is the first to be read. -/
theorem readableLines_line (h : 10 ∉ content) (hshort : content.length ≤ lineLimit) :
    readableLines ended (content ++ 10 :: rest) = (content ++ [10]) :: readableLines ended rest := by
  have hne := List.splitOn_ne_nil (10 : UInt8) rest
  have hlast : (content :: rest.splitOn 10).getLast? = (rest.splitOn 10).getLast? := List.getLast?_cons_of_ne_nil hne
  have hreadable : isReadable (content ++ [10]) = true := by
    rw [isReadable, takeWhile_line h]
    exact decide_eq_true hshort
  rw [readableLines, linesIn, List.splitOn_append_cons_self_of_not_mem h, List.dropLast_cons_of_ne_nil hne, hlast,
    List.map_cons, List.cons_append, List.takeWhile_cons_of_pos hreadable]
  rfl

/-- What is left after the last line feed is read once nothing more comes. -/
theorem readableLines_rest (h : 10 ∉ octets) (hshort : octets.length ≤ lineLimit) :
    readableLines ended octets = if ended = true ∧ octets ≠ [] then [octets] else [] := by
  have hreadable : isReadable octets = true := by
    rw [isReadable, takeWhile_rest h]
    exact decide_eq_true hshort
  rw [readableLines, linesIn, List.splitOn_eq_singleton h]
  cases ended with
  | false => simp
  | true => by_cases hnil : octets = [] <;> simp [hnil, hreadable]

/-- Nothing is read if the first line is too long, be it whole or not. -/
theorem readableLines_of_long (h : lineLimit < (octets.takeWhile (· ≠ 10)).length) : readableLines ended octets = [] := by
  have hunreadable : ∀ line : Bytes, line.takeWhile (· ≠ 10) = octets.takeWhile (· ≠ 10) → isReadable line = false :=
    fun line heq => decide_eq_false (heq ▸ Nat.not_le_of_lt h)
  by_cases hfeed : 10 ∈ octets
  · obtain ⟨content, rest, rfl, hnot⟩ := List.eq_append_cons_of_mem hfeed
    have hne := List.splitOn_ne_nil (10 : UInt8) rest
    have hfirst := hunreadable (content ++ [10]) ((takeWhile_line hnot).trans (takeWhile_line hnot).symm)
    rw [readableLines, linesIn, List.splitOn_append_cons_self_of_not_mem hnot, List.dropLast_cons_of_ne_nil hne, List.map_cons,
      List.cons_append, List.takeWhile_cons_of_neg (Bool.eq_false_iff.mp hfirst)]
  · have hfirst := hunreadable octets rfl
    rw [readableLines, linesIn, List.splitOn_eq_singleton hfeed]
    cases ended with
    | false => simp
    | true => by_cases hnil : octets = [] <;> simp [hnil, hfirst]

theorem isOverlong_line (h : 10 ∉ content) (hshort : content.length ≤ lineLimit) :
    IsOverlong (content ++ 10 :: rest) ↔ IsOverlong rest := by
  simp only [IsOverlong, List.splitOn_append_cons_self_of_not_mem h, List.mem_cons, exists_eq_or_imp]
  exact or_iff_right (Nat.not_lt_of_le hshort)

theorem not_isOverlong_rest (h : 10 ∉ octets) (hshort : octets.length ≤ lineLimit) : ¬ IsOverlong octets := by
  rw [IsOverlong, List.splitOn_eq_singleton h]
  simpa using hshort

theorem isOverlong_of_long (h : lineLimit < (octets.takeWhile (· ≠ 10)).length) : IsOverlong octets := by
  by_cases hfeed : 10 ∈ octets
  · obtain ⟨content, rest, rfl, hnot⟩ := List.eq_append_cons_of_mem hfeed
    rw [takeWhile_line hnot] at h
    refine ⟨content, ?_, h⟩
    rw [List.splitOn_append_cons_self_of_not_mem hnot]
    exact List.mem_cons_self
  · rw [takeWhile_rest hfeed] at h
    refine ⟨octets, ?_, h⟩
    rw [List.splitOn_eq_singleton hfeed]
    exact List.mem_singleton_self octets

end Stream

/-! ## Complaints -/

/-- What the note of a line of error output begins with. -/
def complaintMark : Text := lit "[tsserver stderr] "

/-- The note of a line of error output: what cannot be decoded is replaced, and blanks at its end are dropped. -/
def complaintOf (charset : Charset) (line : Bytes) : Note :=
  ⟨.debug, complaintMark ++ Text.dropEndWhile CodePoint.isBlank (charset.decodeLossy line)⟩

/-- A note of a line of error output. -/
def Entry.complaint? : Entry → Option Note
  | .note n => if complaintMark.isPrefixOf n.text then some n else none
  | _ => none

namespace State

/-- The lines of error output that were noted, in order. -/
def complaints (s : State) : List Note := s.transcript.toList.filterMap Entry.complaint?

theorem complaints_record (s : State) (e : Entry) : (s.record e).complaints = s.complaints ++ e.complaint?.toList := by
  simp only [complaints, record, Array.toList_push, List.filterMap_append]
  cases h : e.complaint? <;> simp [h]

theorem complaints_record_of_none {s : State} {e : Entry} (h : e.complaint? = none) : (s.record e).complaints = s.complaints := by
  rw [complaints_record, h, Option.toList_none, List.append_nil]

theorem complaints_complain (s : State) (charset : Charset) (line : Bytes) :
    (s.record (.note (complaintOf charset line))).complaints = s.complaints ++ [complaintOf charset line] := by
  have hmark : complaintMark.isPrefixOf (complaintOf charset line).text = true := by
    rw [List.isPrefixOf_iff_prefix]
    exact List.prefix_append _ _
  rw [complaints_record, Entry.complaint?, if_pos hmark]
  rfl

end State

/-- What a decoder notes is no complaint. -/
theorem Decoder.complaint?_of_mem_notes (d : Decoder) (chunk : Bytes) : ∀ n ∈ (d.feed chunk).notes, (Entry.note n).complaint? = none := by
  unfold Decoder.feed
  dsimp only
  split
  · simp
  · split
    · simp only [List.mem_singleton, forall_eq, Decoder.faultNote]
      split <;> rfl
    · simp

namespace Loop

variable {m m' m'' : Loop} {f : FutureId} {may : Licence Routine} {F : Frame} {o : Ending} {c : ChildId}

/-! ## Who does not complain -/

/-- The error output of the child is left alone, nobody complains, and if somebody waits for its output now, it is with a
new future. -/
structure Shuns (m m' : Loop) : Prop where
  settings : m'.state.settings = m.state.settings
  receiver : m'.state.receiver = m.state.receiver
  script : m'.state.script = m.state.script
  complaints : m'.state.complaints = m.state.complaints
  children : m'.state.children.length = m.state.children.length
  code : (m'.state.child 0).returnCode = (m.state.child 0).returnCode
  plain : (m'.state.child 0).script = (m.state.child 0).script
  errors : m'.streamOf 0 .errors = m.streamOf 0 .errors
  waiter : ∀ {f : FutureId}, (m'.streamOf 0 .output).waiter = some f → (m.streamOf 0 .output).waiter = some f ∨ m.futures.size ≤ f

/-- What is done leaves the error output alone. -/
structure Ignores (may : Licence Routine) (m m' : Loop) : Prop extends Shuns m m' where
  effect : Effect may m m'

theorem Shuns.of_state (h : m'.state = m.state) : Shuns m m' := by
  have hstream : ∀ pipe, m'.streamOf 0 pipe = m.streamOf 0 pipe := fun pipe => by cases pipe <;> rw [streamOf, streamOf, h]
  exact ⟨by rw [h], by rw [h], by rw [h], by rw [h], by rw [h], by rw [h], by rw [h], hstream _,
    fun hf => .inl (hstream .output ▸ hf)⟩

namespace Ignores

theorem of_effect (he : Effect may m m') (h : m'.state = m.state) : Ignores may m m' := ⟨.of_state h, he⟩

theorem refl (m : Loop) : Ignores may m m := .of_effect .refl rfl

theorem trans (h : Ignores may m m') (h' : Ignores may m' m'') : Ignores may m m'' where
  effect := h.effect.trans h'.effect
  settings := h'.settings.trans h.settings
  receiver := h'.receiver.trans h.receiver
  script := h'.script.trans h.script
  complaints := h'.complaints.trans h.complaints
  children := h'.children.trans h.children
  code := h'.code.trans h.code
  plain := h'.plain.trans h.plain
  errors := h'.errors.trans h.errors
  waiter hf := (h'.waiter hf).elim h.waiter fun hge => .inr (Nat.le_trans h.effect.extends.room hge)

/-- What leaves the children and the transcript alone. -/
theorem share (m : Loop) {k : State → State} (hset : (k m.state).settings = m.state.settings)
    (hreceiver : (k m.state).receiver = m.state.receiver) (hscript : (k m.state).script = m.state.script)
    (htold : (k m.state).transcript = m.state.transcript) (hc : (k m.state).children = m.state.children) :
    Ignores may m (m.modify k) := by
  have hchild : (m.modify k).state.child 0 = m.state.child 0 := by
    change (k m.state).child 0 = _
    rw [State.child, State.child, hc]
  have hstream : ∀ pipe, (m.modify k).streamOf 0 pipe = m.streamOf 0 pipe := fun pipe => by
    cases pipe <;> rw [streamOf, streamOf, hchild]
  have htold' : (m.modify k).state.complaints = m.state.complaints := by
    rw [State.complaints, State.complaints, ← htold]
    rfl
  exact ⟨⟨hset, hreceiver, hscript, htold', congrArg List.length hc, by rw [hchild], by rw [hchild], hstream _,
    fun hf => .inl (hstream .output ▸ hf)⟩, .single (.share _ _)⟩

theorem record (m : Loop) {e : Entry} (h : e.complaint? = none) : Ignores may m (m.record e) :=
  ⟨⟨rfl, rfl, rfl, State.complaints_record_of_none h, rfl, rfl, rfl, rfl, .inl⟩, .single (.share _ _)⟩

theorem recordNotes (m : Loop) {notes : List Note} (h : ∀ n ∈ notes, (Entry.note n).complaint? = none) :
    Ignores may m (m.modify fun s => notes.foldl (fun s n => s.record (.note n)) s) := by
  induction notes generalizing m with
  | nil => exact .refl m
  | cons n notes ih =>
    obtain ⟨hn, hnotes⟩ := List.forall_mem_cons.mp h
    exact (Ignores.record m hn).trans (ih (m.record (.note n)) hnotes)

theorem modifyTransport (m : Loop) (t : TransportId) (k : ChildTransport → ChildTransport) : Ignores may m (m.modifyTransport t k) :=
  .share m rfl rfl rfl rfl rfl

/-- A change of a child that is about neither its end nor its error output. -/
theorem of_child (he : Effect may m m') {c : ChildId} {k : Child → Child} (hs : m'.state = m.state.modifyChild c k)
    (hcode : ∀ x, (k x).returnCode = x.returnCode) (hplain : ∀ x, (k x).script = x.script) (herrors : ∀ x, (k x).errors = x.errors)
    (hwaiter : ∀ x f, (k x).output.waiter = some f → x.output.waiter = some f ∨ m.futures.size ≤ f) : Ignores may m m' := by
  have hchild : m'.state.child 0 = _ := hs ▸ State.child_modifyChild m.state c 0 k
  have hlength : m'.state.children.length = m.state.children.length := by simp [hs, State.modifyChild]
  have hrest : m'.state.settings = m.state.settings ∧ m'.state.receiver = m.state.receiver ∧ m'.state.script = m.state.script ∧
      m'.state.complaints = m.state.complaints := by
    rw [hs]
    exact ⟨rfl, rfl, rfl, rfl⟩
  obtain ⟨hset, hreceiver, hscript, htold⟩ := hrest
  by_cases heq : 0 = c ∧ c < m.state.children.length
  · obtain ⟨rfl, hlt⟩ := heq
    rw [if_pos ⟨rfl, hlt⟩] at hchild
    refine ⟨⟨hset, hreceiver, hscript, htold, hlength, ?_, ?_, ?_, fun {f} hf => ?_⟩, he⟩
    · rw [hchild, hcode]
    · rw [hchild, hplain]
    · rw [streamOf, streamOf, hchild, herrors]
    · rw [streamOf, hchild] at hf
      exact hwaiter _ f hf
  · rw [if_neg heq] at hchild
    refine ⟨⟨hset, hreceiver, hscript, htold, hlength, by rw [hchild], by rw [hchild], by rw [streamOf, streamOf, hchild],
      fun {f} hf => .inl ?_⟩, he⟩
    rwa [streamOf, hchild] at hf

theorem of_output (he : Effect may m m') {c : ChildId} {k : Stream → Stream} (hs : m'.state = (m.modifyStream c .output k).state)
    (hwaiter : ∀ s f, (k s).waiter = some f → s.waiter = some f ∨ m.futures.size ≤ f) : Ignores may m m' :=
  .of_child he hs (fun _ => rfl) (fun _ => rfl) (fun _ => rfl) fun x => hwaiter x.output

theorem modifyOutput (m : Loop) (c : ChildId) {k : Stream → Stream}
    (hwaiter : ∀ s f, (k s).waiter = some f → s.waiter = some f ∨ m.futures.size ≤ f) : Ignores may m (m.modifyStream c .output k) :=
  .of_output (.single (.share _ _)) rfl hwaiter

end Ignores

/-- What the running task does, if it ignores the error output; if it waits, it is for something new. -/
structure Overlooks (m : Loop) (s : Loop × Move) : Prop where
  ignores : Ignores quiet m s.1
  news : m.AwaitsNew s.2

namespace Overlooks

theorem done (h : Ignores quiet m m') (o : Ending) : Overlooks m (m', .done o) := ⟨h, fun heq => by cases heq⟩

theorem after {s : Loop × Move} (h : Ignores quiet m m') (h' : Overlooks m' s) : Overlooks m s :=
  ⟨h.trans h'.ignores, fun heq => Nat.le_trans h.effect.extends.room (h'.news heq)⟩

/-! ### Reading -/

theorem awaitOutput (m : Loop) (c : ChildId) (F : Frame) : Overlooks m (m.awaitStream c .output F) :=
  ⟨.of_output (k := fun s => { s with waiter := some m.futures.size }) (.tail (.single (.newFuture m)) (.share _ _)) rfl
    fun _ _ heq => .inr (Nat.le_of_eq (Option.some.inj heq)), fun heq => by cases heq; exact Nat.le_refl _⟩

theorem conclude (hr : m.state.receiver = .watcher) (e : Option ServerError) : Ignores quiet m (m.conclude 0 e) := by
  unfold Loop.conclude
  split
  · rw [report_watcher (show (m.setPhase 0 .stopped).state.receiver = .watcher from hr)]
    exact (Ignores.modifyTransport m 0 _).trans (.record _ rfl)
  · exact .refl m

theorem breakOff (hr : m.state.receiver = .watcher) (failure : Failure) : Overlooks m (m.breakOff 0 failure) := by
  have hnote : Ignores quiet m (m.note .error (lit "Read loop error: " ++ failure.message)) := .record m rfl
  exact .done (hnote.trans (conclude (hnote.receiver.trans hr) _)) _

theorem receiveAll (hr : m.state.receiver = .watcher) (vs : List Json) : Ignores quiet m (m.receiveAll 0 vs).1 := by
  induction vs generalizing m with
  | nil => exact .refl m
  | cons v vs ih =>
    have hone : Ignores quiet m (m.receive 0 v).1 := by
      unfold Loop.receive
      rw [hr]
      dsimp only
      split
      · exact .refl m
      · exact .record m rfl
    unfold Loop.receiveAll
    split <;> rename_i hm <;> rw [hm] at hone
    · exact hone.trans (ih (hone.receiver.trans hr))
    · exact hone

theorem readChunks (hr : m.state.receiver = .watcher) (fuel : Nat) (d : Decoder) : Overlooks m (readChunks 0 0 fuel d m) := by
  induction fuel generalizing m d with
  | zero => exact awaitOutput m 0 _
  | succ fuel ih =>
    unfold Loop.readChunks
    split
    · exact awaitOutput m 0 _
    · exact breakOff hr _
    · exact ⟨.refl m, fun heq => by cases heq⟩
    · next chunk rest _ _ =>
      have hread : Ignores quiet m (m.modifyStream 0 .output fun s => { s with buffer := rest }) := .modifyOutput m 0 fun _ _ => .inl
      have hnotes := hread.trans (.recordNotes _ (d.complaint?_of_mem_notes chunk))
      dsimp only
      split
      · exact .after hnotes (breakOff (hnotes.receiver.trans hr) _)
      · next messages _ =>
        have hall := hnotes.trans (receiveAll (hnotes.receiver.trans hr) messages)
        split <;> rename_i hm <;> rw [hm] at hall
        · exact .after hall (breakOff (hall.receiver.trans hr) _)
        · exact .after hall (ih (hall.receiver.trans hr) _)

theorem readResumed (hr : m.state.receiver = .watcher) (d : Decoder) (o : Ending) : Overlooks m (readResumed 0 0 d o m) := by
  have hfree : Ignores quiet m (m.streamResumed 0 .output) := .modifyOutput m 0 fun _ _ heq => by cases heq
  unfold Loop.readResumed
  dsimp only
  split
  · exact .after hfree (readChunks (hfree.receiver.trans hr) _ _)
  · exact .after hfree (breakOff (hfree.receiver.trans hr) _)
  · exact .done hfree _

theorem outputResumed (hr : m.state.receiver = .watcher) (n : Nat) (o : Ending) : Overlooks m (outputResumed 0 0 n o m) := by
  unfold Loop.outputResumed
  split
  · next code =>
    obtain ⟨m₁, hm₁, hnoted⟩ : ∃ m₁, (if n = 0 then m
        else m.note .debug (lit "tsserver exited with " ++ Text.ofNat n ++ lit " undecoded bytes")) = m₁ ∧ Ignores quiet m m₁ := by
      refine ⟨_, rfl, ?_⟩
      split
      · exact .refl m
      · exact .record m rfl
    dsimp only
    rw [hm₁]
    split
    · have hexit : Ignores quiet m₁ (m₁.note .info (lit "tsserver exited (pid=" ++ Text.ofNat (Child.pid 0) ++ lit ")")) := .record m₁ rfl
      have hboth := hnoted.trans hexit
      exact .done (hboth.trans (conclude (hboth.receiver.trans hr) none)) _
    · exact .done (hnoted.trans (conclude (hnoted.receiver.trans hr) _)) _
  · exact .done (.refl m) _

theorem awaitExit (m : Loop) (c : ChildId) : Overlooks m (awaitExit c m) := by
  unfold Loop.awaitExit
  split
  · exact .done (.refl m) _
  · exact ⟨.of_child (.tail (.single (.newFuture m)) (.share _ _)) rfl (fun _ => rfl) (fun _ => rfl) (fun _ => rfl) fun _ _ => .inl,
      fun heq => by cases heq; exact Nat.le_refl _⟩

/-- Whoever begins to read, or asks for the end of the child, ignores its error output. -/
theorem begins_reading (hr : m.state.receiver = .watcher) {r : Routine} {stack : List Frame} (h : Reading 0 0 ⟨.begins r, stack⟩) :
    Overlooks m (begin r m) := by
  cases h with
  | begins => exact readChunks hr _ _
  | asks => exact awaitExit m 0

/-- Whoever goes on reading ignores the error output. -/
theorem resumes_reading (hr : m.state.receiver = .watcher) {stack : List Frame} (h : Reading 0 0 ⟨.resumes o, F :: stack⟩) :
    Overlooks m (resume F o m) := by
  cases h with
  | resumes _ d => exact readResumed hr d o
  | exited => exact .done (.refl m) o
  | concludes _ n => exact outputResumed hr n o

/-! ### Starting -/

theorem gateResumed (m : Loop) (t : TransportId) (call : Call) (fails : Bool) (w : FutureId) (o : Ending) :
    Overlooks m (gateResumed t call fails w o m) := by
  have hgate : Ignores quiet m (m.modifyGate t call fun gate => { gate with waiters := gate.waiters.erase w }) :=
    .share m rfl rfl rfl rfl rfl
  unfold Loop.gateResumed Loop.concludeCall
  dsimp only
  split
  · split
    · exact .done hgate _
    · exact .done (hgate.trans (.record _ rfl)) _
  · exact .done hgate _

end Overlooks

/-! ### Writing -/

theorem writeLine_ignores (m : Loop) (t : TransportId) (line : Except EncodeError Bytes) : Ignores may m (m.writeLine t line).1 := by
  unfold Loop.writeLine
  dsimp only
  split
  · split
    · exact .record m rfl
    · split
      · exact .refl m
      · exact .record m rfl
  · exact .record m rfl

/-- A child that answers by no script does nothing about a request. -/
theorem write_ignores (hplain : ∀ c, (m.state.child c).script = none) (t : TransportId) (request : Request) :
    Ignores may m (m.write t request).1 := by
  unfold Loop.write
  split
  · exact .record m rfl
  · have hline : Ignores may m (m.writeLine t (encodeMessage m.state.settings.encoding (.request request))).1 := writeLine_ignores m t _
    have hkept := writeLine_jots m t (encodeMessage m.state.settings.encoding (.request request))
    split <;> rename_i hm <;> rw [hm] at hline hkept
    · exact hline
    · next m₁ c =>
      have hscript : (m₁.state.child c).script = none := by
        rcases hkept with rfl | ⟨e, -, rfl⟩
        · exact hplain c
        · exact hplain c
      have hreact : m₁.react c request = m₁ := by
        unfold Loop.react
        rw [hscript]
      rw [hreact]
      exact hline
    · exact hline

end Loop

end DiagnosticsClient
