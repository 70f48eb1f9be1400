import DiagnosticsClient.Proofs.Frame.Header
/-
What more octets cannot change.

A frame, a fault and a refusal at the front of a buffer stay when more octets
come; only what is unfinished can become something else. So a pass over a
longer buffer (`decode_append`) is the pass over the shorter one, which either
ended for good or goes on at the octets it left.
-/
namespace DiagnosticsClient

/-! ## One frame -/

theorem fills_iff_le_length {n : Nat} {b : Bytes} : fills n b = true ↔ n ≤ b.length := by
  induction n generalizing b with
  | zero => simp [fills]
  | succ n ih =>
    cases b with
    | nil => simp [fills]
    | cons c b => simp [fills, ih]

/-- What is read from a buffer that begins with a whole header. -/
theorem readFrame_of_whole? {encoding : Text} {buffer : Bytes} {h : Header.Whole} (hw : Header.whole? buffer = some h) :
    readFrame encoding buffer =
      if Text.digitLimit < h.digits.length then .refused (.integerTooLong h.digits.length)
      else if fills (Header.number h.digits) h.rest = false then .unfinished
      else
        match readBody encoding (h.rest.take (Header.number h.digits)) with
        | .ok message =>
          .frame message (h.size + Header.number h.digits) (h.rest.drop (Header.number h.digits))
        | .error (.fault f) => .fault (.body f) h.size
        | .error (.refused r) => .refused r := by
  simp only [readFrame, hw, Bool.not_eq_true'] <;> rfl

theorem readFrame_of_whole?_eq_none {encoding : Text} {buffer : Bytes} (hw : Header.whole? buffer = none) :
    readFrame encoding buffer = if Header.mayGrow buffer then .unfinished else .fault .header 0 := by
  simp only [readFrame, hw]

/-- **More octets change only what is unfinished**: a frame, a fault or a refusal at the front of a buffer stays. -/
theorem readFrame_append (encoding : Text) (a b : Bytes) :
    readFrame encoding (a ++ b) =
      match readFrame encoding a with
      | .frame message size rest => .frame message size (rest ++ b)
      | .unfinished => readFrame encoding (a ++ b)
      | .fault complaint offset => .fault complaint offset
      | .refused r => .refused r := by
  cases hw : Header.whole? a with
  | none =>
    have hra : readFrame encoding a = _ := readFrame_of_whole?_eq_none hw
    rw [hra]
    cases hg : Header.mayGrow a with
    | true => simp
    | false =>
      obtain ⟨hw', hg'⟩ := Header.not_mayGrow_append (b := b) hw hg
      simp [readFrame_of_whole?_eq_none hw', hg']
  | some h =>
    have hwb := Header.whole?_append (b := b) hw
    rw [readFrame_of_whole? hw]
    by_cases hd : Text.digitLimit < h.digits.length
    · simp only [hd, if_true, readFrame_of_whole? hwb]
    by_cases hf : fills (Header.number h.digits) h.rest = false
    · simp only [hd, hf, if_true, if_false]
    have hle : Header.number h.digits ≤ h.rest.length := by simpa [fills_iff_le_length] using hf
    have hle' : Header.number h.digits ≤ (h.rest ++ b).length := by simp only [List.length_append]; omega
    simp only [readFrame_of_whole? hwb, hd, hf, if_false, fills_iff_le_length.mpr hle', Bool.true_eq_false,
      List.take_append_of_le_length hle, List.drop_append_of_le_length hle]
    rcases readBody encoding (h.rest.take (Header.number h.digits)) with (f | r) | v <;> rfl

/-- A frame's octets are the front of the buffer. -/
theorem readFrame_frame {encoding : Text} {buffer rest : Bytes} {message : Json} {size : Nat}
    (h : readFrame encoding buffer = .frame message size rest) :
    rest = buffer.drop size ∧ 0 < size ∧ size ≤ buffer.length := by
  cases hw : Header.whole? buffer with
  | none =>
    rw [readFrame_of_whole?_eq_none hw] at h
    split at h <;> cases h
  | some w =>
    rw [readFrame_of_whole? hw] at h
    obtain ⟨hlen, hpos⟩ := Header.length_whole? hw
    split at h
    · cases h
    split at h
    · cases h
    next hf =>
    have hle : Header.number w.digits ≤ w.rest.length := by simpa [fills_iff_le_length] using hf
    split at h
    · cases h
      refine ⟨?_, by omega, by omega⟩
      rw [← Header.drop_whole? hw, List.drop_drop]
    · cases h
    · cases h

theorem readFrame_nil (encoding : Text) : readFrame encoding [] = .unfinished := rfl

/-! ## A whole pass -/

/-- What a pass found, when a frame was read before it. -/
def Decoded.after (message : Json) (size : Nat) (d : Decoded) : Decoded :=
  ⟨message :: d.messages, size + d.consumed, d.fault.map fun f => ⟨f.complaint, size + f.offset⟩⟩

/-- What a pass found, when another before it ended without a fault. -/
def Decoded.append (d e : Decoded) : Decoded :=
  ⟨d.messages ++ e.messages, d.consumed + e.consumed, e.fault.map fun f => ⟨f.complaint, d.consumed + f.offset⟩⟩

theorem Decoded.nil_append (d : Decoded) : Decoded.append ⟨[], 0, none⟩ d = d := by
  obtain ⟨messages, consumed, _ | ⟨complaint, offset⟩⟩ := d <;> simp [Decoded.append]

theorem Decoded.append_assoc (a b c : Decoded) : (a.append b).append c = a.append (b.append c) := by
  obtain ⟨messages, consumed, _ | ⟨complaint, offset⟩⟩ := c <;> simp [Decoded.append, Nat.add_assoc]

theorem Decoded.after_append (message : Json) (size : Nat) (d e : Decoded) :
    (d.after message size).append e = (d.append e).after message size := by
  obtain ⟨messages, consumed, _ | ⟨complaint, offset⟩⟩ := e <;> simp [Decoded.append, Decoded.after, Nat.add_assoc]

/-- A pass from an offset on is the pass from the start, moved there. -/
theorem decodeFrom_eq_map (encoding : Text) (fuel offset : Nat) (messages : List Json) (buffer : Bytes) :
    decodeFrom encoding fuel offset messages buffer =
      (decodeFrom encoding fuel 0 [] buffer).map (Decoded.append ⟨messages.reverse, offset, none⟩) := by
  induction fuel generalizing offset messages buffer with
  | zero => simp [decodeFrom, Except.map, Decoded.append]
  | succ fuel ih =>
    simp only [decodeFrom]
    split
    · simp [Except.map, Decoded.append]
    · split
      · next message size rest _ =>
        rw [ih (offset + size) (message :: messages), ih (0 + size) [message]]
        cases decodeFrom encoding fuel 0 [] rest with
        | error r => rfl
        | ok d => cases hf : d.fault <;> simp [Except.map, Decoded.append, hf, Nat.add_assoc]
      · simp [Except.map, Decoded.append]
      · simp [Except.map, Decoded.append]
      · rfl

/-- More fuel than octets makes no difference. -/
theorem decodeFrom_fuel (encoding : Text) {fuel fuel' : Nat} {buffer : Bytes} (h : buffer.length ≤ fuel)
    (h' : buffer.length ≤ fuel') : decodeFrom encoding fuel 0 [] buffer = decodeFrom encoding fuel' 0 [] buffer := by
  induction fuel generalizing fuel' buffer with
  | zero =>
    obtain rfl : buffer = [] := List.eq_nil_of_length_eq_zero (by omega)
    cases fuel' <;> simp [decodeFrom]
  | succ fuel ih =>
    by_cases hb : buffer = []
    · subst hb; cases fuel' <;> simp [decodeFrom]
    have hpos : 0 < buffer.length := List.length_pos_iff.mpr hb
    obtain ⟨fuel', rfl⟩ : ∃ n, fuel' = n + 1 := ⟨fuel' - 1, by omega⟩
    simp only [decodeFrom, hb, if_false]
    split
    · next message size rest hr =>
      obtain ⟨rfl, hsize, -⟩ := readFrame_frame hr
      have hlt : (buffer.drop size).length < buffer.length := by simp only [List.length_drop]; omega
      have hsame : decodeFrom encoding fuel 0 [] (buffer.drop size) = decodeFrom encoding fuel' 0 [] (buffer.drop size) :=
        ih (by omega) (by omega)
      rw [decodeFrom_eq_map, decodeFrom_eq_map encoding fuel', hsame]
    all_goals rfl

theorem decode_of_frame {encoding : Text} {buffer rest : Bytes} {message : Json} {size : Nat}
    (h : readFrame encoding buffer = .frame message size rest) :
    decode encoding buffer = (decode encoding rest).map (Decoded.after message size) := by
  obtain ⟨hrest, hsize, hle⟩ := readFrame_frame h
  have hb : buffer ≠ [] := fun hb => by rw [hb, readFrame_nil] at h; cases h
  obtain ⟨n, hn⟩ : ∃ n, buffer.length = n + 1 := ⟨buffer.length - 1, by omega⟩
  have hlen : rest.length ≤ n := by rw [hrest, List.length_drop]; omega
  simp only [decode, hn, decodeFrom, hb, if_false, h]
  have hfuel : decodeFrom encoding n 0 [] rest = decodeFrom encoding rest.length 0 [] rest :=
    decodeFrom_fuel encoding hlen (Nat.le_refl _)
  rw [decodeFrom_eq_map, hfuel]
  cases decodeFrom encoding rest.length 0 [] rest with
  | error r => rfl
  | ok d => simp [Except.map, Decoded.append, Decoded.after]

theorem decode_of_unfinished {encoding : Text} {buffer : Bytes} (h : readFrame encoding buffer = .unfinished) :
    decode encoding buffer = .ok ⟨[], 0, none⟩ := by
  cases buffer with
  | nil => rfl
  | cons c buffer => simp [decode, decodeFrom, h]

theorem decode_of_fault {encoding : Text} {buffer : Bytes} {complaint : FrameComplaint} {offset : Nat}
    (h : readFrame encoding buffer = .fault complaint offset) :
    decode encoding buffer = .ok ⟨[], 0, some ⟨complaint, offset⟩⟩ := by
  cases buffer with
  | nil => cases h
  | cons c buffer => simp [decode, decodeFrom, h]

theorem decode_of_refused {encoding : Text} {buffer : Bytes} {r : Refusal}
    (h : readFrame encoding buffer = .refused r) : decode encoding buffer = .error r := by
  cases buffer with
  | nil => cases h
  | cons c buffer => simp [decode, decodeFrom, h]

/-- What a pass over more octets gives, when that over fewer gave `found`: a fault is the end, and without one the pass
goes on at the octets left. -/
def Decoded.resume (encoding : Text) (found : Decoded) (left : Bytes) : Except Refusal Decoded :=
  match found.fault with
  | some _ => .ok found
  | none => (decode encoding left).map found.append

theorem Decoded.resume_after (encoding : Text) (message : Json) (size : Nat) (found : Decoded) (left : Bytes) :
    (found.after message size).resume encoding left = (found.resume encoding left).map (Decoded.after message size) := by
  cases hf : found.fault with
  | some f => simp [Decoded.resume, Decoded.after, hf, Except.map]
  | none =>
    have ha : (found.after message size).fault = none := by simp [Decoded.after, hf]
    simp only [Decoded.resume, ha, hf]
    cases decode encoding left with
    | error r => rfl
    | ok d => simp only [Except.map, Decoded.after_append]

theorem consumed_le_length {encoding : Text} {buffer : Bytes} {found : Decoded} (h : decode encoding buffer = .ok found) :
    found.consumed ≤ buffer.length := by
  induction hn : buffer.length using Nat.strongRecOn generalizing buffer found with
  | ind n ih =>
    cases hr : readFrame encoding buffer with
    | frame message size rest =>
      obtain ⟨hrest, hsize, hle⟩ := readFrame_frame hr
      rw [decode_of_frame hr] at h
      cases hd : decode encoding rest with
      | error r => rw [hd] at h; cases h
      | ok d =>
        rw [hd] at h
        cases h
        have hlen : rest.length + size = buffer.length := by rw [hrest, List.length_drop]; omega
        have := ih rest.length (by omega) hd rfl
        simp only [Decoded.after]
        omega
    | unfinished => rw [decode_of_unfinished hr] at h; cases h; simp
    | fault complaint offset => rw [decode_of_fault hr] at h; cases h; simp
    | refused r => rw [decode_of_refused hr] at h; cases h

/-- **A pass over more octets** is refused where that over fewer was, and resumes it otherwise. -/
theorem decode_append (encoding : Text) (a b : Bytes) :
    decode encoding (a ++ b) =
      match decode encoding a with
      | .error r => .error r
      | .ok found => found.resume encoding (a.drop found.consumed ++ b) := by
  induction hn : a.length using Nat.strongRecOn generalizing a with
  | ind n ih =>
    have happ := readFrame_append encoding a b
    cases hr : readFrame encoding a with
    | frame message size rest =>
      obtain ⟨hrest, hsize, hle⟩ := readFrame_frame hr
      rw [hr] at happ
      have hlen : rest.length < n := by rw [hrest, List.length_drop]; omega
      rw [decode_of_frame happ, decode_of_frame hr, ih rest.length hlen rest rfl]
      cases decode encoding rest with
      | error r => rfl
      | ok d =>
        simp only [Except.map, Decoded.resume_after]
        simp only [Decoded.after, hrest, List.drop_drop]
    | unfinished =>
      rw [decode_of_unfinished hr]
      simp only [Decoded.resume, List.drop_zero]
      cases decode encoding (a ++ b) with
      | error r => rfl
      | ok d => simp only [Except.map, Decoded.nil_append]
    | fault complaint offset =>
      rw [hr] at happ
      rw [decode_of_fault happ, decode_of_fault hr]
      rfl
    | refused r =>
      rw [hr] at happ
      rw [decode_of_refused happ, decode_of_refused hr]

end DiagnosticsClient
