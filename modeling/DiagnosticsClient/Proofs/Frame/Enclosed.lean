import DiagnosticsClient.Proofs.Frame.Lines
/-
Decoding undoes framed encoding.

A body behind a header that gives its length is a frame, whichever line ends
the header has. So lines of the encoder, each framed this way, are decoded one
after another to the objects they spell, and nothing is left.
-/
namespace DiagnosticsClient

/-! ## A header for a length -/

namespace Header

theorem number_map_toNat {ds : List Char} (h : ∀ d ∈ ds, d.isDigit = true) :
    number (ds.map fun d => UInt8.ofNat d.toNat) = Nat.ofDigitChars 10 ds 0 := by
  rw [number, List.foldl_map, Nat.ofDigitChars_eq_foldl]
  refine List.foldl_ext _ _ _ fun n d hd => ?_
  have hdigit := h d hd
  simp only [Char.isDigit, Bool.and_eq_true, decide_eq_true_eq, ge_iff_le, UInt32.le_iff_toNat_le] at hdigit
  have hsmall : d.toNat < 0x100 := Nat.lt_of_le_of_lt hdigit.2 (by decide)
  rw [Charset.toNat_ofNat hsmall, Nat.mul_comm]
  rfl

/-- The digits of a length. -/
def digitsOf (n : Nat) : Bytes := (Nat.toDigits 10 n).map fun d => UInt8.ofNat d.toNat

@[simp] theorem number_digitsOf (n : Nat) : number (digitsOf n) = n := by
  rw [digitsOf, number_map_toNat fun d hd => Nat.isDigit_of_mem_toDigits (by decide) (by decide) hd,
    Nat.ofDigitChars_ten_toDigits]

theorem digitsOf_ne_nil (n : Nat) : digitsOf n ≠ [] := by
  simp [digitsOf, Nat.toDigits_ne_nil]

theorem isDigit_of_mem_digitsOf {n : Nat} {b : UInt8} (h : b ∈ digitsOf n) : isDigit b = true := by
  obtain ⟨d, hd, rfl⟩ := List.mem_map.mp h
  have hdigit := Nat.isDigit_of_mem_toDigits (by decide) (by decide) hd
  simp only [Char.isDigit, Bool.and_eq_true, decide_eq_true_eq, ge_iff_le, UInt32.le_iff_toNat_le] at hdigit
  have hsmall : d.toNat < 0x100 := Nat.lt_of_le_of_lt hdigit.2 (by decide)
  rw [isDigit, Charset.toNat_ofNat hsmall]
  simpa using hdigit

theorem length_digitsOf_le {n : Nat} (h : n < 10 ^ Text.digitLimit) : (digitsOf n).length ≤ Text.digitLimit := by
  rw [digitsOf, List.length_map, Nat.length_toDigits_le_iff (by decide) (by decide)]
  exact h

end Header

/-- The two line ends of a header. -/
structure LineEnds where
  first : Bytes
  second : Bytes
  firstEnds : Header.IsLineEnd first
  secondEnds : Header.IsLineEnd second

namespace LineEnds

/-- A body behind a header that gives its length. -/
def enclose (ends : LineEnds) (body : Bytes) : Bytes :=
  Header.name ++ (Header.digitsOf body.length ++ (ends.first ++ ends.second)) ++ body

/-- The frame those octets are. -/
def frameOf (ends : LineEnds) (body : Bytes) : WholeFrame where
  heading := ⟨Header.digitsOf body.length, ends.first, ends.second, Header.digitsOf_ne_nil _,
    fun _ h => Header.isDigit_of_mem_digitsOf h, ends.firstEnds, ends.secondEnds⟩
  body := body
  full := (Header.number_digitsOf body.length).symm

theorem octets_frameOf (ends : LineEnds) (body : Bytes) : (ends.frameOf body).octets = ends.enclose body := rfl

/-- **An enclosed body is read as one message**, whatever follows it. -/
theorem readFrame_enclose (ends : LineEnds) {encoding : Text} {body : Bytes} {message : Json}
    (hshort : body.length < 10 ^ Text.digitLimit) (hread : readBody encoding body = .ok message) (rest : Bytes) :
    readFrame encoding (ends.enclose body ++ rest) = .frame message (ends.enclose body).length rest := by
  have hdigits : ¬ Text.digitLimit < (ends.frameOf body).heading.digits.length :=
    Nat.not_lt.mpr (Header.length_digitsOf_le hshort)
  have hbody : readBody encoding (ends.frameOf body).body = .ok message := hread
  rw [← octets_frameOf, readFrame_octets, if_neg hdigits, hbody]

end LineEnds

/-! ## Frames one after another -/

/-- **Framed messages are decoded in order**, and nothing is left of them. -/
theorem decode_flatten_enclose {encoding : Text} {frames : List Bytes} {messages : List Json}
    (h : List.Forall₂ (fun frame message => ∀ rest, readFrame encoding (frame ++ rest) = .frame message frame.length rest)
      frames messages) :
    decode encoding frames.flatten = .ok ⟨messages, frames.flatten.length, none⟩ := by
  induction h with
  | nil => rfl
  | cons hframe _ ih =>
    rw [List.flatten_cons, decode_of_frame (hframe _), ih, List.length_append]
    rfl

/-- **Decoding undoes framed encoding**: objects written as lines, each behind a header that gives the length of its
line, are decoded to those objects, with nothing left and no fault. A length is one that its header can give: it has at
most as many digits as a number may have. -/
theorem decode_encoded_objects (ms : List (LineEnds × Json.Fields))
    (hexact : ∀ m ∈ ms, (Json.obj m.2).isExact = true) (hencodable : ∀ m ∈ ms, (Json.obj m.2).isEncodable = true)
    (hnesting : ∀ m ∈ ms, (Json.obj m.2).nesting < 300)
    (hshort : ∀ m ∈ ms, ∀ line, encodeValue (lit "utf-8") (.obj m.2) = .ok line → line.length < 10 ^ Text.digitLimit) :
    ∃ frames : List Bytes,
      ms.mapM (fun m => (encodeValue (lit "utf-8") (.obj m.2)).map m.1.enclose) = .ok frames ∧
      decode (lit "utf-8") frames.flatten = .ok ⟨ms.map fun m => .obj m.2, frames.flatten.length, none⟩ := by
  have hframes : ∃ frames : List Bytes,
      ms.mapM (fun m => (encodeValue (lit "utf-8") (.obj m.2)).map m.1.enclose) = .ok frames ∧
      List.Forall₂ (fun frame message => ∀ rest, readFrame (lit "utf-8") (frame ++ rest) = .frame message frame.length rest)
        frames (ms.map fun m => .obj m.2) := by
    induction ms with
    | nil => exact ⟨[], rfl, .nil⟩
    | cons m ms ih =>
      obtain ⟨frames, hmap, hall⟩ := ih (fun n hn => hexact n (List.mem_cons_of_mem _ hn))
        (fun n hn => hencodable n (List.mem_cons_of_mem _ hn)) (fun n hn => hnesting n (List.mem_cons_of_mem _ hn))
        (fun n hn => hshort n (List.mem_cons_of_mem _ hn))
      have hdepth : (Json.obj m.2).nesting ≤ Json.depthLimit :=
        Nat.le_trans (Nat.le_of_lt (hnesting m (by simp))) (by decide)
      obtain ⟨octets, hline, -, -, hread⟩ :=
        exists_line Json.plainNumbers (hexact m (by simp)) (hencodable m (by simp)) hdepth
      have hvalue : encodeValue (lit "utf-8") (.obj m.2) = .ok (octets ++ [10]) := hline
      refine ⟨m.1.enclose (octets ++ [10]) :: frames, ?_, .cons (fun rest => ?_) hall⟩
      · rw [List.mapM_cons, hvalue, hmap]
        rfl
      · exact m.1.readFrame_enclose (hshort m (by simp) _ hvalue) hread rest
  obtain ⟨frames, hmap, hall⟩ := hframes
  exact ⟨frames, hmap, decode_flatten_enclose hall⟩

/-- Two objects behind headers with different line ends. -/
theorem decode_encoded_objects_of_two :
    ∃ frames : List Bytes,
      ([(⟨[13, 10], [10], .inr rfl, .inl rfl⟩, [(lit "a", .str (lit "\n"))]),
        (⟨[10], [13, 10], .inl rfl, .inr rfl⟩, [])] : List (LineEnds × Json.Fields)).mapM
          (fun m => (encodeValue (lit "utf-8") (.obj m.2)).map m.1.enclose) = .ok frames ∧
      decode (lit "utf-8") frames.flatten = .ok ⟨[.obj [(lit "a", .str (lit "\n"))], .obj []], frames.flatten.length, none⟩ :=
  decode_encoded_objects [(⟨[13, 10], [10], .inr rfl, .inl rfl⟩, [(lit "a", .str (lit "\n"))]),
      (⟨[10], [13, 10], .inl rfl, .inr rfl⟩, [])]
    (by decide) (by decide) (by decide)
    (by
      have hfirst : encodeValue (lit "utf-8") (.obj [(lit "a", .str (lit "\n"))]) = .ok (asciiBytes "\x7b\"a\":\"\\n\"\x7d\n") := by
        rfl
      have hsecond : encodeValue (lit "utf-8") (.obj []) = .ok (asciiBytes "\x7b\x7d\n") := by rfl
      intro m hm line hline
      simp only [List.mem_cons, List.not_mem_nil, or_false] at hm
      have hlimit : 100 ≤ 10 ^ Text.digitLimit := Nat.le_trans (by decide) (Nat.pow_le_pow_right (by decide) (by decide : 2 ≤ Text.digitLimit))
      rcases hm with rfl | rfl
      · rw [hfirst] at hline
        cases hline
        exact Nat.lt_of_lt_of_le (by decide) hlimit
      · rw [hsecond] at hline
        cases hline
        exact Nat.lt_of_lt_of_le (by decide) hlimit)

end DiagnosticsClient
