import DiagnosticsClient.Text.Charset
/-
UTF-8, both ways.

A run of octets decodes to a text exactly when the text encodes to the run. The
scan that decodes also places and names its faults; without them it is
`spelt?`, which reads the characters of the run one by one and gives up at the
first octet that belongs to none. Every character is read from its own octets
(`spelt?_octetsOf`) and from no others (`exists_octetsOf_of_spelt?`).
-/
namespace DiagnosticsClient

namespace Charset

/-! ## Scans without faults -/

/-- The characters of pieces that all hold one. -/
def chars? : List Scanned → Option Text
  | [] => some []
  | .char c :: pieces => (chars? pieces).map (c :: ·)
  | .fault _ :: _ => none

theorem chars?_append (l l' : List Scanned) :
    chars? (l ++ l') = (chars? l).bind fun t => (chars? l').map (t ++ ·) := by
  induction l with
  | nil => cases h : chars? l' <;> simp [chars?, h]
  | cons piece l ih =>
    cases piece with
    | char c => cases h : chars? l <;> cases h' : chars? l' <;> simp_all [chars?]
    | fault f => simp [chars?]

theorem toOption_collect (acc : Text) (pieces : List Scanned) :
    (collect acc pieces).toOption = (chars? pieces).map (acc.reverse ++ ·) := by
  induction pieces generalizing acc with
  | nil => simp [collect, chars?, Except.toOption]
  | cons piece pieces ih =>
    cases piece with
    | char c =>
      rw [collect, ih]
      cases h : chars? pieces <;> simp [chars?, h]
    | fault f => simp [collect, chars?, Except.toOption]

/-- What has begun, with one octet more. -/
def Begun.next (p : Begun) (b : UInt8) : Begun :=
  { p with seen := p.seen + 1, owed := p.owed - 1, low := 0x80, high := 0xBF, value := p.value * 0x40 + (b.toNat - 0x80) }

/-- The text of octets that all belong to characters, the first of which may have begun before them. -/
def spelt? : Option Begun → Bytes → Option Text
  | none, [] => some []
  | some _, [] => none
  | none, b :: rest =>
    match begin? b with
    | none => none
    | some (.inl c) => (spelt? none rest).map (c :: ·)
    | some (.inr p) => spelt? (some p) rest
  | some p, b :: rest =>
    if p.low ≤ b.toNat ∧ b.toNat ≤ p.high then
      if p.owed = 1 then (spelt? none rest).map (.ofNat (p.next b).value :: ·) else spelt? (some (p.next b)) rest
    else none

/-- One octet of a scan: what it settles and what it leaves begun. -/
theorem spelt?_cons (pos : Nat) (begun : Option Begun) (b : UInt8) (rest : Bytes) :
    spelt? begun (b :: rest) =
      (chars? (utf8Next pos begun b).1.reverse).bind fun t => (spelt? (utf8Next pos begun b).2 rest).map (t ++ ·) := by
  cases begun with
  | none =>
    simp only [spelt?, utf8Next, utf8First]
    rcases begin? b with _ | c | p <;> simp [chars?]
  | some p =>
    by_cases hin : p.low ≤ b.toNat ∧ b.toNat ≤ p.high
    · by_cases howed : p.owed = 1 <;> simp [spelt?, utf8Next, hin, howed, chars?, Begun.next]
    · simp [spelt?, utf8Next, hin, chars?]

theorem chars?_scanUtf8 (acc : List Scanned) (pos : Nat) (begun : Option Begun) (bytes : Bytes) :
    chars? (scanUtf8 acc pos begun bytes).reverse =
      (chars? acc.reverse).bind fun t => (spelt? begun bytes).map (t ++ ·) := by
  induction bytes generalizing acc pos begun with
  | nil => cases begun <;> simp [scanUtf8, spelt?, chars?_append, chars?]
  | cons b rest ih =>
    rw [scanUtf8, ih, spelt?_cons pos, List.reverse_append, chars?_append]
    cases chars? acc.reverse <;> cases chars? (utf8Next pos begun b).1.reverse <;>
      cases spelt? (utf8Next pos begun b).2 rest <;> simp

theorem toOption_decode_utf8 (bytes : Bytes) : (utf8.decode bytes).toOption = spelt? none bytes := by
  rw [decode, scan, toOption_collect, chars?_scanUtf8]
  simp [chars?]

/-! ## The octets of one character -/

theorem val_ofNat {n : Nat} (h : n < 0x110000) : (CodePoint.ofNat n).val = n := by
  simp [CodePoint.ofNat, h]

theorem ofNat_val (c : CodePoint) : CodePoint.ofNat c.val = c := by
  simp [CodePoint.ofNat, c.valid]

theorem encodes_utf8_iff {c : CodePoint} : utf8.encodes c = true ↔ c.val < 0xD800 ∨ 0xDFFF < c.val := by
  simp [encodes, CodePoint.isSurrogate]

/-- What an octet begins that begins a character of several. -/
theorem begin?_eq_begun_iff {a : UInt8} {p : Begun} :
    begin? a = some (.inr p) ↔
      (0xC2 ≤ a.toNat ∧ a.toNat < 0xE0 ∧ p = ⟨a, 1, 1, 0x80, 0xBF, a.toNat - 0xC0⟩) ∨
      (0xE0 ≤ a.toNat ∧ a.toNat < 0xF0 ∧
        p = ⟨a, 1, 2, if a.toNat = 0xE0 then 0xA0 else 0x80, if a.toNat = 0xED then 0x9F else 0xBF, a.toNat - 0xE0⟩) ∨
      (0xF0 ≤ a.toNat ∧ a.toNat < 0xF5 ∧
        p = ⟨a, 1, 3, if a.toNat = 0xF0 then 0x90 else 0x80, if a.toNat = 0xF4 then 0x8F else 0xBF, a.toNat - 0xF0⟩) := by
  unfold begin?
  grind

theorem begin?_eq_char_iff {a : UInt8} {c : CodePoint} :
    begin? a = some (.inl c) ↔ a.toNat < 0x80 ∧ c = .ofNat a.toNat := by
  unfold begin?
  grind

/-- The octets that complete what has begun, and the number of the character they make. -/
inductive Completes : Begun → Bytes → Nat → Prop where
  | last {p : Begun} {b : UInt8} (owed : p.owed = 1) (fits : p.low ≤ b.toNat ∧ b.toNat ≤ p.high) :
    Completes p [b] (p.next b).value
  | more {p : Begun} {b : UInt8} {tail : Bytes} {n : Nat} (owed : p.owed ≠ 1)
    (fits : p.low ≤ b.toNat ∧ b.toNat ≤ p.high) (rest : Completes (p.next b) tail n) : Completes p (b :: tail) n

theorem Completes.spelt? {p : Begun} {tail : Bytes} {n : Nat} (h : Completes p tail n) (rest : Bytes) :
    spelt? (some p) (tail ++ rest) = (spelt? none rest).map (.ofNat n :: ·) := by
  induction h with
  | last owed fits => rw [List.singleton_append, Charset.spelt?, if_pos fits, if_pos owed]
  | more owed fits _ ih => rw [List.cons_append, Charset.spelt?, if_pos fits, if_neg owed, ih]

theorem exists_completes {p : Begun} {bytes : Bytes} {t : Text} (h : spelt? (some p) bytes = some t) :
    ∃ tail rest n t', bytes = tail ++ rest ∧ Completes p tail n ∧ t = .ofNat n :: t' ∧ spelt? none rest = some t' := by
  induction bytes generalizing p with
  | nil => cases h
  | cons b bytes ih =>
    rw [spelt?] at h
    split at h
    · next fits =>
      split at h
      · next owed =>
        obtain ⟨t', ht', rfl⟩ := Option.map_eq_some_iff.mp h
        exact ⟨[b], bytes, _, t', rfl, .last owed fits, rfl, ht'⟩
      · next owed =>
        obtain ⟨tail, rest, n, t', rfl, hc, rfl, ht'⟩ := ih h
        exact ⟨b :: tail, rest, n, t', rfl, .more owed fits hc, rfl, ht'⟩
    · cases h

theorem completes_last_iff {p : Begun} {tail : Bytes} {n : Nat} (owed : p.owed = 1) :
    Completes p tail n ↔
      ∃ b, tail = [b] ∧ p.low ≤ b.toNat ∧ b.toNat ≤ p.high ∧ n = p.value * 0x40 + (b.toNat - 0x80) := by
  constructor
  · intro h
    cases h with
    | last _ fits => exact ⟨_, rfl, fits.1, fits.2, rfl⟩
    | more howed => exact absurd owed howed
  · rintro ⟨b, rfl, hlow, hhigh, hn⟩
    exact hn ▸ .last owed ⟨hlow, hhigh⟩

theorem completes_more_iff {p : Begun} {tail : Bytes} {n : Nat} (owed : p.owed ≠ 1) :
    Completes p tail n ↔
      ∃ b tail', tail = b :: tail' ∧ p.low ≤ b.toNat ∧ b.toNat ≤ p.high ∧ Completes (p.next b) tail' n := by
  constructor
  · intro h
    cases h with
    | last howed => exact absurd howed owed
    | more _ fits rest => exact ⟨_, _, rfl, fits.1, fits.2, rest⟩
  · rintro ⟨b, tail', rfl, hlow, hhigh, rest⟩
    exact .more owed ⟨hlow, hhigh⟩ rest

theorem ofNat_eq {n : Nat} {b : UInt8} (h : n = b.toNat) : UInt8.ofNat n = b := by
  rw [h, UInt8.ofNat_toNat]

/-- Octets that make a character are the octets of that character. -/
theorem octetsOf_of_completes {a : UInt8} {p : Begun} {tail : Bytes} {n : Nat} (hp : begin? a = some (.inr p))
    (h : Completes p tail n) :
    utf8.encodes (.ofNat n) = true ∧ utf8.octetsOf (.ofNat n) = a :: tail := by
  rw [encodes_utf8_iff]
  rcases begin?_eq_begun_iff.mp hp with ⟨hlow, hhigh, rfl⟩ | ⟨hlow, hhigh, rfl⟩ | ⟨hlow, hhigh, rfl⟩
  · obtain ⟨b, rfl, hb, hb', hn⟩ := (completes_last_iff rfl).mp h
    simp only at hb hb' hn
    have hval : (CodePoint.ofNat n).val = n := val_ofNat (by omega)
    refine ⟨by omega, ?_⟩
    simp only [octetsOf, hval]
    rw [if_neg (by omega), if_pos (by omega), ofNat_eq (b := a) (by omega), ofNat_eq (b := b) (by omega)]
  · obtain ⟨b, _, rfl, hb, hb', h⟩ := (completes_more_iff (by simp)).mp h
    obtain ⟨c, rfl, hc, hc', hn⟩ := (completes_last_iff rfl).mp h
    simp only [Begun.next] at hb hb' hc hc' hn
    have hfirst : (a.toNat = 0xE0 → 0xA0 ≤ b.toNat) ∧ 0x80 ≤ b.toNat := by split at hb <;> omega
    have hpast : (a.toNat = 0xED → b.toNat ≤ 0x9F) ∧ b.toNat ≤ 0xBF := by split at hb' <;> omega
    clear hb hb'
    have hval : (CodePoint.ofNat n).val = n := val_ofNat (by omega)
    refine ⟨by omega, ?_⟩
    simp only [octetsOf, hval]
    rw [if_neg (by omega), if_neg (by omega), if_pos (by omega), ofNat_eq (b := a) (by omega), ofNat_eq (b := b) (by omega),
      ofNat_eq (b := c) (by omega)]
  · obtain ⟨b, _, rfl, hb, hb', h⟩ := (completes_more_iff (by simp)).mp h
    obtain ⟨c, _, rfl, hc, hc', h⟩ := (completes_more_iff (by simp [Begun.next])).mp h
    obtain ⟨d, rfl, hd, hd', hn⟩ := (completes_last_iff rfl).mp h
    simp only [Begun.next] at hb hb' hc hc' hd hd' hn
    have hfirst : (a.toNat = 0xF0 → 0x90 ≤ b.toNat) ∧ 0x80 ≤ b.toNat := by split at hb <;> omega
    have hpast : (a.toNat = 0xF4 → b.toNat ≤ 0x8F) ∧ b.toNat ≤ 0xBF := by split at hb' <;> omega
    clear hb hb'
    have hval : (CodePoint.ofNat n).val = n := val_ofNat (by omega)
    refine ⟨by omega, ?_⟩
    simp only [octetsOf, hval]
    rw [if_neg (by omega), if_neg (by omega), if_neg (by omega), ofNat_eq (b := a) (by omega), ofNat_eq (b := b) (by omega),
      ofNat_eq (b := c) (by omega), ofNat_eq (b := d) (by omega)]

theorem toNat_ofNat {n : Nat} (h : n < 0x100) : (UInt8.ofNat n).toNat = n := by
  simp [Nat.mod_eq_of_lt h]

/-- The octets of a character past ASCII make it. -/
theorem completes_octetsOf {c : CodePoint} (h : utf8.encodes c = true) (hc : 0x80 ≤ c.val) :
    ∃ a p tail, utf8.octetsOf c = a :: tail ∧ begin? a = some (.inr p) ∧ Completes p tail c.val := by
  obtain ⟨n, hn⟩ := c
  rw [encodes_utf8_iff] at h
  simp only [octetsOf] at h hc ⊢
  rw [if_neg (by omega)]
  by_cases h2 : n < 0x800
  · rw [if_pos h2]
    have ha := toNat_ofNat (n := 0xC0 + n / 0x40) (by omega)
    have hb := toNat_ofNat (n := 0x80 + n % 0x40) (by omega)
    refine ⟨_, _, _, rfl, begin?_eq_begun_iff.mpr (.inl ⟨by omega, by omega, rfl⟩), ?_⟩
    refine (completes_last_iff rfl).mpr ⟨_, rfl, ?_⟩
    dsimp only
    omega
  rw [if_neg h2]
  by_cases h3 : n < 0x10000
  · rw [if_pos h3]
    have ha := toNat_ofNat (n := 0xE0 + n / 0x1000) (by omega)
    have hb := toNat_ofNat (n := 0x80 + n / 0x40 % 0x40) (by omega)
    have hc := toNat_ofNat (n := 0x80 + n % 0x40) (by omega)
    refine ⟨_, _, _, rfl, begin?_eq_begun_iff.mpr (.inr (.inl ⟨by omega, by omega, rfl⟩)), ?_⟩
    refine (completes_more_iff (by simp)).mpr ⟨_, _, rfl, ?_, ?_, (completes_last_iff rfl).mpr ⟨_, rfl, ?_⟩⟩
    · dsimp only; split <;> omega
    · dsimp only; split <;> omega
    · dsimp only [Begun.next]; omega
  · rw [if_neg h3]
    have ha := toNat_ofNat (n := 0xF0 + n / 0x40000) (by omega)
    have hb := toNat_ofNat (n := 0x80 + n / 0x1000 % 0x40) (by omega)
    have hc := toNat_ofNat (n := 0x80 + n / 0x40 % 0x40) (by omega)
    have hd := toNat_ofNat (n := 0x80 + n % 0x40) (by omega)
    refine ⟨_, _, _, rfl, begin?_eq_begun_iff.mpr (.inr (.inr ⟨by omega, by omega, rfl⟩)), ?_⟩
    refine (completes_more_iff (by simp)).mpr ⟨_, _, rfl, ?_, ?_, (completes_more_iff (by simp [Begun.next])).mpr
      ⟨_, _, rfl, ?_, ?_, (completes_last_iff rfl).mpr ⟨_, rfl, ?_⟩⟩⟩
    · dsimp only; split <;> omega
    · dsimp only; split <;> omega
    · dsimp only [Begun.next]; omega
    · dsimp only [Begun.next]; omega
    · dsimp only [Begun.next]; omega

/-! ## Whole texts -/

/-- A character is read from its own octets. -/
theorem spelt?_octetsOf {c : CodePoint} (h : utf8.encodes c = true) (rest : Bytes) :
    spelt? none (utf8.octetsOf c ++ rest) = (spelt? none rest).map (c :: ·) := by
  by_cases hc : c.val < 0x80
  · have hn := toNat_ofNat (n := c.val) (by omega)
    have hb : begin? (.ofNat c.val) = some (.inl c) :=
      begin?_eq_char_iff.mpr ⟨by omega, by rw [hn, ofNat_val]⟩
    simp only [octetsOf, hc, if_true, List.singleton_append, spelt?, hb]
  · obtain ⟨a, p, tail, ho, hp, hcompl⟩ := completes_octetsOf h (by omega)
    rw [ho, List.cons_append, spelt?]
    simp only [hp]
    rw [hcompl.spelt?, ofNat_val]

/-- What is read first is a character's own octets. -/
theorem exists_octetsOf_of_spelt? {b : UInt8} {bytes : Bytes} {t : Text} (h : spelt? none (b :: bytes) = some t) :
    ∃ c rest t', utf8.encodes c = true ∧ b :: bytes = utf8.octetsOf c ++ rest ∧ t = c :: t' ∧
      spelt? none rest = some t' := by
  rw [spelt?] at h
  split at h
  · cases h
  · next c hc =>
    obtain ⟨hb, rfl⟩ := begin?_eq_char_iff.mp hc
    obtain ⟨t', ht', rfl⟩ := Option.map_eq_some_iff.mp h
    have hval : (CodePoint.ofNat b.toNat).val = b.toNat := val_ofNat (by omega)
    refine ⟨_, bytes, t', encodes_utf8_iff.mpr (by omega), ?_, rfl, ht'⟩
    simp only [octetsOf, hval, hb, if_true, UInt8.ofNat_toNat, List.singleton_append]
  · next p hp =>
    obtain ⟨tail, rest, n, t', rfl, hcompl, rfl, ht'⟩ := exists_completes h
    obtain ⟨henc, hoct⟩ := octetsOf_of_completes hp hcompl
    exact ⟨_, rest, t', henc, by rw [hoct, List.cons_append], rfl, ht'⟩

theorem spelt?_flatMap {t : Text} (h : t.all utf8.encodes = true) : spelt? none (t.flatMap utf8.octetsOf) = some t := by
  induction t with
  | nil => rfl
  | cons c t ih =>
    simp only [List.all_cons, Bool.and_eq_true] at h
    rw [List.flatMap_cons, spelt?_octetsOf h.1, ih h.2, Option.map_some]

theorem eq_flatMap_of_spelt? {bytes : Bytes} {t : Text} (h : spelt? none bytes = some t) :
    t.all utf8.encodes = true ∧ bytes = t.flatMap utf8.octetsOf := by
  induction t generalizing bytes with
  | nil =>
    cases bytes with
    | nil => exact ⟨rfl, rfl⟩
    | cons b bytes =>
      obtain ⟨c, rest, t', -, -, ht, -⟩ := exists_octetsOf_of_spelt? h
      cases ht
  | cons c t ih =>
    cases bytes with
    | nil => cases h
    | cons b bytes =>
      obtain ⟨c', rest, t', henc, hb, ht, hrest⟩ := exists_octetsOf_of_spelt? h
      cases ht
      obtain ⟨hall, rfl⟩ := ih hrest
      exact ⟨by simp [henc, hall], hb⟩

theorem encode_eq_ok_iff {charset : Charset} {t : Text} {bytes : Bytes} :
    charset.encode t = .ok bytes ↔ t.all charset.encodes = true ∧ bytes = t.flatMap charset.octetsOf := by
  unfold encode
  split
  · next h => simp only [Except.ok.injEq, h, true_and, eq_comm]
  · next h => simp [h]

/-- **Octets decode to a text exactly when the text encodes to them.** -/
theorem decode_utf8_eq_ok_iff {bytes : Bytes} {t : Text} :
    utf8.decode bytes = .ok t ↔ utf8.encode t = .ok bytes := by
  have hspelt : utf8.decode bytes = .ok t ↔ spelt? none bytes = some t := by
    rw [← toOption_decode_utf8]
    cases utf8.decode bytes <;> simp [Except.toOption]
  rw [hspelt, encode_eq_ok_iff]
  exact ⟨eq_flatMap_of_spelt?, fun ⟨hall, hb⟩ => hb ▸ spelt?_flatMap hall⟩

end Charset

end DiagnosticsClient
