import DiagnosticsClient.Text.Basic
/-
Character encodings, in both directions.

Decoding is one scan over the octets that says, piece by piece, what they
hold: a code point, or a fault with its place and its cause. Strict decoding
stops at the first fault; lenient decoding puts a replacement character for
each. A fault covers as many octets as could still have begun a character.

Encoding works code point by code point and names the first run that the
encoding has no form for.
-/
namespace DiagnosticsClient

/-- The encodings a message can be written in. -/
inductive Charset where
  | utf8
  | ascii
  | latin1
  | utf16le
deriving DecidableEq

/-- Why a run of octets holds no character. -/
inductive DecodeReason where
  | startByte
  | continuationByte
  | endOfData
  | notAscii
  | truncatedPair
  | strayLowSurrogate
  | unpairedSurrogate
deriving DecidableEq

def DecodeReason.message : DecodeReason → Text
  | .startByte => lit "invalid start byte"
  | .continuationByte => lit "invalid continuation byte"
  | .endOfData => lit "unexpected end of data"
  | .notAscii => lit "ordinal not in range(128)"
  | .truncatedPair => lit "truncated data"
  | .strayLowSurrogate => lit "illegal encoding"
  | .unpairedSurrogate => lit "illegal UTF-16 surrogate"

/-- The run of octets at `start`, `octets` in number and beginning with `first`, holds no character. -/
structure DecodeFault where
  charset : Charset
  first : UInt8
  start : Nat
  octets : Nat
  reason : DecodeReason
deriving DecidableEq

/-- What an encoding has no form for. -/
inductive EncodeReason where
  | surrogate
  | pastAscii
  | pastLatin1
deriving DecidableEq

def EncodeReason.message : EncodeReason → Text
  | .surrogate => lit "surrogates not allowed"
  | .pastAscii => lit "ordinal not in range(128)"
  | .pastLatin1 => lit "ordinal not in range(256)"

/-- The run of `count` code points at `start`, beginning with `first`, has no form. -/
structure EncodeFault where
  charset : Charset
  first : CodePoint
  start : Nat
  count : Nat
deriving DecidableEq

/-- Why a name is not looked up, or not found, among those of the encodings. -/
inductive NameFault where
  | unknown (name : Text)
  /-- A name that UTF-8 has no form for. -/
  | unencodable (fault : EncodeFault)
  /-- A name that holds the character that ends one. -/
  | nul
deriving DecidableEq

/-- One piece of a scan. -/
inductive Scanned where
  | char (c : CodePoint)
  | fault (f : DecodeFault)

namespace Charset

/-- The name messages call an encoding by. -/
def label : Charset → Text
  | .utf8 => lit "utf-8"
  | .ascii => lit "ascii"
  | .latin1 => lit "latin-1"
  | .utf16le => lit "utf-16-le"

/-- A name with its ASCII capitals small and every run of other signs than letters, digits and points one underscore. -/
def normalName (name : Text) : Text :=
  (name.foldl step ([], false)).1.reverse
where
  isNameSign (c : CodePoint) : Bool :=
    c.isDigit || (0x61 ≤ c.val && c.val ≤ 0x7A) || (0x41 ≤ c.val && c.val ≤ 0x5A) || c == pt '.'
  step : Text × Bool → CodePoint → Text × Bool
    | (acc, gap), c =>
      if isNameSign c then
        ((if gap && !acc.isEmpty then c.toAsciiLower :: pt '_' :: acc else c.toAsciiLower :: acc), false)
      else (acc, true)

/-- The normal name of an encoding. -/
def ownName : Charset → Text
  | .utf8 => lit "utf_8"
  | .ascii => lit "ascii"
  | .latin1 => lit "latin_1"
  | .utf16le => lit "utf_16_le"

/-- The other normal names an encoding goes by. -/
def otherNames : Charset → List Text
  | .utf8 => ["utf8", "u8", "utf", "cp65001", "utf8_ucs2", "utf8_ucs4"].map lit
  | .ascii =>
    ["us_ascii", "646", "us", "ansi_x3.4_1968", "ansi_x3_4_1968", "ansi_x3.4_1986", "cp367", "csascii", "ibm367",
     "iso646_us", "iso_646.irv_1991", "iso_ir_6"].map lit
  | .latin1 =>
    ["latin1", "latin", "l1", "iso_8859_1", "iso8859_1", "iso8859", "8859", "cp819", "csisolatin1", "ibm819",
     "iso_8859_1_1987", "iso_ir_100"].map lit
  | .utf16le => ["utf_16le", "unicodelittleunmarked"].map lit

/-- Whether an encoding goes by a normal name. In its other names a point may stand for an underscore. -/
def goesBy (charset : Charset) (normal : Text) : Bool :=
  let pointless := normal.map fun c => if c = pt '.' then pt '_' else c
  normal == charset.ownName || charset.otherNames.contains normal || charset.otherNames.contains pointless

/-- All the encodings. -/
def all : List Charset := [.utf8, .ascii, .latin1, .utf16le]

/-- The encoding of a name, whatever its capitals and its separators. -/
def named? (name : Text) : Option Charset := all.find? fun charset => charset.goesBy (normalName name)

/-! ## Encoding -/

/-- Whether an encoding has a form for a code point. -/
def encodes : Charset → CodePoint → Bool
  | .utf8, c => !c.isSurrogate
  | .ascii, c => c.val < 0x80
  | .latin1, c => c.val < 0x100
  | .utf16le, c => !c.isSurrogate

/-- The octets of one code point that the encoding has a form for. -/
def octetsOf : Charset → CodePoint → Bytes
  | .utf8, c =>
    let n := c.val
    if n < 0x80 then [.ofNat n]
    else if n < 0x800 then [.ofNat (0xC0 + n / 0x40), .ofNat (0x80 + n % 0x40)]
    else if n < 0x10000 then
      [.ofNat (0xE0 + n / 0x1000), .ofNat (0x80 + n / 0x40 % 0x40), .ofNat (0x80 + n % 0x40)]
    else
      [.ofNat (0xF0 + n / 0x40000), .ofNat (0x80 + n / 0x1000 % 0x40), .ofNat (0x80 + n / 0x40 % 0x40),
       .ofNat (0x80 + n % 0x40)]
  | .ascii, c => [.ofNat c.val]
  | .latin1, c => [.ofNat c.val]
  | .utf16le, c =>
    let unit (n : Nat) : Bytes := [.ofNat (n % 0x100), .ofNat (n / 0x100)]
    if c.val < 0x10000 then unit c.val
    else unit (0xD800 + (c.val - 0x10000) / 0x400) ++ unit (0xDC00 + (c.val - 0x10000) % 0x400)

/-- The first run of a text without a form. UTF-16 reports its surrogates one at a time. -/
def faultIn (charset : Charset) (t : Text) : EncodeFault :=
  let bad := t.dropWhile charset.encodes
  { charset
    first := bad.headD default
    start := (t.takeWhile charset.encodes).length
    count := match charset with
      | .utf16le => 1
      | _ => (bad.takeWhile fun c => !charset.encodes c).length }

/-- The octets of a text, if the encoding has a form for all of it. -/
def encode (charset : Charset) (t : Text) : Except EncodeFault Bytes :=
  if t.all charset.encodes then .ok (t.flatMap charset.octetsOf) else .error (charset.faultIn t)

/-- A name that can be looked up: UTF-8 has a form for it, and nothing in it ends it early. -/
def checkName (name : Text) : Except NameFault Unit :=
  match utf8.encode name with
  | .error fault => .error (.unencodable fault)
  | .ok octets => if octets.contains 0 then .error .nul else .ok ()

/-- The encoding a name is looked up as. -/
def lookup (name : Text) : Except NameFault Charset := do
  checkName name
  match named? name with
  | some charset => return charset
  | none => throw (.unknown name)

/-! ## Decoding -/

/-- A UTF-8 character begun and not finished: its first octet and number so far, how many octets are owed, and the
range of the next one. -/
structure Begun where
  first : UInt8
  seen : Nat
  owed : Nat
  low : Nat
  high : Nat
  value : Nat

/-- What a first octet of UTF-8 begins: nothing, a whole character, or a longer one. -/
def begin? (b : UInt8) : Option (CodePoint ⊕ Begun) :=
  let n := b.toNat
  let begun (owed low high value : Nat) : Option (CodePoint ⊕ Begun) :=
    some (.inr { first := b, seen := 1, owed, low, high, value })
  if n < 0x80 then some (.inl (.ofNat n))
  else if n < 0xC2 then none
  else if n < 0xE0 then begun 1 0x80 0xBF (n - 0xC0)
  else if n = 0xE0 then begun 2 0xA0 0xBF 0
  else if n = 0xED then begun 2 0x80 0x9F 0xD
  else if n < 0xF0 then begun 2 0x80 0xBF (n - 0xE0)
  else if n = 0xF0 then begun 3 0x90 0xBF 0
  else if n < 0xF4 then begun 3 0x80 0xBF (n - 0xF0)
  else if n = 0xF4 then begun 3 0x80 0x8F 4
  else none

/-- An octet between characters: what it settles, last piece first, and what it leaves begun. -/
def utf8First (pos : Nat) (b : UInt8) : List Scanned × Option Begun :=
  match begin? b with
  | none => ([.fault ⟨.utf8, b, pos, 1, .startByte⟩], none)
  | some (.inl c) => ([.char c], none)
  | some (.inr begun) => ([], some begun)

/-- The octet at `pos`, inside a character or between two. One that cannot go on with the character ends it with a
fault and starts afresh. -/
def utf8Next (pos : Nat) : Option Begun → UInt8 → List Scanned × Option Begun
  | none, b => utf8First pos b
  | some p, b =>
    if p.low ≤ b.toNat && b.toNat ≤ p.high then
      let value := p.value * 0x40 + (b.toNat - 0x80)
      if p.owed = 1 then ([.char (.ofNat value)], none)
      else ([], some { p with seen := p.seen + 1, owed := p.owed - 1, low := 0x80, high := 0xBF, value })
    else
      let (pieces, begun) := utf8First pos b
      (pieces ++ [.fault ⟨.utf8, p.first, pos - p.seen, p.seen, .continuationByte⟩], begun)

/-- The scan of UTF-8, last piece first, from the octet at `pos`. -/
def scanUtf8 (acc : List Scanned) (pos : Nat) : Option Begun → Bytes → List Scanned
  | none, [] => acc
  | some p, [] => .fault ⟨.utf8, p.first, pos - p.seen, p.seen, .endOfData⟩ :: acc
  | begun, b :: rest =>
    let (pieces, begun) := utf8Next pos begun b
    scanUtf8 (pieces ++ acc) (pos + 1) begun rest

/-- The scan of ASCII, last piece first. -/
def scanAscii (acc : List Scanned) (pos : Nat) : Bytes → List Scanned
  | [] => acc
  | b :: rest =>
    let piece : Scanned :=
      if b.toNat < 0x80 then .char (.ofNat b.toNat) else .fault ⟨.ascii, b, pos, 1, .notAscii⟩
    scanAscii (piece :: acc) (pos + 1) rest

/-- The scan of UTF-16 in little-endian octets, last piece first. -/
def scanUtf16 (acc : List Scanned) (pos : Nat) : Bytes → List Scanned
  | [] => acc
  | [b] => .fault ⟨.utf16le, b, pos, 1, .truncatedPair⟩ :: acc
  | a :: b :: rest =>
    let unit := CodePoint.ofNat (a.toNat + 0x100 * b.toNat)
    if unit.isLowSurrogate then
      scanUtf16 (.fault ⟨.utf16le, a, pos, 2, .strayLowSurrogate⟩ :: acc) (pos + 2) rest
    else if unit.isHighSurrogate then
      match rest with
      | [] => .fault ⟨.utf16le, a, pos, 2, .endOfData⟩ :: acc
      | [_] => .fault ⟨.utf16le, a, pos, 3, .endOfData⟩ :: acc
      | a' :: b' :: rest' =>
        let next := CodePoint.ofNat (a'.toNat + 0x100 * b'.toNat)
        if next.isLowSurrogate then
          scanUtf16 (.char (.ofSurrogates unit next) :: acc) (pos + 4) rest'
        else
          scanUtf16 (.fault ⟨.utf16le, a, pos, 2, .unpairedSurrogate⟩ :: acc) (pos + 2) (a' :: b' :: rest')
    else scanUtf16 (.char unit :: acc) (pos + 2) rest
termination_by bytes => bytes.length

/-- The pieces a run of octets holds, in order. -/
def scan : Charset → Bytes → List Scanned
  | .utf8, bytes => (scanUtf8 [] 0 none bytes).reverse
  | .ascii, bytes => (scanAscii [] 0 bytes).reverse
  | .latin1, bytes => bytes.map fun b => .char (.ofNat b.toNat)
  | .utf16le, bytes => (scanUtf16 [] 0 bytes).reverse

/-- The code points of a scan without faults, or its first fault. -/
def collect (acc : Text) : List Scanned → Except DecodeFault Text
  | [] => .ok acc.reverse
  | .char c :: rest => collect (c :: acc) rest
  | .fault f :: _ => .error f

/-- The text of a run of octets, or the first fault in it. -/
def decode (charset : Charset) (bytes : Bytes) : Except DecodeFault Text :=
  collect [] (charset.scan bytes)

/-- The text of a run of octets, with a replacement character for each fault. -/
def decodeLossy (charset : Charset) (bytes : Bytes) : Text :=
  (charset.scan bytes).map fun
    | .char c => c
    | .fault _ => .ofNat 0xFFFD

end Charset

/-- The report of octets that hold no character. -/
def DecodeFault.message (f : DecodeFault) : Text :=
  lit "'" ++ f.charset.label ++ lit "' codec can't decode " ++
    (if f.octets = 1 then
      lit "byte 0x" ++ Text.hex 2 f.first.toNat ++ lit " in position " ++ Text.ofNat f.start
    else
      lit "bytes in position " ++ Text.ofNat f.start ++ lit "-" ++ Text.ofNat (f.start + f.octets - 1)) ++
    lit ": " ++ f.reason.message

/-- Why the encoding of a fault has no form for it. -/
def EncodeFault.reason (f : EncodeFault) : EncodeReason :=
  match f.charset with
  | .utf8 | .utf16le => .surrogate
  | .ascii => .pastAscii
  | .latin1 => .pastLatin1

/-- The report of code points without a form. -/
def EncodeFault.message (f : EncodeFault) : Text :=
  lit "'" ++ f.charset.label ++ lit "' codec can't encode " ++
    (if f.count = 1 then
      lit "character '" ++ f.first.escaped ++ lit "' in position " ++ Text.ofNat f.start
    else
      lit "characters in position " ++ Text.ofNat f.start ++ lit "-" ++ Text.ofNat (f.start + f.count - 1)) ++
    lit ": " ++ f.reason.message

/-- The report of a name that is no encoding's. -/
def NameFault.message : NameFault → Text
  | .unknown name => lit "unknown encoding: " ++ name
  | .unencodable f => f.message
  | .nul => lit "embedded null character"

end DiagnosticsClient
