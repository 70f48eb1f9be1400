import DiagnosticsClient.Json.Reader
import DiagnosticsClient.Text.Charset
/-
Inbound frames: a header that gives the length of a body, and the body.

A header is `Content-Length: `, decimal digits, and two line ends, each with or
without a carriage return. `Header.read` tells a whole header from octets that
may still grow into one and from octets that never can. `readFrame` reads one
frame from the front of a buffer, and `decode` as many as are there: what it
leaves is either unfinished or at fault.
-/
namespace DiagnosticsClient

/-- What keeps a body from being a value: its octets, or the text they spell. -/
inductive BodyFault where
  | undecodable (fault : DecodeFault)
  | malformed (fault : Json.SyntaxFault)
deriving DecidableEq

def BodyFault.message : BodyFault → Text
  | .undecodable f => f.message
  | .malformed f => f.message

/-- What keeps octets from being a frame. -/
inductive FrameComplaint where
  | header
  | body (fault : BodyFault)
deriving DecidableEq

/-- A place in a buffer from which no frame can be read. -/
structure FrameFault where
  complaint : FrameComplaint
  offset : Nat
deriving DecidableEq

def FrameFault.message (f : FrameFault) : Text :=
  (match f.complaint with
    | .header => lit "Invalid header"
    | .body cause => lit "Invalid message body (" ++ cause.message ++ lit ")") ++
    lit " at byte " ++ Text.ofNat f.offset

/-- What ends a decoding without an answer. -/
inductive Refusal where
  | integerTooLong (digits : Nat)
  | tooDeep (container : Json.Container)
  | encoding (fault : NameFault)
deriving DecidableEq

def Refusal.message : Refusal → Text
  | .integerTooLong digits =>
    lit "Exceeds the limit (" ++ Text.ofNat Text.digitLimit ++
      lit " digits) for integer string conversion: value has " ++ Text.ofNat digits ++
      lit " digits; use sys.set_int_max_str_digits() to increase the limit"
  | .tooDeep container =>
    lit "maximum recursion depth exceeded while decoding a JSON " ++
      (match container with | .array => lit "array" | .object => lit "object") ++
      lit " from a unicode string"
  | .encoding f => f.message

/-! ## Headers -/

namespace Header

def carriageReturn : UInt8 := 13

def lineFeed : UInt8 := 10

/-- How every header begins. -/
def name : Bytes := asciiBytes "Content-Length: "

def isDigit (b : UInt8) : Bool := 48 ≤ b.toNat && b.toNat ≤ 57

/-- The number a run of digits spells. -/
def number (digits : Bytes) : Nat := digits.foldl (fun n b => n * 10 + (b.toNat - 48)) 0

/-- A line end, with or without a carriage return: how many octets it has, and what follows it. -/
def lineEnd? : Bytes → Option (Nat × Bytes)
  | [] => none
  | b :: rest =>
    if b = lineFeed then some (1, rest)
    else if b = carriageReturn then
      match rest with
      | [] => none
      | b' :: rest' => if b' = lineFeed then some (2, rest') else none
    else none

/-- A whole header: the digits it gives, how many octets it has, and what follows it. -/
structure Whole where
  digits : Bytes
  size : Nat
  rest : Bytes

/-- The whole header at the front of a buffer. -/
def whole? (buffer : Bytes) : Option Whole :=
  if name.isPrefixOf buffer then
    let tail := buffer.drop name.length
    let digits := tail.takeWhile isDigit
    if digits = [] then none
    else
      match lineEnd? (tail.dropWhile isDigit) with
      | none => none
      | some (first, rest) =>
        match lineEnd? rest with
        | none => none
        | some (second, rest) => some { digits, size := name.length + digits.length + first + second, rest }
  else none

/-- What the two line ends of a header can begin with. -/
def lineEndStarts : List Bytes :=
  [[], [carriageReturn], [lineFeed], [carriageReturn, lineFeed], [lineFeed, carriageReturn],
   [carriageReturn, lineFeed, carriageReturn]]

/-- Whether a buffer without a whole header may still grow into one. -/
def mayGrow (buffer : Bytes) : Bool :=
  if buffer.length ≤ name.length then buffer.isPrefixOf name
  else
    let tail := buffer.drop name.length
    name.isPrefixOf buffer && (tail.takeWhile isDigit) ≠ [] && lineEndStarts.contains (tail.dropWhile isDigit)

end Header

/-! ## Bodies -/

/-- Why a body gives no message. -/
inductive BodyError where
  | fault (fault : BodyFault)
  | refused (refusal : Refusal)
deriving DecidableEq

/-- The text of a body in a named encoding. A body without octets is empty in every encoding, known or not, if only
the name can be looked up. -/
def bodyText (encoding : Text) (body : Bytes) : Except BodyError Text :=
  if body = [] then
    match Charset.checkName encoding with
    | .error f => .error (.refused (.encoding f))
    | .ok _ => .ok []
  else
    match Charset.lookup encoding with
    | .error f => .error (.refused (.encoding f))
    | .ok charset => (charset.decode body).mapError fun f => .fault (.undecodable f)

/-- The value of a body in a named encoding. -/
def readBody (encoding : Text) (body : Bytes) : Except BodyError Json :=
  match bodyText encoding body with
  | .error e => .error e
  | .ok text =>
    match Json.parse text with
    | .ok v => .ok v
    | .error (.malformed f) => .error (.fault (.malformed f))
    | .error (.integerTooLong digits) => .error (.refused (.integerTooLong digits))
    | .error (.tooDeep container) => .error (.refused (.tooDeep container))

/-! ## Frames -/

/-- Whether there are as many octets as a body is to have. -/
def fills : (size : Nat) → Bytes → Bool
  | 0, _ => true
  | _ + 1, [] => false
  | size + 1, _ :: rest => fills size rest

/-- What stands at the front of a buffer. -/
inductive FrameRead where
  /-- A frame: its message, how many octets it has, and what follows it. -/
  | frame (message : Json) (size : Nat) (rest : Bytes)
  /-- Not yet a frame. -/
  | unfinished
  /-- Nothing that can become one; the place counts from the front of the buffer. -/
  | fault (complaint : FrameComplaint) (offset : Nat)
  | refused (refusal : Refusal)

/-- The frame at the front of a buffer. -/
def readFrame (encoding : Text) (buffer : Bytes) : FrameRead :=
  match Header.whole? buffer with
  | none => if Header.mayGrow buffer then .unfinished else .fault .header 0
  | some header =>
    if Text.digitLimit < header.digits.length then .refused (.integerTooLong header.digits.length)
    else
      let size := Header.number header.digits
      if !fills size header.rest then .unfinished
      else
        match readBody encoding (header.rest.take size) with
        | .ok message => .frame message (header.size + size) (header.rest.drop size)
        | .error (.fault f) => .fault (.body f) header.size
        | .error (.refused r) => .refused r

/-- What one pass over a buffer found: the messages of its frames, how many octets those took, and the fault that
ended the pass, if one did. -/
structure Decoded where
  messages : List Json
  consumed : Nat
  fault : Option FrameFault

/-- The frames of a buffer from an offset on; each takes an octet at least, so `fuel` counts octets. -/
def decodeFrom (encoding : Text) : (fuel offset : Nat) → (messages : List Json) → Bytes → Except Refusal Decoded
  | 0, offset, messages, _ => .ok ⟨messages.reverse, offset, none⟩
  | fuel + 1, offset, messages, buffer =>
    if buffer = [] then .ok ⟨messages.reverse, offset, none⟩
    else
      match readFrame encoding buffer with
      | .frame message size rest => decodeFrom encoding fuel (offset + size) (message :: messages) rest
      | .unfinished => .ok ⟨messages.reverse, offset, none⟩
      | .fault complaint at_ => .ok ⟨messages.reverse, offset, some ⟨complaint, offset + at_⟩⟩
      | .refused r => .error r

/-- Every whole frame at the front of a buffer. -/
def decode (encoding : Text) (buffer : Bytes) : Except Refusal Decoded :=
  decodeFrom encoding buffer.length 0 [] buffer

end DiagnosticsClient
