import DiagnosticsClient.File.Path
import DiagnosticsClient.Text.Charset
/-
The octets of a path.

A path goes to the system in UTF-8. An octet that is part of no character has
a code point of its own in a path, a low surrogate, which gives that octet
again; no other surrogate has an octet.
-/
namespace DiagnosticsClient

namespace Path

/-- The octet that a surrogate in a path stands for. -/
def strayOctet? (c : CodePoint) : Option UInt8 :=
  if 0xDC80 ≤ c.val && c.val ≤ 0xDCFF then some (.ofNat (c.val - 0xDC00)) else none

/-- Whether a code point has no octets in a path. -/
def isBroken (c : CodePoint) : Bool := c.isSurrogate && (strayOctet? c).isNone

/-- The octets of one code point that has some. -/
def octetsOf (c : CodePoint) : Bytes :=
  match strayOctet? c with
  | some octet => [octet]
  | none => Charset.utf8.octetsOf c

/-- The first run of surrogates of which one has no octets, from that one on. -/
def faultIn (path : Text) : EncodeFault :=
  let run := (path.dropWhile fun c => !isBroken c).takeWhile CodePoint.isSurrogate
  { charset := .utf8
    first := run.headD default
    start := (path.takeWhile fun c => !isBroken c).length
    count := run.length }

/-- The octets of a path, if all of it has some. -/
def octets (path : Text) : Except EncodeFault Bytes :=
  if path.any isBroken then .error (faultIn path) else .ok (path.flatMap octetsOf)

/-- A path as messages show it: an octet that is part of no character is a replacement character. -/
def shown (path : Text) : Text := Charset.utf8.decodeLossy (path.flatMap octetsOf)

end Path

end DiagnosticsClient
