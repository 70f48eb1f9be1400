import DiagnosticsClient.Frame.Basic
import DiagnosticsClient.Log
/-
The decoder of a stream that arrives in chunks.

It keeps the octets that are not a frame yet. After a fault nothing of the
buffer can be trusted, so all of it is dropped and the fault is noted; the
messages before the fault are given out all the same.
-/
namespace DiagnosticsClient

/-- A decoder and the octets it waits to complete. -/
structure Decoder where
  encoding : Text := lit "utf-8"
  verbose : Bool := false
  buffer : Bytes := []

namespace Decoder

/-- The number of octets not decoded yet. -/
def pending (d : Decoder) : Nat := d.buffer.length

/-- What a chunk gives: the messages it completed or a refusal, and the note of a fault. -/
structure Fed where
  decoder : Decoder
  messages : Except Refusal (List Json)
  notes : List Note

/-- The note of a fault after which `dropped` octets are given up. -/
def faultNote (d : Decoder) (dropped : Nat) (fault : FrameFault) : Note :=
  ⟨if d.verbose then .warning else .debug,
   lit "Dropping " ++ Text.ofNat dropped ++ lit " bytes of server output: " ++ fault.message⟩

/-- Takes a chunk. -/
def feed (d : Decoder) (chunk : Bytes) : Fed :=
  let buffer := d.buffer ++ chunk
  match decode d.encoding buffer with
  | .error r => ⟨{ d with buffer }, .error r, []⟩
  | .ok found =>
    match found.fault with
    | some fault =>
      ⟨{ d with buffer := [] }, .ok found.messages, [d.faultNote (buffer.length - found.consumed) fault]⟩
    | none => ⟨{ d with buffer := buffer.drop found.consumed }, .ok found.messages, []⟩

end Decoder

end DiagnosticsClient
