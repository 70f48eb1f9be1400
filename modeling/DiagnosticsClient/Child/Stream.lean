import DiagnosticsClient.Async.Machine
import DiagnosticsClient.Failure
/-
The reading end of a pipe.

Octets wait in a buffer until they are read. A stream may end, after which
nothing is added, or break, after which every reading fails with what broke
it. At most one reader waits; whatever happens to the stream wakes it.
-/
namespace DiagnosticsClient

/-- A stream of octets. -/
structure Stream where
  buffer : Bytes := []
  ended : Bool := false
  broken : Option SystemError := none
  /-- What the reader waits for, while one does. -/
  waiter : Option Async.FutureId := none

namespace Stream

/-- The most octets one reading takes. -/
def chunkLimit : Nat := 65536

/-- The most octets a line may have before its line feed. -/
def lineLimit : Nat := 65536

/-- What there is to read. -/
inductive Readable where
  /-- These octets; none at the end of the stream. -/
  | octets (taken : Bytes) (rest : Bytes)
  | nothingYet
  | failed (failure : Failure)

/-- What a reading of whatever is there gives. -/
def readChunk (s : Stream) : Readable :=
  match s.broken with
  | some e => .failed (.system e)
  | none =>
    if s.buffer = [] && !s.ended then .nothingYet
    else .octets (s.buffer.take chunkLimit) (s.buffer.drop chunkLimit)

/-- What a reading of a line gives: the line with its line feed, or all that is left at the end of the stream. -/
def readLine (s : Stream) : Readable :=
  match s.broken with
  | some e => .failed (.system e)
  | none =>
    let line := s.buffer.takeWhile (· ≠ 10)
    match s.buffer.dropWhile (· ≠ 10) with
    | feed :: rest => if lineLimit < line.length then .failed .lineTooLong else .octets (line ++ [feed]) rest
    | [] =>
      if lineLimit < line.length then .failed .lineTooLong
      else if s.ended then .octets line []
      else .nothingYet

end Stream

end DiagnosticsClient
