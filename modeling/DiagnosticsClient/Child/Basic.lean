import DiagnosticsClient.Child.Stream
/-
Child processes as the client sees them.

A child does nothing by itself. It ends with a return code, once, and its
output ends with it. `Manner` says what a request to end does to it.
-/
namespace DiagnosticsClient

/-- What a child does when it is asked to end. -/
inductive Manner where
  | obeys
  | ignores
  /-- It ends so soon that the request does not find it. -/
  | vanishes
deriving DecidableEq

/-- What a child is sent. -/
inductive Signal where
  | terminate
  | kill
deriving DecidableEq

def Signal.name : Signal → Text
  | .terminate => lit "TERM"
  | .kill => lit "KILL"

/-- The return code of a child that a signal ended. -/
def Signal.returnCode : Signal → Int
  | .terminate => -15
  | .kill => -9

/-- How a server answers the request for the diagnostics of a file. -/
inductive Reply where
  | body (v : Json)
  | raw (octets : Bytes)
  | exit (code : Int)
  | silent

/-- A server that answers by a script. Bodies are held back until there are `batch` of them, and sent last first. -/
structure Script where
  replies : List (Text × Reply) := []
  batch : Nat := 1
  greeting : Bytes := []
  complaint : Bytes := []
  held : List Bytes := []

/-- How an attempt to launch a child goes. -/
inductive Launch where
  | refused (e : SystemError)
  | child (manner : Manner)

/-- A child that was to be launched, and how. -/
structure Launched where
  arguments : List Text
  workingDirectory : Option Text
  «variables» : List (Text × Text)

/-- A child process. -/
structure Child where
  manner : Manner := .obeys
  returnCode : Option Int := none
  inputClosed : Bool := false
  output : Stream := {}
  errors : Stream := {}
  /-- Those who wait for its end. -/
  exitWaiters : List Async.FutureId := []
  script : Option Script := none

namespace Child

/-- The number the system knows a child by. -/
def pid (index : Nat) : Nat := 1000 + index

/-- Whether a child has not ended yet. -/
def isAlive (c : Child) : Bool := c.returnCode.isNone

end Child

end DiagnosticsClient
