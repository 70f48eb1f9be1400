import DiagnosticsClient.Number.Seconds
/-
How the server is run and talked to.
-/
namespace DiagnosticsClient

/-- The settings of a server. -/
structure Settings where
  /-- The program to run and its arguments. -/
  command : List Text := []
  workingDirectory : Option Text := none
  /-- Variables set beside those of the client's own environment. -/
  «variables» : List (Text × Text) := []
  /-- The encoding of messages in both directions. -/
  encoding : Text := lit "utf-8"
  /-- Whether a fault in the server's output is a warning. -/
  verbose : Bool := false
  /-- How long a server asked to end may take before it is made to. -/
  shutdownLimit : Seconds := .real (.ofInt 5)

end DiagnosticsClient
