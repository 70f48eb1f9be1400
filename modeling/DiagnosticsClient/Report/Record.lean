import DiagnosticsClient.Source.Fragment
/-
What a check found in a file, ready to be reported.
-/
namespace DiagnosticsClient

/-- The diagnostics of a file and the code around each of them. -/
structure Record where
  file : Text
  diagnostics : List Diagnostic
  code : List (List Text) := []
  context : Context := {}

/-- Whether a file fails the check. -/
def Record.hasErrors (r : Record) : Bool := r.diagnostics.any Diagnostic.isError

end DiagnosticsClient
