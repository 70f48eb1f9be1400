import DiagnosticsClient.Text.Basic
/-
What the client notes about its own doings.
-/
namespace DiagnosticsClient

/-- How much a note matters. -/
inductive Level where
  | debug
  | info
  | warning
  | error
deriving DecidableEq

def Level.name : Level → Text
  | .debug => lit "DEBUG"
  | .info => lit "INFO"
  | .warning => lit "WARNING"
  | .error => lit "ERROR"

/-- A note. -/
structure Note where
  level : Level
  text : Text
deriving DecidableEq

end DiagnosticsClient
