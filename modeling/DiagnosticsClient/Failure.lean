import DiagnosticsClient.Message.Diagnostic
import DiagnosticsClient.Number.Seconds
import DiagnosticsClient.Frame.Basic
import DiagnosticsClient.Text.Extent
/-
What can go wrong.

Each failure is a cause with the facts its message needs. `Failure.kind` names
its kind as the command line reports it, and `Failure.message` is its text.
-/
namespace DiagnosticsClient

/-- What the operating system refused: its error number and text, and the path it was about. -/
structure SystemError where
  number : Int
  text : Text
  path : Option Text := none
deriving DecidableEq

namespace SystemError

def noSuchFile (path : Text) : SystemError := ⟨2, lit "No such file or directory", some path⟩

def fileExists (path : Text) : SystemError := ⟨17, lit "File exists", some path⟩

def notADirectory (path : Text) : SystemError := ⟨20, lit "Not a directory", some path⟩

def isADirectory (path : Text) : SystemError := ⟨21, lit "Is a directory", some path⟩

def nameTooLong (path : Text) : SystemError := ⟨36, lit "File name too long", some path⟩

def tooManyLinks (path : Text) : SystemError := ⟨40, lit "Too many levels of symbolic links", some path⟩

/-- The name of the kind of an error, by its number. -/
def kind (e : SystemError) : Text :=
  match e.number with
  | 1 | 13 => lit "PermissionError"
  | 2 => lit "FileNotFoundError"
  | 3 => lit "ProcessLookupError"
  | 4 => lit "InterruptedError"
  | 10 => lit "ChildProcessError"
  | 11 | 114 | 115 => lit "BlockingIOError"
  | 17 => lit "FileExistsError"
  | 20 => lit "NotADirectoryError"
  | 21 => lit "IsADirectoryError"
  | 32 | 108 => lit "BrokenPipeError"
  | 103 => lit "ConnectionAbortedError"
  | 104 => lit "ConnectionResetError"
  | 110 => lit "TimeoutError"
  | 111 => lit "ConnectionRefusedError"
  | _ => lit "OSError"

def message (e : SystemError) : Text :=
  lit "[Errno " ++ Text.ofInt e.number ++ lit "] " ++ e.text ++
    (match e.path with
      | some path => lit ": " ++ path.quoted
      | none => [])

end SystemError

/-- The server could not be started, or failed; the return code is that of a server that exited. -/
structure ServerError where
  message : Text
  returnCode : Option Int := none
deriving DecidableEq

/-- A call made at the wrong time, or refused by the one who is called. -/
inductive Misuse where
  | alreadyOpened
  | notOpen
  | refusedBy (text : Text)
  | linkLoop (path : Text)
deriving DecidableEq

def Misuse.message : Misuse → Text
  | .alreadyOpened => lit "Subscription already opened"
  | .notOpen => lit "Subscription is not open"
  | .refusedBy text => text
  | .linkLoop path => lit "Symlink loop from " ++ path.quoted

/-- Why something was not done. -/
inductive Failure where
  | server (e : ServerError)
  /-- The server's stream ended before it answered the request. -/
  | unanswered (command : Text) (seq : Int)
  /-- A file's diagnostics did not come in time. -/
  | noDiagnostics (file : Json) (seq : Int) (limit : Seconds)
  | timedOut (message : Text)
  | misuse (m : Misuse)
  /-- Nothing more will come. -/
  | endOfStream
  | diagnostic (e : DiagnosticError)
  | encode (e : EncodeError)
  | refused (r : Refusal)
  | undecodable (f : DecodeFault)
  | system (e : SystemError)
  /-- A row of a report has no text. -/
  | extent (f : ExtentFault)
  /-- A limit of time is a whole number that is too large for the clock. -/
  | limitTooLong
  /-- A line of the server's error output is longer than the limit. -/
  | lineTooLong
  /-- A path holds the character that ends one. -/
  | nulInPath
  /-- A directory is missing, and too many of those above it. -/
  | tooManyDirectories
  /-- A path leads through too many links inside each other. -/
  | tooManyFollowed
  /-- A path is empty. -/
  | noPath
  /-- The server's script was not found. -/
  | noServer
  /-- Octets came on a stream that had ended. -/
  | streamEnded

/-- The name of the kind of a fault in a name of an encoding. -/
def NameFault.kind : NameFault → Text
  | .unknown _ => lit "LookupError"
  | .unencodable _ => lit "UnicodeEncodeError"
  | .nul => lit "ValueError"

namespace Failure

/-- The name of the kind of a failure. -/
def kind : Failure → Text
  | .server _ => lit "ServerProcessError"
  | .unanswered _ _ => lit "ServerClosedError"
  | .noDiagnostics _ _ _ => lit "DiagnosticsTimeoutError"
  | .timedOut _ => lit "TimeoutError"
  | .misuse _ => lit "RuntimeError"
  | .endOfStream => lit "StopAsyncIteration"
  | .diagnostic (.invalid _) => lit "ValidationError"
  | .diagnostic (.notSearchable _) => lit "TypeError"
  | .diagnostic (.noBody _) => lit "AttributeError"
  | .encode (.encoding f) => f.kind
  | .encode (.unencodable _) => lit "UnicodeEncodeError"
  | .encode (.unserializable _) => lit "PydanticSerializationError"
  | .refused (.integerTooLong _) => lit "ValueError"
  | .refused (.tooDeep _) => lit "RecursionError"
  | .refused (.encoding f) => f.kind
  | .undecodable _ => lit "UnicodeDecodeError"
  | .system e => e.kind
  | .extent f => f.kind
  | .limitTooLong => lit "OverflowError"
  | .lineTooLong | .nulInPath | .noPath => lit "ValueError"
  | .tooManyDirectories | .tooManyFollowed => lit "RecursionError"
  | .noServer => lit "ConfigurationError"
  | .streamEnded => lit "AssertionError"

/-- The text of a failure. -/
def message : Failure → Text
  | .server e => e.message
  | .unanswered command seq =>
    lit "tsserver closed before answering " ++ command ++ lit " (seq=" ++ Text.ofInt seq ++ lit ")"
  | .noDiagnostics file seq limit =>
    lit "No diagnostics for " ++ file.plain ++ lit " (seq=" ++ Text.ofInt seq ++ lit ") after " ++ limit.text ++ lit "s"
  | .timedOut message => message
  | .misuse m => m.message
  | .endOfStream => []
  | .diagnostic e => e.message
  | .encode e => e.message
  | .refused r => r.message
  | .undecodable f => f.message
  | .system e => e.message
  | .extent f => f.message
  | .limitTooLong => lit "int too large to convert to float"
  | .lineTooLong => lit "Separator is not found, and chunk exceed the limit"
  | .nulInPath => lit "embedded null byte"
  | .tooManyDirectories => lit "maximum recursion depth exceeded while calling a Python object"
  | .tooManyFollowed => lit "maximum recursion depth exceeded"
  | .noPath => lit "no path specified"
  | .noServer =>
    lit "Cannot find node_modules/typescript/lib/tsserver.js. Install typescript or set TS_CHECK_TSSERVER."
  | .streamEnded => lit "feed_data after feed_eof"

end Failure

end DiagnosticsClient
