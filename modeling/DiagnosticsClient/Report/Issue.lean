import DiagnosticsClient.Digest.MD5
import DiagnosticsClient.File.Path
import DiagnosticsClient.Json.Printer
import DiagnosticsClient.Report.Record
import DiagnosticsClient.Failure
/-
The report as a list of issues.

Each diagnostic is an issue with a severity, a place relative to the project's
directory and a fingerprint. Fingerprints are digests of the path, the code
and the message. A digest that is taken already is added to what is digested,
until the digest is a new one.
-/
namespace DiagnosticsClient

/-- A digest of octets. -/
abbrev Hash := Bytes → Text

/-- An issue. -/
structure Issue where
  checkName : Text
  description : Text
  category : Text
  severity : Text
  fingerprint : Text
  path : Text
  start : Int × Int
  stop : Int × Int
deriving DecidableEq

namespace Issue

/-- The name of the check that a diagnostic comes from; a code of zero names none. -/
def nameOf (d : Diagnostic) : Text :=
  match d.code with
  | none => []
  | some n => if n = 0 then [] else lit "TS" ++ Text.ofInt n

def categoryOf (d : Diagnostic) : Text := if d.isError then lit "Bug Risk" else lit "Clarity"

def severityOf (d : Diagnostic) : Text :=
  if d.isError then lit "major"
  else if d.category = lit "warning" then lit "minor"
  else lit "info"

/-! ## Fingerprints -/

/-- The octets that tell a diagnostic of a file from others. -/
def identity (path : Text) (d : Diagnostic) : Except EncodeFault Bytes := do
  let path ← Charset.utf8.encode path
  let text ← Charset.utf8.encode d.text
  .ok (path ++ (nameOf d).flatMap Charset.utf8.octetsOf ++ text)

/-- The first digest that is not taken, of octets and then of the octets with the digests before added. Each digest tried
in vain is one of those taken, so `fuel` counts these. -/
def freshDigest (hash : Hash) (taken : List Text) : (fuel : Nat) → Bytes → Text
  | 0, octets => hash octets
  | fuel + 1, octets =>
    let digest := hash octets
    if taken.contains digest then freshDigest hash taken fuel (octets ++ digest.flatMap Charset.utf8.octetsOf)
    else digest

/-- The fingerprint of a diagnostic among those taken. -/
def freshFingerprint (hash : Hash) (path : Text) (d : Diagnostic) (taken : List Text) : Except EncodeFault Text := do
  .ok (freshDigest hash taken taken.length (← identity path d))

/-- The issue of a diagnostic. -/
def ofDiagnostic (path fingerprint : Text) (d : Diagnostic) : Issue :=
  { checkName := nameOf d, description := d.text, category := categoryOf d, severity := severityOf d, fingerprint, path
    start := (d.start.line, d.start.offset), stop := (d.stop.line, d.stop.offset) }

/-- The issues of a file's diagnostics, and the fingerprints taken after them, the last one first. -/
def ofDiagnostics (hash : Hash) (path : Text) : (taken : List Text) → List Diagnostic →
    Except EncodeFault (List Issue × List Text)
  | taken, [] => .ok ([], taken)
  | taken, d :: ds => do
    let digest ← freshFingerprint hash path d taken
    let (issues, taken) ← ofDiagnostics hash path (digest :: taken) ds
    .ok (ofDiagnostic path digest d :: issues, taken)

/-- The issues of records, with paths relative to a directory. -/
def ofRecords (hash : Hash) (workingDirectory directory : Text) : (taken : List Text) → List Record →
    Except Failure (List Issue)
  | _, [] => .ok []
  | taken, r :: rs => do
    if r.file = [] then .error .noPath
    let path := Path.relative workingDirectory directory r.file
    let (issues, taken) ← (ofDiagnostics hash path taken r.diagnostics).mapError fun f => .encode (.unencodable f)
    return issues ++ (← ofRecords hash workingDirectory directory taken rs)

/-! ## Writing -/

/-- A line and a column. -/
def positionJson (p : Int × Int) : Json := .obj [(lit "line", .int p.1), (lit "column", .int p.2)]

def toJson (i : Issue) : Json :=
  .obj [(lit "type", .str (lit "issue")), (lit "check_name", .str i.checkName), (lit "description", .str i.description),
    (lit "categories", .arr [.str i.category]), (lit "severity", .str i.severity),
    (lit "fingerprint", .str i.fingerprint),
    (lit "location", .obj [(lit "path", .str i.path),
      (lit "positions", .obj [(lit "begin", positionJson i.start), (lit "end", positionJson i.stop)])])]

/-- Whether each number of an issue is within the limit of digits. -/
def isSpelt (i : Issue) : Bool :=
  [i.start.1, i.start.2, i.stop.1, i.stop.2].all fun n => (Text.ofNat n.natAbs).length ≤ Text.digitLimit

/-- The text of a list of issues, if their numbers have one. -/
def listing (issues : List Issue) : Except ExtentFault Text :=
  if issues.all isSpelt then .ok ((Json.arr (issues.map toJson)).render Json.plainNumbers Json.Layout.indented)
  else .error .tooManyDigits

end Issue

end DiagnosticsClient
