import DiagnosticsClient.Message.Envelope
/-
Diagnostics and the two spellings they come in.

A plain diagnostic has `start`, `end` and `text`; one with line positions has
`startLocation`, `endLocation` and `message`. They say the same, so they are
one type here, which remembers its spelling.
-/
namespace DiagnosticsClient

/-- A place in a source file: line and offset count from one. -/
structure Location where
  line : Int
  offset : Int
  extra : Json.Fields

/-- How a diagnostic names its fields. -/
inductive Spelling where
  | plain
  | linePosition
deriving DecidableEq

/-- What the server found in a file, and where. -/
structure Diagnostic where
  spelling : Spelling
  code : Option Int
  category : Text
  start : Location
  stop : Location
  text : Text
  extra : Json.Fields

namespace Location

def fieldNames : List Text := [lit "line", lit "offset"]

/-- A place from a value. -/
def check : Json → Checked Location
  | .obj fields =>
    let build (line offset : Int) : Location := { line, offset, extra := Json.Fields.without fields fieldNames }
    checkNamed fields (Checked.both ((required fields (lit "line") WholeNumber.check).map build)
      (required fields (lit "offset") WholeNumber.check))
  | _ => Checked.flaw (.notRecord (lit "Location"))

def dump (l : Location) : Json.Fields := [(lit "line", .int l.line), (lit "offset", .int l.offset)] ++ l.extra

end Location

namespace Spelling

/-- The name of the kind of diagnostic. -/
def kind : Spelling → Text
  | .plain => lit "Diagnostic"
  | .linePosition => lit "DiagnosticWithLinePosition"

/-- The names of the start, of the end and of the text. -/
def fieldNames : Spelling → Text × Text × Text
  | .plain => (lit "start", lit "end", lit "text")
  | .linePosition => (lit "startLocation", lit "endLocation", lit "message")

/-- The second name a place may go by, where the first one is missing. -/
def secondName? : Spelling → Text → Option Text
  | .plain, _ => none
  | .linePosition, name =>
    if name = lit "startLocation" then some (lit "start_location_")
    else if name = lit "endLocation" then some (lit "end_location_")
    else none

/-- The name under which a place is found, the first one if it is not. -/
def nameIn (spelling : Spelling) (fields : Json.Fields) (name : Text) : Text :=
  match spelling.secondName? name with
  | some second => if !fields.has name && fields.has second then second else name
  | none => name

end Spelling

/-- What a value that is not an object lacks to be asked for a field. -/
inductive NotSearchable where
  /-- It has no members. -/
  | members (type : Text)
  /-- It has no items. -/
  | items (type : Text)
deriving DecidableEq

def NotSearchable.message : NotSearchable → Text
  | .members type => lit "argument of type '" ++ type ++ lit "' is not iterable"
  | .items type => lit "'" ++ type ++ lit "' object is not iterable"

/-- Why a value is not a diagnostic, or an envelope has none. -/
inductive DiagnosticError where
  | invalid (e : Invalid)
  | notSearchable (e : NotSearchable)
  | noBody (kind : Text)
deriving DecidableEq

def DiagnosticError.message : DiagnosticError → Text
  | .invalid e => e.message
  | .notSearchable e => e.message
  | .noBody kind => lit "'" ++ kind ++ lit "' object has no attribute 'body'"

/-- The name of the type of a value without members. -/
def Json.typeName : Json → Text
  | .null => lit "NoneType"
  | .bool _ => lit "bool"
  | .int _ => lit "int"
  | .float _ => lit "float"
  | .str _ => lit "str"
  | .arr _ => lit "list"
  | .obj _ => lit "dict"

/-- Whether a name is a field of an object, an item of a list or a part of a text. -/
def Json.mentions (name : Text) : Json → Except NotSearchable Bool
  | .obj fields => .ok (Json.Fields.has fields name)
  | .arr items => .ok (items.any fun | .str t => t == name | _ => false)
  | .str t => .ok (Text.hasPart name t)
  | v => .error (.members v.typeName)

namespace Diagnostic

/-- The spelling of a value: plain if it mentions all three plain names. -/
def spellingOf (v : Json) : Except NotSearchable Spelling := do
  let (start, stop, text) := Spelling.fieldNames .plain
  if !(← v.mentions start) then return .linePosition
  if !(← v.mentions stop) then return .linePosition
  if !(← v.mentions text) then return .linePosition
  return .plain

/-- A diagnostic in a spelling. -/
def check (spelling : Spelling) : Json → Checked Diagnostic
  | .obj fields =>
    let (start, stop, text) := spelling.fieldNames
    let start := spelling.nameIn fields start
    let stop := spelling.nameIn fields stop
    let build (code : Option Int) (category : Text) (startAt stopAt : Location) (message : Text) : Diagnostic :=
      { spelling, code, category, start := startAt, stop := stopAt, text := message
        extra := Json.Fields.without fields [lit "code", lit "category", start, stop, text] }
    checkNamed fields ((((Checked.both ((optional fields (lit "code") none (checkOption WholeNumber.check)).map build)
      (optional fields (lit "category") (lit "error") checkText)).both
      (required fields start Location.check)).both
      (required fields stop Location.check)).both
      (required fields text checkText))
  | _ => Checked.flaw (.notRecord spelling.kind)

/-- The diagnostic of a value, in the spelling the value is in. -/
def parse (v : Json) : Except DiagnosticError Diagnostic :=
  match spellingOf v with
  | .error e => .error (.notSearchable e)
  | .ok spelling =>
    match (check spelling v).titled spelling.kind with
    | .error e => .error (.invalid e)
    | .ok d => .ok d

/-- Every declared field under its name in messages, and the kept ones after them, with the places given as
`place` gives them. -/
def dumpWith (place : Location → Json.Fields) (d : Diagnostic) : Json.Fields :=
  let (start, stop, text) := d.spelling.fieldNames
  [(lit "code", (d.code.map Json.int).getD .null), (lit "category", .str d.category),
   (start, .obj (place d.start)), (stop, .obj (place d.stop)), (text, .str d.text)] ++ d.extra

/-- Every declared field and every kept one. -/
def dump (d : Diagnostic) : Json.Fields := d.dumpWith Location.dump

/-- Whether a diagnostic makes a check fail. -/
def isError (d : Diagnostic) : Bool := d.category == lit "error"

/-- The first and the last line of a diagnostic. -/
def lines (d : Diagnostic) : Int × Int := (d.start.line, d.stop.line)

/-- The offsets in the first and in the last line. -/
def offsets (d : Diagnostic) : Int × Int := (d.start.offset, d.stop.offset)

/-- The diagnostics of values, up to the first that is none. -/
def parseAll : List Json → Except DiagnosticError (List Diagnostic)
  | [] => .ok []
  | v :: vs => do
    let d ← parse v
    return d :: (← parseAll vs)

end Diagnostic

/-- The parts of a body that are to be diagnostics: the items of a list, the characters of a text, the names of an
object's fields. -/
def Json.parts : Json → Except NotSearchable (List Json)
  | .arr items => .ok items
  | .str t => .ok (t.map fun c => .str [c])
  | .obj fields => .ok (fields.map fun field => .str field.1)
  | v => .error (.items v.typeName)

/-- The diagnostics in a body; an empty body has none. -/
def Diagnostic.ofBody (body : Json) : Except DiagnosticError (List Diagnostic) :=
  if body.isBlank then .ok []
  else
    match body.parts with
    | .error e => .error (.notSearchable e)
    | .ok parts => Diagnostic.parseAll parts

/-- The diagnostics in the body of an envelope. -/
def Message.diagnostics (m : Message) : Except DiagnosticError (List Diagnostic) :=
  match m.body? with
  | none => .error (.noBody m.kind)
  | some body => Diagnostic.ofBody body

/-- A diagnostic as a line: its fields, and those of its places, that are not null. -/
def encodeDiagnostic (encoding : Text) (d : Diagnostic) : Except EncodeError Bytes :=
  encodeFields encoding (Json.Fields.outbound (d.dumpWith fun l => Json.Fields.present l.dump))

end DiagnosticsClient
