import DiagnosticsClient.Message.Validation
import DiagnosticsClient.Frame.Encoder
/-
The three envelopes of the protocol.

A request carries a number and a command; a response names the request it
answers by that number; an event answers nothing. The field `type` tells them
apart. Fields that are not declared are kept as they came.
-/
namespace DiagnosticsClient

/-- A request to the server. -/
structure Request where
  seq : Int
  command : Text
  arguments : Option Json.Fields := none
  extra : Json.Fields := []

/-- The server's answer to the request numbered `requestSeq`. -/
structure Response where
  seq : Int
  requestSeq : Int
  command : Text
  success : Bool
  message : Option Text
  body : Json
  extra : Json.Fields

/-- What the server tells unasked. -/
structure Event where
  seq : Int
  event : Text
  body : Json
  extra : Json.Fields

/-- An envelope. -/
inductive Message where
  | request (r : Request)
  | response (r : Response)
  | event (e : Event)

/-- The commands the client sends. -/
inductive Command where
  | openFile
  | semanticDiagnosticsSync
deriving DecidableEq

def Command.name : Command → Text
  | .openFile => lit "open"
  | .semanticDiagnosticsSync => lit "semanticDiagnosticsSync"

/-- The command a value names, or the report that it names none. -/
def Command.check (v : Json) : Except Text Command :=
  let named (c : Command) : Bool := match v with | .str t => t == c.name | _ => false
  match [Command.openFile, .semanticDiagnosticsSync].find? named with
  | some c => .ok c
  | none => .error (v.quoted ++ lit " is not a valid CommandType")

/-! ## Reading -/

namespace Request

def typeName : Text := lit "request"

def fieldNames : List Text := [lit "seq", lit "type", lit "command", lit "arguments"]

/-- A request from the fields of an object. -/
def ofFields (fields : Json.Fields) : Checked Request :=
  let build (seq : Int) (_ : Unit) (command : Text) (arguments : Option Json.Fields) : Request :=
    { seq, command, arguments, extra := fields.without fieldNames }
  checkNamed fields (((Checked.both ((required fields (lit "seq") WholeNumber.check).map build)
    (optional fields (lit "type") () (checkLiteral typeName))).both
    (required fields (lit "command") checkText)).both
    (optional fields (lit "arguments") none (checkOption checkObject)))

/-- A request from the fields of an object, under its own title. -/
def ofFields? (fields : Json.Fields) : Except Invalid Request := (ofFields fields).titled (lit "Request")

/-- A request for a command with arguments, whatever values those are. -/
def create (seq command arguments : Json) : Except Invalid Request :=
  ofFields? [(lit "seq", seq), (lit "command", command), (lit "arguments", arguments)]

/-- A request of one of the client's own commands for a file. -/
def forFile (command : Command) (seq file : Json) : Except Invalid Request :=
  create seq (.str command.name) (.obj [(lit "file", file)])

/-- The request to open a file. -/
def openFile (seq : Int) (file : Json) : Request :=
  { seq, command := Command.name .openFile, arguments := some [(lit "file", file)] }

/-- The request for the diagnostics of a file. -/
def semanticDiagnostics (seq : Int) (file : Json) : Request :=
  { seq, command := Command.name .semanticDiagnosticsSync, arguments := some [(lit "file", file)] }

/-- Whether a request is about a file. -/
def names (r : Request) (file : Text) : Bool :=
  match (r.arguments.getD []).get? (lit "file") with
  | some (.str t) => t == file
  | _ => false

end Request

namespace Response

def typeName : Text := lit "response"

def fieldNames : List Text :=
  [lit "seq", lit "type", lit "request_seq", lit "command", lit "success", lit "message", lit "body"]

/-- A response from the fields of an object. -/
def ofFields (fields : Json.Fields) : Checked Response :=
  let build (seq : Int) (_ : Unit) (requestSeq : Int) (command : Text) (success : Bool) (message : Option Text)
      (body : Json) : Response :=
    { seq, requestSeq, command, success, message, body, extra := fields.without fieldNames }
  checkNamed fields ((((((Checked.both ((optional fields (lit "seq") 0 WholeNumber.check).map build)
    (optional fields (lit "type") () (checkLiteral typeName))).both
    (required fields (lit "request_seq") WholeNumber.check)).both
    (required fields (lit "command") checkText)).both
    (optional fields (lit "success") true TruthValue.check)).both
    (optional fields (lit "message") none (checkOption checkText))).both
    (optional fields (lit "body") .null .ok))

/-- A response from the fields of an object, under its own title. -/
def ofFields? (fields : Json.Fields) : Except Invalid Response := (ofFields fields).titled (lit "Response")

/-- Whether a response belongs to a request: its number and its command are the request's. -/
def answers (response : Response) (request : Request) : Bool :=
  response.requestSeq == request.seq && response.command == request.command

end Response

namespace Event

def typeName : Text := lit "event"

def fieldNames : List Text := [lit "seq", lit "type", lit "event", lit "body"]

/-- An event from the fields of an object. -/
def ofFields (fields : Json.Fields) : Checked Event :=
  let build (seq : Int) (_ : Unit) (event : Text) (body : Json) : Event :=
    { seq, event, body, extra := fields.without fieldNames }
  checkNamed fields (((Checked.both ((optional fields (lit "seq") 0 WholeNumber.check).map build)
    (optional fields (lit "type") () (checkLiteral typeName))).both
    (required fields (lit "event") checkText)).both
    (optional fields (lit "body") .null .ok))

end Event

namespace Message

/-- The envelope of a value, by its `type`; the way to a flaw begins with that type. -/
def check (v : Json) : Checked Message :=
  match v with
  | .obj fields =>
    match Json.Fields.get? fields (lit "type") with
    | none => Checked.flaw .noTag
    | some (.str tag) =>
      if tag = Request.typeName then Checked.within tag ((Request.ofFields fields).map Message.request)
      else if tag = Response.typeName then Checked.within tag ((Response.ofFields fields).map Message.response)
      else if tag = Event.typeName then Checked.within tag ((Event.ofFields fields).map Message.event)
      else Checked.flaw (.unknownTag (Json.str tag).shown)
    | some tag => Checked.flaw (.unknownTag tag.shown)
  | _ => Checked.flaw .noFields

/-- The envelope of a decoded value. -/
def parse (v : Json) : Except Invalid Message := (check v).titled (lit "tagged-union[Request,Response,Event]")

/-! ## Writing -/

/-- The name of the kind of an envelope. -/
def kind : Message → Text
  | .request _ => lit "Request"
  | .response _ => lit "Response"
  | .event _ => lit "Event"

/-- A text, or null. -/
def optionText : Option Text → Json
  | some t => .str t
  | none => .null

/-- Every declared field, in order, and the kept ones after them. -/
def dump : Message → Json.Fields
  | .request r =>
    [(lit "seq", .int r.seq), (lit "type", .str Request.typeName), (lit "command", .str r.command),
     (lit "arguments", (r.arguments.map Json.obj).getD .null)] ++ r.extra
  | .response r =>
    [(lit "seq", .int r.seq), (lit "type", .str Response.typeName), (lit "request_seq", .int r.requestSeq),
     (lit "command", .str r.command), (lit "success", .bool r.success), (lit "message", optionText r.message),
     (lit "body", r.body)] ++ r.extra
  | .event e =>
    [(lit "seq", .int e.seq), (lit "type", .str Event.typeName), (lit "event", .str e.event),
     (lit "body", e.body)] ++ e.extra

/-- The body of an envelope that has one; a request may have been given one beside its own fields. -/
def body? : Message → Option Json
  | .request r => r.extra.get? (lit "body")
  | .response r => some r.body
  | .event e => some e.body

end Message

/-- The fields that are not null. -/
def Json.Fields.present (fields : Json.Fields) : Json.Fields := fields.filter fun field => !field.2.isNull

/-- The fields to be written: those that are not null. -/
def Json.Fields.outbound (fields : Json.Fields) : List OutboundField :=
  (Json.Fields.present fields).map fun (name, value) => { name, value }

/-- The arguments of a request to be written: a record, whose names are shown whatever they hold. -/
def OutboundField.ofArguments (name : Text) (arguments : Json.Fields) : OutboundField :=
  { name, value := .obj (arguments.map fun (name, v) => (name.flatMap Json.shownPoint, v)), isRecord := true }

/-- The fields of a message to be written. -/
def Message.outbound (m : Message) : List OutboundField :=
  (Json.Fields.outbound m.dump).map fun field =>
    match m, field.value with
    | .request _, .obj arguments =>
      if field.name = lit "arguments" then .ofArguments field.name arguments else field
    | _, _ => field

/-- A message as a line. -/
def encodeMessage (encoding : Text) (m : Message) : Except EncodeError Bytes := encodeFields encoding m.outbound

end DiagnosticsClient
