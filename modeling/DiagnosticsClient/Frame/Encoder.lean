import DiagnosticsClient.Json.Printer
import DiagnosticsClient.Text.Charset
/-
Outbound messages: one line of JSON each.

The text has no line feed of its own, since every control character in a
string is escaped, so the line feed at its end parts one message from the
next. A plain value and a message differ in how they print numbers, and a
message refuses half a surrogate pair and values nested too deep before any
encoding is asked.
-/
namespace DiagnosticsClient

/-- What no message can hold. -/
inductive Unserializable where
  /-- A string with half of a surrogate pair. -/
  | broken (fault : EncodeFault)
  | tooDeep
deriving DecidableEq

def Unserializable.message : Unserializable → Text
  | .broken f => lit "UnicodeEncodeError: " ++ f.message
  | .tooDeep => lit "ValueError: Maximum serialization depth exceeded"

/-- Why a message cannot be written. -/
inductive EncodeError where
  | encoding (fault : NameFault)
  | unencodable (fault : EncodeFault)
  | unserializable (cause : Unserializable)
deriving DecidableEq

def EncodeError.message : EncodeError → Text
  | .encoding f => f.message
  | .unencodable f => f.message
  | .unserializable cause => lit "Error serializing to JSON: " ++ cause.message

/-- The octets of a line of text in a named encoding, with its line feed. -/
def encodeLine (encoding : Text) (text : Text) : Except EncodeError Bytes :=
  match Charset.lookup encoding with
  | .error f => .error (.encoding f)
  | .ok charset =>
    match charset.encode text with
    | .error f => .error (.unencodable f)
    | .ok octets => .ok (octets ++ [10])

/-- A plain value as a line. -/
def encodeValue (encoding : Text) (v : Json) : Except EncodeError Bytes :=
  encodeLine encoding (v.render Json.plainNumbers Json.Layout.compact)

/-- A string with half of a surrogate pair cannot be held. -/
def Unserializable.ofString? (t : Text) : Option Unserializable :=
  if t.any CodePoint.isSurrogate then some (.broken (Charset.utf8.faultIn t)) else none

mutual
/-- The first thing in a value, in the order of its text, that a message cannot hold, where at most `room` values may
stand inside each other. -/
def Json.unserializable? : (room : Nat) → Json → Option Unserializable
  | 0, _ => some .tooDeep
  | _ + 1, .null | _ + 1, .bool _ | _ + 1, .int _ | _ + 1, .float _ => none
  | _ + 1, .str t => Unserializable.ofString? t
  | room + 1, .arr vs => unserializableItem? room vs
  | room + 1, .obj fs => unserializableField? room fs

def Json.unserializableItem? (room : Nat) : List Json → Option Unserializable
  | [] => none
  | v :: vs => v.unserializable? room <|> unserializableItem? room vs

def Json.unserializableField? (room : Nat) : List (Text × Json) → Option Unserializable
  | [] => none
  | (name, v) :: fs =>
    Unserializable.ofString? name <|> v.unserializable? room <|> unserializableField? room fs
end

namespace Message

/-- How many values may stand inside each other in a field of a message. -/
def depthLimit : Nat := 255

end Message

/-- A field of a message to be written. The depth of a field that holds a record is that of the record's fields. -/
structure OutboundField where
  name : Text
  value : Json
  isRecord : Bool := false

namespace OutboundField

/-- The first thing in a field that a message cannot hold. -/
def unserializable? (field : OutboundField) : Option Unserializable :=
  field.value.unserializable? (if field.isRecord then Message.depthLimit + 1 else Message.depthLimit)

end OutboundField

/-- The fields of a message as a line. -/
def encodeFields (encoding : Text) (fields : List OutboundField) : Except EncodeError Bytes :=
  match fields.findSome? OutboundField.unserializable? with
  | some cause => .error (.unserializable cause)
  | none =>
    let object := Json.obj (fields.map fun field => (field.name, field.value))
    encodeLine encoding (object.render Json.messageNumbers Json.Layout.compact)

end DiagnosticsClient
