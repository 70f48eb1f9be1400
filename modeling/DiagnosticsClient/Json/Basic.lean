import DiagnosticsClient.Number.Binary64
import DiagnosticsClient.Text.Basic
/-
JSON values.

Whole numbers and numbers with a fraction or an exponent are apart, as their
texts are. An object is the list of its fields in the order of their first
mention; `set` gives a field a new value where it stands, so that of two
fields of one name the last value is kept at the first one's place.
-/
namespace DiagnosticsClient

/-- A JSON value. -/
inductive Json where
  | null
  | bool (b : Bool)
  | int (n : Int)
  | float (x : Binary64)
  | str (t : Text)
  | arr (items : List Json)
  | obj (fields : List (Text × Json))

namespace Json

instance : Inhabited Json := ⟨.null⟩

/-- The fields of an object, in order. -/
abbrev Fields := List (Text × Json)

/-- The value of a field. -/
def Fields.get? (fields : Fields) (name : Text) : Option Json :=
  (fields.find? fun field => field.1 == name).map (·.2)

/-- Whether an object has a field. -/
def Fields.has (fields : Fields) (name : Text) : Bool := fields.any fun field => field.1 == name

/-- A field's new value in its old place, or a new field at the end. -/
def Fields.set (fields : Fields) (name : Text) (value : Json) : Fields :=
  if Fields.has fields name then
    fields.map fun field => if field.1 == name then (field.1, value) else field
  else fields ++ [(name, value)]

/-- The fields whose names are not in a list. -/
def Fields.without (fields : Fields) (names : List Text) : Fields :=
  fields.filter fun field => !names.contains field.1

/-- The value of a field of an object; other values have no fields. -/
def field? (v : Json) (name : Text) : Option Json :=
  match v with
  | .obj fields => Fields.get? fields name
  | _ => none

def isNull : Json → Bool
  | .null => true
  | _ => false

/-- Whether a value is empty, zero, false or null. -/
def isBlank : Json → Bool
  | .null => true
  | .bool b => !b
  | .int n => n = 0
  | .float x => x.isZero
  | .str t => t.isEmpty
  | .arr items => items.isEmpty
  | .obj fields => fields.isEmpty

end Json

end DiagnosticsClient
