import DiagnosticsClient.Number.Binary64
import DiagnosticsClient.Json.Basic
import DiagnosticsClient.Text.Blank
import DiagnosticsClient.Text.Charset
import DiagnosticsClient.Text.Quoted
/-
Reading the fields of an object.

A field of whole numbers also takes truth values, numbers without a fraction
and texts that spell one; a field of truth values also takes nought and one and
the usual words. A text field takes texts only. Every fault of an object is
reported, in the order of its fields, each with the way to it.
-/
namespace DiagnosticsClient

-- powers are the core library's, whatever other ones are in scope
attribute [local instance (high)] instPowNat

/-- What is wrong with a value. -/
inductive Flaw where
  | missing
  | notInteger
  | unreadableInteger
  | integerTooLarge
  | fractional
  | notFinite
  | notBoolean
  | unreadableBoolean
  | notText
  | brokenText
  | notObject
  | notLiteral (expected : Text)
  | notRecord (name : Text)
  | noFields
  | noTag
  | unknownTag (tag : Text)
deriving DecidableEq

def Flaw.message : Flaw → Text
  | .missing => lit "Field required"
  | .notInteger => lit "Input should be a valid integer"
  | .unreadableInteger => lit "Input should be a valid integer, unable to parse string as an integer"
  | .integerTooLarge => lit "Unable to parse input string as an integer, exceeded maximum size"
  | .fractional => lit "Input should be a valid integer, got a number with a fractional part"
  | .notFinite => lit "Input should be a finite number"
  | .notBoolean => lit "Input should be a valid boolean"
  | .unreadableBoolean => lit "Input should be a valid boolean, unable to interpret input"
  | .notText => lit "Input should be a valid string"
  | .brokenText => lit "Input should be a valid string, unable to parse raw data as a unicode string"
  | .notObject => lit "Input should be a valid dictionary"
  | .notLiteral expected => lit "Input should be " ++ expected.quoted
  | .notRecord name => lit "Input should be a valid dictionary or instance of " ++ name
  | .noFields => lit "Input should be a valid dictionary or object to extract fields from"
  | .noTag => lit "Unable to extract tag using discriminator 'type'"
  | .unknownTag tag =>
    lit "Input tag '" ++ tag ++
      lit "' found using 'type' does not match any of the expected tags: 'request', 'response', 'event'"

/-- A flaw and the way to it from the outermost value. -/
structure FlawAt where
  flaw : Flaw
  location : List Text
deriving DecidableEq

/-- The flaws of a value that was to be of a kind; there is one at least. -/
structure Invalid where
  title : Text
  flaws : List FlawAt
deriving DecidableEq

def Invalid.message (e : Invalid) : Text :=
  Text.ofNat e.flaws.length ++
    (if e.flaws.length = 1 then lit " validation error for " else lit " validation errors for ") ++ e.title

/-- A value, or all its flaws. -/
abbrev Checked (α : Type) := Except (List FlawAt) α

namespace Checked

/-- A flaw of the value itself. -/
def flaw {α : Type} (f : Flaw) : Checked α := .error [⟨f, []⟩]

/-- The flaws of both sides, or the one applied to the other. -/
def both {α β : Type} : Checked (α → β) → Checked α → Checked β
  | .ok f, .ok a => .ok (f a)
  | .ok _, .error e => .error e
  | .error e, .ok _ => .error e
  | .error e, .error e' => .error (e ++ e')

/-- The flaws of a part, on the way through `name`. -/
def within {α : Type} (name : Text) : Checked α → Checked α
  | .ok a => .ok a
  | .error flaws => .error (flaws.map fun f => { f with location := name :: f.location })

/-- A value that was to be of the kind `title`. -/
def titled {α : Type} (title : Text) : Checked α → Except Invalid α
  | .ok a => .ok a
  | .error flaws => .error ⟨title, flaws⟩

end Checked

/-! ## Whole numbers -/

namespace WholeNumber

/-- A text without the minus sign it begins with, and whether it has one. -/
def unsigned (t : Text) : Bool × Text :=
  match t with
  | c :: rest => if c = pt '-' then (true, rest) else (false, t)
  | [] => (false, t)

/-- Whether a text begins with a number of more digits than the limit, whatever follows it. -/
def beginsTooLong (t : Text) : Bool :=
  let digits := (unsigned t).2.takeWhile CodePoint.isDigit
  Text.digitLimit < digits.length && digits.head? != some (pt '0')

/-- The number of a text with nothing to spare: a minus sign at most, then digits, the first of them nought only where
it is the only one. -/
def strict? (t : Text) : Option Int :=
  let (negative, digits) := unsigned t
  let spelled := digits.all CodePoint.isDigit && !digits.isEmpty && digits.length ≤ Text.digitLimit
  if spelled && (digits.length = 1 || digits.head? != some (pt '0')) then
    let n : Int := Text.decimalValue digits
    some (if negative then -n else n)
  else none

/-- What is left of a number after the noughts and underscores it begins with; `last` is the one just passed. It stays
where nothing or a point follows it, and a minus sign may follow it. -/
def pastNoughts? (last : CodePoint) : Text → Option Text
  | [] => some [last]
  | c :: rest =>
    if c = pt '0' || c = pt '_' then pastNoughts? c rest
    else if c.isDigit || c = pt '-' then some (c :: rest)
    else if c = pt '.' then some (last :: c :: rest)
    else none

/-- A number without the noughts it begins with. -/
def withoutNoughts? : Text → Option Text
  | [] => none
  | c :: rest =>
    if c = pt '0' then pastNoughts? c rest
    else if c.isDigit then some (c :: rest)
    else none

/-- A number without a point and the noughts after it, of which there is one at least. -/
def withoutFraction (t : Text) : Text :=
  let back := t.reverse
  match back.takeWhile (· = pt '0'), back.dropWhile (· = pt '0') with
  | _ :: _, c :: rest => if c = pt '.' then rest.reverse else t
  | _, _ => t

/-- A number without its underscores, if each of them stands alone between other signs. -/
def withoutUnderscores (t : Text) : Text :=
  let apart := t.head? != some (pt '_') && t.getLast? != some (pt '_') && !Text.hasPart (lit "__") t
  if apart then t.filter (· ≠ pt '_') else t

/-- The number a text spells: a sign, digits with single underscores between them, and nothing but noughts after a
point. -/
def ofText? (t : Text) : Option Int :=
  let t := t.trim CodePoint.isWhite
  let (negative, body) := unsigned t
  let body := if body.head? = some (pt '+') && !negative then body.drop 1 else body
  (withoutNoughts? body).bind fun rest =>
    strict? (withoutUnderscores (withoutFraction (if negative then pt '-' :: rest else rest)))

/-- The whole number a number without fraction is equal to, if 64 bits with a sign can hold it. -/
def ofNumber (x : Binary64) : Checked Int :=
  match x with
  | .nan | .infinite _ => Checked.flaw .notFinite
  | x =>
    match x.toInt? with
    | none => Checked.flaw .fractional
    | some n => if -(2 ^ (63 : Nat)) < n ∧ n < 2 ^ (63 : Nat) then .ok n else Checked.flaw .integerTooLarge

/-- The whole number of a value. -/
def check : Json → Checked Int
  | .int n => .ok n
  | .bool b => .ok (if b then 1 else 0)
  | .float x => ofNumber x
  | .str t =>
    if t.any CodePoint.isSurrogate then Checked.flaw .brokenText
    else if beginsTooLong t then Checked.flaw .integerTooLarge
    else
      match ofText? t with
      | some n => .ok n
      | none => Checked.flaw .unreadableInteger
  | _ => Checked.flaw .notInteger

end WholeNumber

/-! ## Truth values -/

namespace TruthValue

def trueWords : List Text := [lit "1", lit "t", lit "true", lit "y", lit "yes", lit "on"]

def falseWords : List Text := [lit "0", lit "f", lit "false", lit "n", lit "no", lit "off"]

/-- Nought and one. -/
def ofInt (n : Int) : Checked Bool :=
  if n = 0 then .ok false else if n = 1 then .ok true else Checked.flaw .unreadableBoolean

/-- The truth value of a value. -/
def check : Json → Checked Bool
  | .bool b => .ok b
  | .int n => if -(2 ^ (63 : Nat)) ≤ n ∧ n < 2 ^ (63 : Nat) then ofInt n else Checked.flaw .notBoolean
  | .float x =>
    match WholeNumber.ofNumber x with
    | .ok n => ofInt n
    | .error _ => Checked.flaw .notBoolean
  | .str t =>
    if t.any CodePoint.isSurrogate then Checked.flaw .brokenText
    else if trueWords.contains t.toAsciiLower then .ok true
    else if falseWords.contains t.toAsciiLower then .ok false
    else Checked.flaw .unreadableBoolean
  | _ => Checked.flaw .notBoolean

end TruthValue

/-! ## Texts, objects, fields -/

/-- The record of an object whose names of fields all are characters. One that holds half a surrogate pair keeps the
object from being looked at any further. -/
def checkNamed {α : Type} (fields : Json.Fields) (record : Checked α) : Checked α :=
  if fields.any fun field => field.1.any CodePoint.isSurrogate then Checked.flaw .brokenText else record

/-- A text. -/
def checkText : Json → Checked Text
  | .str t => .ok t
  | _ => Checked.flaw .notText

/-- An object of any fields. -/
def checkObject : Json → Checked Json.Fields
  | .obj fs => .ok fs
  | _ => Checked.flaw .notObject

/-- A value that may be null. -/
def checkOption {α : Type} (check : Json → Checked α) : Json → Checked (Option α)
  | .null => .ok none
  | v => (check v).map some

/-- The one text a field may hold. -/
def checkLiteral (expected : Text) : Json → Checked Unit
  | .str t =>
    if t.any CodePoint.isSurrogate then Checked.flaw .brokenText
    else if t = expected then .ok () else Checked.flaw (.notLiteral expected)
  | _ => Checked.flaw (.notLiteral expected)

/-- A field that has to be there. -/
def required {α : Type} (fields : Json.Fields) (name : Text) (check : Json → Checked α) : Checked α :=
  match fields.get? name with
  | some v => (check v).within name
  | none => (Checked.flaw .missing).within name

/-- A field that has a value of its own where it is missing. -/
def optional {α : Type} (fields : Json.Fields) (name : Text) (default : α) (check : Json → Checked α) : Checked α :=
  match fields.get? name with
  | some v => (check v).within name
  | none => .ok default

end DiagnosticsClient
