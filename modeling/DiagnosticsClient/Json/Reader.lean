import DiagnosticsClient.Json.Basic
/-
The reader of JSON texts.

It accepts the grammar of JSON and, beside it, `NaN`, `Infinity` and
`-Infinity`; an escape may denote half of a surrogate pair. A text that is
refused is refused at its first fault, with the place of that fault. Apart
from the grammar a text may ask too much: a whole number with more digits than
the limit, or values nested more deeply than the limit.

The reader is written on what is left of the text; a fault keeps how much was
left, from which `parse` finds the place.
-/
namespace DiagnosticsClient

namespace Json

/-- What the reader looked for, or met, at a fault. -/
inductive Complaint where
  | value
  | propertyName
  | colon
  | comma
  | extraData
  | unterminatedString
  | controlCharacter
  | escape
  | unicodeEscape
  | byteOrderMark
deriving DecidableEq

def Complaint.message : Complaint → Text
  | .value => lit "Expecting value"
  | .propertyName => lit "Expecting property name enclosed in double quotes"
  | .colon => lit "Expecting ':' delimiter"
  | .comma => lit "Expecting ',' delimiter"
  | .extraData => lit "Extra data"
  | .unterminatedString => lit "Unterminated string starting at"
  | .controlCharacter => lit "Invalid control character at"
  | .escape => lit "Invalid \\escape"
  | .unicodeEscape => lit "Invalid \\uXXXX escape"
  | .byteOrderMark => lit "Unexpected UTF-8 BOM (decode using utf-8-sig)"

/-- A place where a text leaves the grammar: its position, and the line and column of it, counted from one. -/
structure SyntaxFault where
  complaint : Complaint
  position : Nat
  line : Nat
  column : Nat
deriving DecidableEq

def SyntaxFault.message (f : SyntaxFault) : Text :=
  f.complaint.message ++ lit ": line " ++ Text.ofNat f.line ++ lit " column " ++ Text.ofNat f.column ++
    lit " (char " ++ Text.ofNat f.position ++ lit ")"

/-- A value that holds others. -/
inductive Container where
  | array
  | object
deriving DecidableEq

/-- Why a text gives no value. -/
inductive ReadError where
  | malformed (fault : SyntaxFault)
  | integerTooLong (digits : Nat)
  | tooDeep (container : Container)
deriving DecidableEq

/-- Why the reader stopped, with how much of the text was left. -/
inductive Stop where
  | complain (complaint : Complaint) (left : Nat)
  | integerTooLong (digits : Nat)
  | tooDeep (container : Container)
deriving DecidableEq

/-- The greatest number of values around a value. -/
def depthLimit : Nat := 994

/-- A value, and what is left of the text after it. -/
abbrev Read (α : Type) := Except Stop (α × Text)

/-- Space, tab, line feed or carriage return. -/
def isSpace (c : CodePoint) : Bool := c.val = 0x20 || c.val = 0x09 || c.val = 0x0A || c.val = 0x0D

def skipSpace (t : Text) : Text := t.dropWhile isSpace

/-! ## Strings -/

/-- The number of four hexadecimal digits. -/
def hex4? (a b c d : CodePoint) : Option Nat := do
  return (((← a.hexValue?) * 16 + (← b.hexValue?)) * 16 + (← c.hexValue?)) * 16 + (← d.hexValue?)

/-- The character a one-letter escape stands for. -/
def escaped? (c : CodePoint) : Option CodePoint :=
  if c = pt '"' || c = pt '\\' || c = pt '/' then some c
  else if c = pt 'b' then some (.ofNat 0x08)
  else if c = pt 'f' then some (.ofNat 0x0C)
  else if c = pt 'n' then some (.ofNat 0x0A)
  else if c = pt 'r' then some (.ofNat 0x0D)
  else if c = pt 't' then some (.ofNat 0x09)
  else none

/-- The fault at the start of what is left of a text. -/
def faultBefore (complaint : Complaint) (left : Text) : Stop := .complain complaint left.length

/-- A string after its opening quote, from which `opening` is left. A four-digit escape must have something
after it, and so must the second half of a surrogate pair. -/
def stringTail (opening : Text) (acc : Text) : Text → Read Text
  | [] => .error (faultBefore .unterminatedString opening)
  | c :: rest =>
    if c = pt '"' then .ok (acc.reverse, rest)
    else if c = pt '\\' then
      match rest with
      | [] => .error (faultBefore .unterminatedString opening)
      | kind :: rest' =>
        if kind = pt 'u' then
          match rest' with
          | a :: b :: c :: d :: next :: more =>
            match hex4? a b c d with
            | none => .error (faultBefore .unicodeEscape rest)
            | some n =>
              let first := CodePoint.ofNat n
              match more with
              | kind' :: a' :: b' :: c' :: d' :: next' :: more' =>
                if first.isHighSurrogate && next = pt '\\' && kind' = pt 'u' then
                  match hex4? a' b' c' d' with
                  | none => .error (.complain .unicodeEscape (more'.length + 6))
                  | some n' =>
                    let second := CodePoint.ofNat n'
                    if second.isLowSurrogate then
                      stringTail opening (.ofSurrogates first second :: acc) (next' :: more')
                    else stringTail opening (first :: acc) (next :: kind' :: a' :: b' :: c' :: d' :: next' :: more')
                else stringTail opening (first :: acc) (next :: kind' :: a' :: b' :: c' :: d' :: next' :: more')
              | more => stringTail opening (first :: acc) (next :: more)
          | _ => .error (faultBefore .unicodeEscape rest)
        else
          match escaped? kind with
          | some e => stringTail opening (e :: acc) rest'
          | none => .error (.complain .escape (rest'.length + 2))
    else if c.val < 0x20 then .error (.complain .controlCharacter (rest.length + 1))
    else stringTail opening (c :: acc) rest
termination_by t => t.length

/-! ## Numbers -/

/-- A digit, and what follows it. -/
def digits (t : Text) : Text × Text := (t.takeWhile CodePoint.isDigit, t.dropWhile CodePoint.isDigit)

/-- The digits of a whole part: a zero alone, or a run that does not begin with one. -/
def wholePart? (t : Text) : Option (Text × Text) :=
  match t with
  | [] => none
  | c :: rest =>
    if c = pt '0' then some ([c], rest)
    else if c.isDigit then some (digits t)
    else none

/-- The digits after a point; a point without any is not read. -/
def fraction (t : Text) : Text × Text :=
  match t with
  | point :: rest =>
    if point = pt '.' && (digits rest).1 ≠ [] then digits rest else ([], t)
  | [] => ([], t)

/-- An exponent; one without digits is not read. -/
def exponent? (t : Text) : Option (Int × Text) :=
  match t with
  | e :: rest =>
    if e = pt 'e' || e = pt 'E' then
      let (negative, body) := match rest with
        | sign :: more =>
          if sign = pt '-' then (true, more) else if sign = pt '+' then (false, more) else (false, rest)
        | [] => (false, rest)
      let (ds, more) := digits body
      if ds = [] then none
      else
        let n : Int := Text.decimalValue ds
        some (if negative then -n else n, more)
    else none
  | [] => none

/-- A number; `t` is the text with the sign. -/
def number (t : Text) : Read Json :=
  let (negative, body) := match t with
    | c :: rest => if c = pt '-' then (true, rest) else (false, t)
    | [] => (false, t)
  match wholePart? body with
  | none => .error (.complain .value t.length)
  | some (whole, afterWhole) =>
    let (part, afterPart) := fraction afterWhole
    match exponent? afterPart with
    | some (e, rest) =>
      .ok (.float (.ofDecimal negative (Text.decimalValue (whole ++ part)) (e - part.length)), rest)
    | none =>
      if part ≠ [] then
        .ok (.float (.ofDecimal negative (Text.decimalValue (whole ++ part)) (-part.length)), afterPart)
      else if Text.digitLimit < whole.length then .error (.integerTooLong whole.length)
      else
        let n : Int := Text.decimalValue whole
        .ok (.int (if negative then -n else n), afterPart)

/-! ## Values -/

/-- The words that stand for a value. -/
def words : List (Text × Json) :=
  [(lit "null", .null), (lit "true", .bool true), (lit "false", .bool false), (lit "NaN", .float .nan),
   (lit "Infinity", .float (.infinite false)), (lit "-Infinity", .float (.infinite true))]

/-- A word or a number. -/
def scalar (t : Text) : Read Json :=
  match words.find? fun word => word.1.isPrefixOf t with
  | some (word, value) => .ok (value, t.drop word.length)
  | none => number t

/-- The items of an array up to its closing bracket. -/
def items (item : Text → Read Json) : (fuel : Nat) → List Json → Text → Read (List Json)
  | 0, _, t => .error (.complain .value t.length)
  | fuel + 1, acc, t =>
    match item t with
    | .error e => .error e
    | .ok (v, rest) =>
      match skipSpace rest with
      | [] => .error (.complain .comma 0)
      | c :: rest =>
        if c = pt ']' then .ok ((v :: acc).reverse, rest)
        else if c = pt ',' then items item fuel (v :: acc) (skipSpace rest)
        else .error (.complain .comma (rest.length + 1))

/-- One field of an object: its name, a colon, its value. -/
def member (item : Text → Read Json) (t : Text) : Read (Text × Json) :=
  match t with
  | [] => .error (.complain .propertyName 0)
  | c :: rest =>
    if c = pt '"' then
      match stringTail t [] rest with
      | .error e => .error e
      | .ok (name, rest) =>
        match skipSpace rest with
        | [] => .error (.complain .colon 0)
        | c :: rest =>
          if c = pt ':' then
            match item (skipSpace rest) with
            | .error e => .error e
            | .ok (v, rest) => .ok ((name, v), rest)
          else .error (.complain .colon (rest.length + 1))
    else .error (.complain .propertyName t.length)

/-- The fields of an object up to its closing brace. -/
def members (item : Text → Read Json) : (fuel : Nat) → Fields → Text → Read Fields
  | 0, _, t => .error (.complain .propertyName t.length)
  | fuel + 1, acc, t =>
    match member item t with
    | .error e => .error e
    | .ok ((name, v), rest) =>
      match skipSpace rest with
      | [] => .error (.complain .comma 0)
      | c :: rest =>
        if c = pt '\x7d' then .ok (acc.set name v, rest)
        else if c = pt ',' then members item fuel (acc.set name v) (skipSpace rest)
        else .error (.complain .comma (rest.length + 1))

/-- A value with at most `depth` values around the ones inside it; `room` bounds how many parts an array or an object
has. -/
def value (room : Nat) : (depth : Nat) → Text → Read Json
  | 0, t =>
    match t with
    | [] => .error (.complain .value 0)
    | c :: rest =>
      if c = pt '"' then (stringTail t [] rest).map fun (s, rest) => (.str s, rest)
      else if c = pt '[' then .error (.tooDeep .array)
      else if c = pt '\x7b' then .error (.tooDeep .object)
      else scalar t
  | depth + 1, t =>
    match t with
    | [] => .error (.complain .value 0)
    | c :: rest =>
      if c = pt '"' then (stringTail t [] rest).map fun (s, rest) => (.str s, rest)
      else if c = pt '[' then
        match skipSpace rest with
        | [] => .error (.complain .value 0)
        | c' :: rest' =>
          if c' = pt ']' then .ok (.arr [], rest')
          else (items (value room depth) room [] (c' :: rest')).map fun (vs, rest) => (.arr vs, rest)
      else if c = pt '\x7b' then
        match skipSpace rest with
        | [] => .error (.complain .propertyName 0)
        | c' :: rest' =>
          if c' = pt '\x7d' then .ok (.obj [], rest')
          else (members (value room depth) room [] (c' :: rest')).map fun (fs, rest) => (.obj fs, rest)
      else scalar t

/-- The fault at a position, with its line and column. -/
def faultAt (complaint : Complaint) (t : Text) (position : Nat) : SyntaxFault :=
  let before := t.take position
  { complaint
    position
    line := (before.filter (· = pt '\n')).length + 1
    column := (before.reverse.takeWhile (· ≠ pt '\n')).length + 1 }

/-- The value a text spells, with nothing but space around it. -/
def parseWithin (depth : Nat) (t : Text) : Except ReadError Json :=
  let stopped (stop : Stop) : ReadError := match stop with
    | .complain complaint left => .malformed (faultAt complaint t (t.length - left))
    | .integerTooLong digits => .integerTooLong digits
    | .tooDeep container => .tooDeep container
  if t.head? = some (.ofNat 0xFEFF) then .error (.malformed (faultAt .byteOrderMark t 0))
  else
    match value t.length depth (skipSpace t) with
    | .error stop => .error (stopped stop)
    | .ok (v, rest) =>
      let rest := skipSpace rest
      if rest = [] then .ok v else .error (stopped (.complain .extraData rest.length))

/-- The value a text spells, nested no more deeply than the limit. -/
def parse (t : Text) : Except ReadError Json := parseWithin depthLimit t

end Json

end DiagnosticsClient
