import AssessmentItems.JsonWriter

/-!
Reading typed data from JSON values. A record is an object of named fields or an array
of the fields in their order. Members are visited in ascending order of their keys, so
of several faults in an object the one at the least key is reported, and a missing
field only if every member is in order.
-/
namespace AssessmentItems.Decoding

/-- A character inside a quoted text. What has no printed form of its own, or would join
the character before it, is written by its number. -/
def quotedCharacter (c : Char) : Text :=
  match c with
  | '"' => "\\\""
  | '\\' => "\\\\"
  | '\x00' => "\\0"
  | '\t' => "\\t"
  | '\n' => "\\n"
  | '\r' => "\\r"
  | _ =>
    if CharacterTables.covers c.toNat CharacterTables.unprintable ||
        CharacterTables.covers c.toNat CharacterTables.graphemeExtenders then
      "\\u\x7b" ++ Nat.toDigits 16 c.toNat ++ "\x7d"
    else [c]

def quoted (t : Text) : Text := '"' :: t.flatMap quotedCharacter ++ ['"']

/-- What was found in a place of another shape. -/
inductive Found where
  | null
  | bool (b : Bool)
  | integer (i : Int)
  | float (x : Binary64)
  | string (t : Text)
  | sequence
  | map
deriving Repr, DecidableEq

namespace Found

def ofJson : Json → Found
  | .null => null
  | .bool b => bool b
  | .number (.integer i) => integer i
  | .number (.float x) => float x
  | .string t => string t
  | .array _ => sequence
  | .object _ => map

def description : Found → Text
  | null => "null"
  | bool b => "boolean `" ++ Text.ofBool b ++ "`"
  | integer i => "integer `" ++ Text.ofInt i ++ "`"
  | float x => "floating point `" ++ JsonWriter.writeNumber (.float x) ++ "`"
  | string t => "string " ++ quoted t
  | sequence => "sequence"
  | map => "map"

end Found

/-- Why a value is not the data that was asked for. -/
inductive DecodeError where
  | missingField (name : Text)
  | unknownField (name : Text) (expected : List Text)
  | unknownVariant (name : Text) (expected : List Text)
  | invalidType (found : Found) (expected : Text)
  | invalidValue (found : Found) (expected : Text)
  | invalidLength (length : Nat) (expected : Text)
  | noVariant (type : Text)
deriving Repr, DecidableEq

/-- The admissible names, as a list in words. -/
def alternatives : List Text → Text
  | [a] => "`" ++ a ++ "`"
  | [a, b] => "`" ++ a ++ "` or `" ++ b ++ "`"
  | names => "one of " ++ Text.join ", " (names.map fun a => ("`" ++ a ++ "`" : Text))

def DecodeError.message : DecodeError → Text
  | missingField name => "missing field `" ++ name ++ "`"
  | unknownField name expected =>
    "unknown field `" ++ name ++ "`, expected " ++ alternatives expected
  | unknownVariant name expected =>
    "unknown variant `" ++ name ++ "`, expected " ++ alternatives expected
  | invalidType found expected =>
    "invalid type: " ++ found.description ++ ", expected " ++ expected
  | invalidValue found expected =>
    "invalid value: " ++ found.description ++ ", expected " ++ expected
  | invalidLength length expected =>
    "invalid length " ++ Text.ofNat length ++ ", expected " ++ expected
  | noVariant type => "data did not match any variant of untagged enum " ++ type

/-- A reading of a type from JSON values. -/
abbrev Decoder (α : Type) := Json → Except DecodeError α

/-- Refuses a value by its type. -/
def refuse (expected : Text) (v : Json) : Except DecodeError α :=
  .error (.invalidType (.ofJson v) expected)

def text : Decoder Text
  | .string t => .ok t
  | v => refuse "a string" v

def boolean : Decoder Bool
  | .bool b => .ok b
  | v => refuse "a boolean" v

/-- Natural numbers of 32 bits. -/
def natural32 : Decoder Nat
  | .number (.integer i) =>
    if 0 ≤ i ∧ i.toNat < Nat.pow 2 32 then .ok i.toNat else .error (.invalidValue (.integer i) "u32")
  | v => refuse "u32" v

/-- The nearest floating-point number to an integer of 64 bits. -/
def nearest (i : Int) : Binary64 :=
  (Binary64.ofNat? (i < 0) i.natAbs).getD (.zero false)

def float : Decoder Binary64
  | .number (.integer i) => .ok (nearest i)
  | .number (.float x) => .ok x
  | v => refuse "f64" v

/-- A value, or null for none. -/
def optional (decode : Decoder α) : Decoder (Option α)
  | .null => .ok none
  | v => (decode v).map some

def list (decode : Decoder α) : Decoder (List α)
  | .array elements => elements.mapM decode
  | v => refuse "a sequence" v

def table (decode : Decoder α) : Decoder (Table α)
  | .object members => members.mapM fun (k, v) => do .ok (k, ← decode v)
  | v => refuse "a map" v

/-- Exactly two values. -/
def pair (decode : Decoder α) : Decoder (α × α)
  | .array [a, b] => do .ok (← decode a, ← decode b)
  | .array [a] => do
    let _ ← decode a
    .error (.invalidLength 1 "an array of length 2")
  | .array [] => .error (.invalidLength 0 "an array of length 2")
  | .array (a :: b :: rest) => do
    let _ ← decode a
    let _ ← decode b
    .error (.invalidLength (rest.length + 2) "fewer elements in array")
  | v => refuse "an array of length 2" v

/-- One of some named values. -/
def named (variants : List (Text × α)) (name : Text) : Except DecodeError α :=
  match variants.find? fun (n, _) => n = name with
  | some (_, value) => .ok value
  | none => .error (.unknownVariant name (variants.map Prod.fst))

/-- A named value, by its name alone or as the key of an object that holds null. -/
def variant (variants : List (Text × α)) : Decoder α
  | .string name => named variants name
  | .object [(name, .null)] => named variants name
  | .object [(name, v)] => do
    let _ ← named variants name
    refuse "unit" v
  | .object _ => .error (.invalidValue .map "map with a single key")
  | v => refuse "string or map" v

/-- A fault of a record as an object: a member that is not in order, or a field that is
not there. -/
inductive Failure where
  | member (key : Text) (cause : DecodeError)
  | missing (name : Text)
deriving Repr, DecidableEq

/-- The failure that is met first. -/
def Failure.earlier : Failure → Failure → Failure
  | member k cause, member l cause' => if l < k then member l cause' else member k cause
  | missing _, member l cause' => member l cause'
  | failure, _ => failure

def Failure.cause : Failure → DecodeError
  | member _ cause => cause
  | missing name => .missingField name

/-- A fault of a record as an array: an element that is not in order, or the position of
a field for which no element is left. -/
inductive Shortage where
  | element (cause : DecodeError)
  | endedAt (position : Nat)
deriving Repr, DecidableEq

/-- The fields of a record in their order, and how the record is read from them. -/
structure Fields (α : Type) where
  names : List Text
  ofMembers : Table Json → Except Failure α
  ofElements : List Json → Except Shortage (α × List Json)

namespace Fields

/-- A record without fields. -/
def nothing (value : α) : Fields α where
  names := []
  ofMembers _ := .ok value
  ofElements elements := .ok (value, elements)

/-- A field of a record, given the position of the field among them. -/
def field (position : Nat) (name : Text) (decode : Decoder α) (absent : Option α) : Fields α where
  names := [name]
  ofMembers members :=
    match members.find? name, absent with
    | some v, _ => (decode v).mapError (.member name)
    | none, some value => .ok value
    | none, none => .error (.missing name)
  ofElements
    | v :: rest =>
      match decode v with
      | .ok value => .ok (value, rest)
      | .error cause => .error (.element cause)
    | [] =>
      match absent with
      | some value => .ok (value, [])
      | none => .error (.endedAt position)

/-- A record extended by one field; the fields before it come first. -/
def andThen (before : Fields (α → β)) (name : Text) (decode : Decoder α) (absent : Option α) :
    Fields β :=
  let last := field before.names.length name decode absent
  { names := before.names ++ last.names
    ofMembers := fun members =>
      match before.ofMembers members, last.ofMembers members with
      | .ok f, .ok a => .ok (f a)
      | .error failure, .ok _ => .error failure
      | .ok _, .error failure => .error failure
      | .error failure, .error failure' => .error (failure.earlier failure')
    ofElements := fun elements => do
      let (f, rest) ← before.ofElements elements
      let (a, rest) ← last.ofElements rest
      .ok (f a, rest) }

/-- Extends a record by a field that must be there. -/
def required (before : Fields (α → β)) (name : Text) (decode : Decoder α) : Fields β :=
  before.andThen name decode none

/-- Extends a record by a field that has a value when it is absent. -/
def withDefault (before : Fields (α → β)) (name : Text) (decode : Decoder α) (absent : α) : Fields β :=
  before.andThen name decode (some absent)

end Fields

/-- Where the value of a record comes from. A record in a tagged value is read after the
tag was looked for, and too many elements are then reported in other words. -/
inductive Origin where
  | plain
  | tagged
deriving Repr, DecidableEq

/-- How records of a type are read. -/
structure Record (α : Type) where
  name : Text
  fields : Fields α
  /-- Whether members other than the fields are refused. -/
  strict : Bool
  origin : Origin

namespace Record

/-- A number of elements, in words. -/
def elementCount (n : Nat) : Text :=
  Text.ofNat n ++ if n = 1 then (" element" : Text) else " elements"

/-- The first member that is none of the fields. -/
def unknown? (record : Record α) (members : Table Json) : Option Failure :=
  if record.strict then
    (members.names.find? (· ∉ record.fields.names)).map fun k =>
      .member k (.unknownField k record.fields.names)
  else none

def ofMembers (record : Record α) (members : Table Json) : Except DecodeError α :=
  match record.fields.ofMembers members, record.unknown? members with
  | .ok value, none => .ok value
  | .ok _, some failure => .error failure.cause
  | .error failure, none => .error failure.cause
  | .error failure, some failure' => .error (failure.earlier failure').cause

def ofElements (record : Record α) (elements : List Json) : Except DecodeError α :=
  let count := record.fields.names.length
  match record.fields.ofElements elements with
  | .error (.element cause) => .error cause
  | .error (.endedAt position) =>
    .error (.invalidLength position ("struct " ++ record.name ++ " with " ++ elementCount count))
  | .ok (value, []) => .ok value
  | .ok (_, _ :: _) =>
    .error (.invalidLength elements.length
      (match record.origin with
        | .plain => "fewer elements in array"
        | .tagged => elementCount count ++ " in sequence"))

def decode (record : Record α) : Decoder α
  | .object members => record.ofMembers members
  | .array elements => record.ofElements elements
  | v => refuse ("struct " ++ record.name) v

end Record

end AssessmentItems.Decoding
