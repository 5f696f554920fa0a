import AssessmentItems.Json

/-!
The text of a JSON value: compact, without white space, or with one member or element
to a line. The canonical text of a value is the compact text of the ordered value.
-/
namespace AssessmentItems.JsonWriter

/-- Numbers from 1e-5 up to 1e16 are written without an exponent, and integers among
them with `.0`, which tells them from integer literals. -/
def floatLayout : ShortestDigits.Layout where
  tieToEven := true
  positional e := -5 ≤ e && e < 16
  pointZero := true

def writeNumber : JsonNumber → Text
  | .integer i => Text.ofInt i
  | .float x => ShortestDigits.write floatLayout x

/-- A character inside a string; controls are escaped, by name where they have one. -/
def writeCharacter (c : Char) : Text :=
  match c with
  | '"' => "\\\""
  | '\\' => "\\\\"
  | '\x08' => "\\b"
  | '\x0c' => "\\f"
  | '\n' => "\\n"
  | '\r' => "\\r"
  | '\t' => "\\t"
  | _ =>
    if c.toNat < 32 then
      ['\\', 'u', '0', '0', Nat.digitChar (c.toNat / 16), Nat.digitChar (c.toNat % 16)]
    else [c]

def writeString (t : Text) : Text := '"' :: t.flatMap writeCharacter ++ ['"']

mutual

def write : Json → Text
  | .null => "null"
  | .bool b => Text.ofBool b
  | .number n => writeNumber n
  | .string t => writeString t
  | .array elements => '[' :: writeElements elements ++ [']']
  | .object members => '{' :: writeMembers members ++ ['}']

def writeElements : List Json → Text
  | [] => []
  | [v] => write v
  | v :: rest => write v ++ ',' :: writeElements rest

def writeMembers : List (Text × Json) → Text
  | [] => []
  | [(k, v)] => writeString k ++ ':' :: write v
  | (k, v) :: rest => writeString k ++ ':' :: write v ++ ',' :: writeMembers rest

end

def canonical (v : Json) : Text := write v.ordered

/-- A line break and the indentation of a level. -/
def newLine (level : Nat) : Text := '\n' :: List.replicate (2 * level) ' '

mutual

/-- One member or element to a line, two spaces deeper than what holds it. -/
def writePretty (level : Nat) : Json → Text
  | .array (v :: rest) =>
    '[' :: newLine (level + 1) ++ prettyElements (level + 1) (v :: rest) ++ newLine level ++ [']']
  | .object (m :: rest) =>
    '{' :: newLine (level + 1) ++ prettyMembers (level + 1) (m :: rest) ++ newLine level ++ ['}']
  | v => write v

def prettyElements (level : Nat) : List Json → Text
  | [] => []
  | [v] => writePretty level v
  | v :: rest => writePretty level v ++ ',' :: newLine level ++ prettyElements level rest

def prettyMembers (level : Nat) : List (Text × Json) → Text
  | [] => []
  | [(k, v)] => writeString k ++ ':' :: ' ' :: writePretty level v
  | (k, v) :: rest =>
    writeString k ++ ':' :: ' ' :: writePretty level v ++ ',' :: newLine level ++
      prettyMembers level rest

end

def pretty (v : Json) : Text := writePretty 0 v

end AssessmentItems.JsonWriter
