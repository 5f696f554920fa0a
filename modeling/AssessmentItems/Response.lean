import AssessmentItems.Decoding
import AssessmentItems.Literals

/-!
The declarations of an item's responses: how many values a response takes, of which
type they are, and which are correct. A correct value is given as text or as a number,
which stands for its text.
-/
namespace AssessmentItems

inductive Cardinality where
  | single
  | multiple
  | ordered
deriving Repr, DecidableEq

def Cardinality.name : Cardinality → Text
  | single => "single"
  | multiple => "multiple"
  | ordered => "ordered"

inductive BaseType where
  | identifier
  | string
  | integer
  | float
deriving Repr, DecidableEq

namespace BaseType

def name : BaseType → Text
  | identifier => "identifier"
  | string => "string"
  | integer => "integer"
  | float => "float"

/-- Whether a text is a literal of the type. -/
def accepts (b : BaseType) (t : Text) : Bool :=
  match b with
  | identifier => Literals.isIdentifier t
  | string => true
  | integer => Literals.isInteger t
  | float => Literals.isFloat t

end BaseType

/-- A correct value as authored. -/
inductive Scalar where
  | text (t : Text)
  | number (n : JsonNumber)
deriving Repr, DecidableEq

def Scalar.value : Scalar → Text
  | text t => t
  | number n => JsonWriter.writeNumber n

/-- One correct value, or a list of them. -/
inductive CorrectValue where
  | scalar (s : Scalar)
  | list (ss : List Scalar)
deriving Repr, DecidableEq

def CorrectValue.values : CorrectValue → List Text
  | scalar s => [s.value]
  | list ss => ss.map Scalar.value

structure ResponseDeclaration where
  identifier : Text
  cardinality : Cardinality
  baseType : BaseType
  correct : CorrectValue
deriving Repr, DecidableEq

def ResponseDeclaration.values (d : ResponseDeclaration) : List Text := d.correct.values

open Decoding

def Cardinality.decode : Decoder Cardinality :=
  variant ([.single, .multiple, .ordered].map fun c => (c.name, c))

def BaseType.decode : Decoder BaseType :=
  variant ([.identifier, .string, .integer, .float].map fun b => (b.name, b))

namespace Scalar

def ofJson? : Json → Option Scalar
  | .string t => some (text t)
  | .number n => some (number n)
  | _ => none

def toJson : Scalar → Json
  | text t => .string t
  | number n => .number n

end Scalar

namespace CorrectValue

def ofJson? : Json → Option CorrectValue
  | .array elements => (elements.mapM Scalar.ofJson?).map list
  | v => (Scalar.ofJson? v).map scalar

def decode (v : Json) : Except DecodeError CorrectValue :=
  match ofJson? v with
  | some correct => .ok correct
  | none => .error (.noVariant "CorrectValue")

def toJson : CorrectValue → Json
  | scalar s => s.toJson
  | list ss => .array (ss.map Scalar.toJson)

end CorrectValue

namespace ResponseDeclaration

def record : Record ResponseDeclaration where
  name := "ResponseDeclaration"
  fields := Fields.nothing ResponseDeclaration.mk
    |>.required "identifier" text
    |>.required "cardinality" Cardinality.decode
    |>.required "baseType" BaseType.decode
    |>.required "correct" CorrectValue.decode
  strict := true
  origin := .plain

def toJson (d : ResponseDeclaration) : Json :=
  .object [("identifier", .string d.identifier), ("cardinality", .string d.cardinality.name),
    ("baseType", .string d.baseType.name), ("correct", d.correct.toJson)]

end ResponseDeclaration
end AssessmentItems
