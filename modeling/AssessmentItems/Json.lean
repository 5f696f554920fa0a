import AssessmentItems.ShortestDigits
import AssessmentItems.Table

/-!
JSON values. A value as read keeps the members of an object in the order of its text,
repetitions included; in an ordered value the members ascend by key and each key
occurs once. An ordered value stands for the data that a text denotes.
-/
namespace AssessmentItems

/-- A number is an integer or a finite floating-point number, by how it is written. -/
inductive JsonNumber where
  | integer (i : Int)
  | float (x : Binary64)
deriving Repr, DecidableEq

inductive Json where
  | null
  | bool (b : Bool)
  | number (n : JsonNumber)
  | string (t : Text)
  | array (elements : List Json)
  | object (members : List (Text × Json))
deriving Repr

namespace Json

mutual

/-- The value with the members of every object in ascending order. -/
def ordered : Json → Json
  | .array elements => .array (orderedElements elements)
  | .object members => .object (Table.ofEntries (orderedMembers members))
  | v => v

def orderedElements : List Json → List Json
  | [] => []
  | v :: rest => ordered v :: orderedElements rest

def orderedMembers : List (Text × Json) → List (Text × Json)
  | [] => []
  | (k, v) :: rest => (k, ordered v) :: orderedMembers rest

end

/-- The member of an object. -/
def get? (key : Text) : Json → Option Json
  | .object members => Table.find? key members
  | _ => none

def text? : Json → Option Text
  | .string t => some t
  | _ => none

end Json
end AssessmentItems
