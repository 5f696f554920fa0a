import AssessmentItems.Decoding

/-!
Content that is authored as markup, or as a tree of nodes that stands for markup.
-/
namespace AssessmentItems

inductive Node where
  | text (content : Text)
  | math (markup : Text)
  | paragraph (content : List Node)
  | inlineSlot (slot : Text)
  | blockSlot (slot : Text)
deriving Repr

/-- Whether a node belongs inside a paragraph. -/
def Node.isInline : Node → Bool
  | text _ | math _ | inlineSlot _ => true
  | paragraph _ | blockSlot _ => false

inductive Content where
  | markup (t : Text)
  | nodes (ns : List Node)
deriving Repr

namespace Node

/-- The kind of a node, by which its JSON form is tagged. -/
inductive Kind where
  | text
  | math
  | paragraph
  | inlineSlot
  | blockSlot
deriving Repr, DecidableEq

namespace Kind

def all : List Kind := [text, math, paragraph, inlineSlot, blockSlot]

def name : Kind → Text
  | text => "text"
  | math => "math"
  | paragraph => "paragraph"
  | inlineSlot => "inlineSlot"
  | blockSlot => "blockSlot"

/-- The one field of a node of the kind. -/
def field : Kind → Text
  | text => "content"
  | math => "mathml"
  | paragraph => "content"
  | inlineSlot => "slot"
  | blockSlot => "slot"

/-- A kind is given by its name or by its number. -/
def ofJson? : Json → Option Kind
  | .string t => all.find? fun kind => kind.name = t
  | .number (.integer i) => if 0 ≤ i then all[i.toNat]? else none
  | _ => none

/-- The node of a kind from its field, which is also given as nodes if it holds nodes. -/
def build? (kind : Kind) (field : Json) (children : Option (List Node)) : Option Node :=
  match kind, field with
  | text, .string t => some (.text t)
  | math, .string t => some (.math t)
  | paragraph, _ => children.map .paragraph
  | inlineSlot, .string t => some (.inlineSlot t)
  | blockSlot, .string t => some (.blockSlot t)
  | _, _ => none

end Kind

mutual

/-- A node is an object with its kind under `type`, or the kind and the field in an
array. Other members of the object are ignored. -/
def ofJson? : Json → Option Node
  | .object members => do
    let kind ← (Table.find? "type" members).bind Kind.ofJson?
    let (field, children) ← Table.find? kind.field (withNodes members)
    kind.build? field children
  | .array [tag, field] => do
    let kind ← Kind.ofJson? tag
    kind.build? field (listOfJson? field)
  | _ => none

/-- The nodes of an array. -/
def listOfJson? : Json → Option (List Node)
  | .array elements => allOfJson? elements
  | _ => none

def allOfJson? : List Json → Option (List Node)
  | [] => some []
  | v :: rest => do
    let node ← ofJson? v
    let nodes ← allOfJson? rest
    some (node :: nodes)

/-- Members with their values, read as nodes where they are nodes. -/
def withNodes : List (Text × Json) → List (Text × Json × Option (List Node))
  | [] => []
  | (k, v) :: rest => (k, v, listOfJson? v) :: withNodes rest

end

mutual

def toJson : Node → Json
  | text content => .object [("type", .string "text"), ("content", .string content)]
  | math markup => .object [("type", .string "math"), ("mathml", .string markup)]
  | paragraph content =>
    .object [("type", .string "paragraph"), ("content", .array (listToJson content))]
  | inlineSlot slot => .object [("type", .string "inlineSlot"), ("slot", .string slot)]
  | blockSlot slot => .object [("type", .string "blockSlot"), ("slot", .string slot)]

def listToJson : List Node → List Json
  | [] => []
  | node :: rest => toJson node :: listToJson rest

end

end Node

namespace Content

def decode : Decoding.Decoder Content
  | .string t => .ok (.markup t)
  | v =>
    match Node.listOfJson? v with
    | some ns => .ok (.nodes ns)
    | none => .error (.noVariant "Content")

def toJson : Content → Json
  | markup t => .string t
  | nodes ns => .array (Node.listToJson ns)

end Content
end AssessmentItems
