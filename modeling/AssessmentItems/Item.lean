import AssessmentItems.CompileError
import AssessmentItems.Content
import AssessmentItems.Digest
import AssessmentItems.Interaction
import AssessmentItems.Response

/-!
Assessment items and their JSON form. The identity of an item is the digest of its
canonical text, in which members ascend and defaults are filled in.
-/
namespace AssessmentItems

structure Feedback where
  correct : Content
  incorrect : Content
deriving Repr

/-- A task: what is shown, the responses it asks for, the widgets and interactions in
its slots, and what is shown after a response. -/
structure AssessmentItem where
  identifier : Text
  title : Text
  body : Content
  responseDeclarations : List ResponseDeclaration
  widgets : Table WidgetSpec
  interactions : Table Interaction
  feedback : Feedback
deriving Repr

open Decoding

namespace Feedback

def record : Record Feedback where
  name := "Feedback"
  fields := Fields.nothing Feedback.mk
    |>.required "correct" Content.decode
    |>.required "incorrect" Content.decode
  strict := true
  origin := .plain

def toJson (f : Feedback) : Json :=
  .object [("correct", f.correct.toJson), ("incorrect", f.incorrect.toJson)]

end Feedback

namespace AssessmentItem

def record : Record AssessmentItem where
  name := "AssessmentItem"
  fields := Fields.nothing AssessmentItem.mk
    |>.required "identifier" text
    |>.required "title" text
    |>.required "body" Content.decode
    |>.withDefault "responseDeclarations" (list ResponseDeclaration.record.decode) []
    |>.withDefault "widgets" (table WidgetSpec.decode) []
    |>.withDefault "interactions" (table Interaction.decode) []
    |>.required "feedback" Feedback.record.decode
  strict := true
  origin := .plain

/-- The kind of an entry, if it is an object that names one. -/
def entryKind? (entry : Json) : Option Text := (entry.get? "type").bind Json.text?

/-- The kinds that the entries of a section name. -/
def sectionKinds (name : Text) (v : Json) : List Text :=
  match v.get? name with
  | some (.object entries) => entries.filterMap fun (_, entry) => entryKind? entry
  | _ => []

/-- The first kind of an interaction, or else of a widget, that there is not. -/
def unsupported? (v : Json) : Option (Category × Text) :=
  (((sectionKinds "interactions" v).find? (· ∉ Interaction.kinds)).map (Category.interaction, ·)) <|>
    ((sectionKinds "widgets" v).find? fun name => (WidgetKind.ofName? name).isNone).map
      (Category.widget, ·)

/-- Reads an item from an ordered value. Unknown kinds are reported before anything else
about the structure. -/
def ofJson (v : Json) : Except CompileError AssessmentItem :=
  match unsupported? v with
  | some (category, name) => .error (.unsupported category name)
  | none => (record.decode v).mapError fun cause => .schema "item" (.shape cause)

def ofText (t : Text) : Except CompileError AssessmentItem := do
  ofJson (← (JsonReader.read t).mapError .unreadable)

/-- The entries of a table with their values in another form. -/
def entries (encode : α → Json) (table : Table α) : Json :=
  .object (table.map fun (name, value) => (name, encode value))

def toJson (item : AssessmentItem) : Json :=
  .object [("identifier", .string item.identifier), ("title", .string item.title),
    ("body", item.body.toJson),
    ("responseDeclarations", .array (item.responseDeclarations.map ResponseDeclaration.toJson)),
    ("widgets", entries WidgetSpec.toJson item.widgets),
    ("interactions", entries Interaction.toJson item.interactions),
    ("feedback", item.feedback.toJson)]

def canonical (item : AssessmentItem) : Text := JsonWriter.canonical item.toJson

/-- The digest of the canonical text. -/
def digest (item : AssessmentItem) : Text := Digest.sha256 item.canonical.bytes

end AssessmentItem
end AssessmentItems
