import AssessmentItems.ContentMarkup
import AssessmentItems.Document
import AssessmentItems.Fragments
import AssessmentItems.Structure

/-!
The compiler. An item is checked as a whole before anything is rendered: its structure,
its widgets, and its fragments. Then widgets and interactions fill a table of slots, body
and feedback are resolved against it, and a document is put together.
-/
namespace AssessmentItems

/-- What a compilation depends on beside the item. -/
structure Compiler where
  configuration : Configuration
  renderer : Renderer

namespace Compiler

/-- The compiler with default settings, which renders diagrams as empty frames. -/
def standard : Compiler := ⟨.standard, Widget.placeholder⟩

/-- The widget of a specification. -/
def widget (slot : Text) (spec : WidgetSpec) : Except CompileError Widget :=
  match WidgetKind.ofName? spec.kind with
  | none => .error (.unsupported .widget spec.kind)
  | some kind =>
    (Widget.ofParameters kind spec.parameters).mapError fun problem =>
      .schema (Path.member "widgets" slot) (.widget problem)

def widgets (item : AssessmentItem) : Except CompileError (Table Widget) :=
  item.widgets.mapM fun (slot, spec) => do .ok (slot, ← widget slot spec)

/-- All that is checked before fragments are. -/
def prepare (item : AssessmentItem) : Except CompileError (Table Widget) := do
  Structure.check item
  widgets item

/-- Checks structure, widgets and fragments, and answers the widgets. -/
def validate (item : AssessmentItem) : Counted (Table Widget) := do
  let ws ← Counted.unchecked (prepare item)
  Counted.ofFragments (Fragment.ofItem item)
  pure ws

open Slots

/-- What fills the slot of a widget. -/
def widgetFilling (renderer : Renderer) (item : AssessmentItem) (slot : Text) (w : Widget) :
    Except CompileError Text :=
  match renderer w with
  | .ok rendered => .ok (w.embed ((Table.find? slot item.widgets).bind WidgetSpec.alt) rendered)
  | .error message => .error (.widgetRender slot message)

/-- The fillings of all slots; a widget and an interaction do not share a slot. -/
def slotTable (renderer : Renderer) (item : AssessmentItem) (ws : Table Widget) :
    Except CompileError SlotTable := do
  let fillings ← ws.mapM fun (slot, w) => do .ok (slot, ← widgetFilling renderer item slot w)
  .ok (Table.ofEntries (fillings ++ item.interactions.map fun (slot, i) => (slot, i.markup)))

/-- The final markup of a content. -/
def resolveContent (slots : SlotTable) (path : Text) (content : Content) :
    Except CompileError Text := do
  (resolve slots (← ContentMarkup.render slots path content)).mapError .slots

/-- The identifiers of the responses whose options have feedback of their own. -/
def inlineFeedback (item : AssessmentItem) : List Text :=
  (item.interactions.filter fun (_, i) => i.hasInlineFeedback).map fun (_, i) =>
    i.responseIdentifier

/-- The document of an item that was checked. -/
def assemble (c : Compiler) (item : AssessmentItem) (ws : Table Widget) :
    Except CompileError Document := do
  let slots ← slotTable c.renderer item ws
  let body ← resolveContent slots "body" item.body
  let correct ← resolveContent slots "feedback.correct" item.feedback.correct
  let incorrect ← resolveContent slots "feedback.incorrect" item.feedback.incorrect
  .ok {
    identifier := item.identifier
    title := item.title
    configuration := c.configuration
    declarations := Scoring.declarationsMarkup item.responseDeclarations
    body := body
    correct := correct
    incorrect := incorrect
    processing := Scoring.processingMarkup item.responseDeclarations (inlineFeedback item) }

/-- Checks an item and puts its document together. -/
def compile (c : Compiler) (item : AssessmentItem) : Counted Text := do
  let ws ← validate item
  Counted.unchecked ((c.assemble item ws).map Document.text)

/-- A document with what identifies it and the item that it was made from. -/
structure Manifest where
  identifier : Text
  engineVersion : Text
  itemHash : Text
  documentHash : Text
  document : Text
deriving Repr, DecidableEq

def version : Text := "1.0.0"

def manifest (c : Compiler) (item : AssessmentItem) : Counted Manifest := do
  let document ← c.compile item
  pure {
    identifier := item.identifier
    engineVersion := version
    itemHash := item.digest
    documentHash := Digest.sha256 document.bytes
    document := document }

def Manifest.toJson (m : Manifest) : Json :=
  .object [("identifier", .string m.identifier), ("engine_version", .string m.engineVersion),
    ("item_hash", .string m.itemHash), ("document_hash", .string m.documentHash),
    ("document", .string m.document)]

end Compiler
end AssessmentItems
