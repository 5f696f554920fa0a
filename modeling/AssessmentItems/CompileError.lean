import AssessmentItems.ContentRules
import AssessmentItems.JsonReader
import AssessmentItems.Slots
import AssessmentItems.Widget

/-!
Why an item was refused. Each failure names its cause, and the part of the item where
it stands by a path.
-/
namespace AssessmentItems

namespace Path

/-- The path of a member of what stands at `path`. -/
def member (path name : Text) : Text := path ++ "." ++ name

/-- The path of an element of the list at `path`. -/
def element (path : Text) (index : Nat) : Text := path ++ "[" ++ Text.ofNat index ++ "]"

end Path

/-- What is wrong with the structure of an item at some path. -/
inductive SchemaProblem where
  | shape (cause : Decoding.DecodeError)
  | widget (cause : WidgetProblem)
  | blank
  | noDeclarations
  | badResponseIdentifier (identifier : Text)
  | duplicateResponse (identifier : Text)
  | noCorrectValue
  | notSingle (count : Nat)
  | spacedIdentifier (value : Text)
  | notLiteral (value type : Text)
  | badSlotName (slot : Text)
  | slotDefinedTwice (slot : Text)
  | undeclaredResponse (identifier : Text)
  | choiceLimits (least most : Nat)
  | zeroLength
  | noChoices
  | badChoiceIdentifier (identifier : Text)
  | duplicateChoice (identifier : Text)
  | notAChoice (value response : Text)
  | inlineAtTop
  | blockInParagraph
deriving Repr, DecidableEq

def SchemaProblem.message : SchemaProblem → Text
  | shape cause => cause.message
  | widget cause => cause.message
  | blank => "must not be empty"
  | noDeclarations => "at least one response declaration is required"
  | badResponseIdentifier identifier =>
    "response identifier '" ++ identifier ++ "' must be non-empty without whitespace"
  | duplicateResponse identifier => "duplicate response identifier '" ++ identifier ++ "'"
  | noCorrectValue => "no correct value declared"
  | notSingle count =>
    "single cardinality takes exactly one correct value, got " ++ Text.ofNat count
  | spacedIdentifier value =>
    "identifier value '" ++ value ++
      "' contains whitespace; use the choice identifier, not its label"
  | notLiteral value type => "'" ++ value ++ "' is not a valid " ++ type ++ " value"
  | badSlotName slot => "slot name '" ++ slot ++ "' must match [A-Za-z0-9_-]+"
  | slotDefinedTwice slot =>
    "slot '" ++ slot ++ "' is defined as both a widget and an interaction"
  | undeclaredResponse identifier => "no response declaration named '" ++ identifier ++ "'"
  | choiceLimits least most =>
    "minChoices " ++ Text.ofNat least ++ " exceeds maxChoices " ++ Text.ofNat most
  | zeroLength => "must be greater than zero"
  | noChoices => "at least one choice is required"
  | badChoiceIdentifier identifier =>
    "choice identifier '" ++ identifier ++ "' must be non-empty without whitespace"
  | duplicateChoice identifier => "duplicate choice identifier '" ++ identifier ++ "'"
  | notAChoice value response =>
    "correct value '" ++ value ++ "' of '" ++ response ++ "' is not one of the choices"
  | inlineAtTop => "inline node at block level; wrap it in a paragraph"
  | blockInParagraph => "block node inside a paragraph"

/-- What comes in kinds that are told apart by a name. -/
inductive Category where
  | interaction
  | widget
deriving Repr, DecidableEq

def Category.name : Category → Text
  | interaction => "interaction"
  | widget => "widget"

open ContentRules Slots

inductive CompileError where
  | schema (path : Text) (problem : SchemaProblem)
  | content (placement : Placement) (path : Text) (violation : Violation)
  | slots (cause : SlotError)
  | unsupported (category : Category) (name : Text)
  | widgetRender (slot message : Text)
  | unreadable (fault : JsonFault)
deriving Repr, DecidableEq

/-- `describe` words what is wrong with a text that is not the JSON that was asked for. -/
def CompileError.message (describe : JsonFault → Text) : CompileError → Text
  | schema path problem => "Schema violation at " ++ path ++ ": " ++ problem.message
  | content placement path violation =>
    "Content model violation (" ++ placement.name ++ ") in " ++ path ++ ": " ++
      violation.rule.name ++ ": `" ++ violation.snippet ++ "`"
  | slots cause => "Slot resolution failed: " ++ cause.message
  | unsupported category name => "Unsupported " ++ category.name ++ " variant: " ++ name
  | widgetRender slot message =>
    "Widget in slot '" ++ slot ++ "' failed to render: " ++ message
  | unreadable fault => "Serialization error: " ++ describe fault

end AssessmentItems
