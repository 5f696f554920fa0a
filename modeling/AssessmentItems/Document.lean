import AssessmentItems.Configuration
import AssessmentItems.Scoring

/-!
Documents: the text that stands for a compiled item.
-/
namespace AssessmentItems

/-- The parts of a document, in their markup where they have one. -/
structure Document where
  identifier : Text
  title : Text
  configuration : Configuration
  declarations : Text
  body : Text
  correct : Text
  incorrect : Text
  processing : Text
deriving Repr, DecidableEq

namespace Document

open Escaping

def itemNamespace : Text := "http://www.imsglobal.org/xsd/imsqtiasi_v3p0"

def instanceNamespace : Text := "http://www.w3.org/2001/XMLSchema-instance"

def schemaLocation : Text :=
  "https://purl.imsglobal.org/spec/qti/v3p0/schema/xsd/imsqti_asiv3p0_v1p0.xsd"

def rootTag (d : Document) : Text :=
  "<qti-assessment-item xmlns=\"" ++ itemNamespace ++ "\" xmlns:xsi=\"" ++ instanceNamespace ++
    "\" xsi:schemaLocation=\"" ++ itemNamespace ++ " " ++ schemaLocation ++
    "\" identifier=\"" ++ escapeAttribute d.identifier ++
    "\" title=\"" ++ escapeAttribute d.title ++
    "\" time-dependent=\"" ++ Text.ofBool d.configuration.timeDependent ++
    "\" xml:lang=\"" ++ escapeAttribute d.configuration.language ++ "\">"

/-- The declaration of an outcome variable. -/
def outcomeTag (outcome cardinality type : Text) : Text :=
  "<qti-outcome-declaration identifier=\"" ++ outcome ++ "\" cardinality=\"" ++ cardinality ++
    "\" base-type=\"" ++ type ++ "\""

/-- Feedback that is shown when the outcome selects it. -/
def feedbackBlock (identifier markup : Text) : Text :=
  "<qti-feedback-block outcome-identifier=\"" ++ Scoring.feedback ++ "\" identifier=\"" ++
    identifier ++ "\" show-hide=\"show\"><qti-content-body>" ++ markup ++
    "</qti-content-body></qti-feedback-block>"

def text (d : Document) : Text :=
  Text.lines [
    "<?xml version=\"1.0\" encoding=\"UTF-8\"?>",
    d.rootTag,
    d.declarations,
    outcomeTag Scoring.score "single" "float" ++
      "><qti-default-value><qti-value>0</qti-value></qti-default-value></qti-outcome-declaration>",
    outcomeTag Scoring.feedback "single" "identifier" ++ "/>",
    outcomeTag Interaction.feedbackInline "multiple" "identifier" ++ "/>",
    "<qti-item-body>",
    d.body,
    feedbackBlock "CORRECT" d.correct,
    feedbackBlock "INCORRECT" d.incorrect,
    "</qti-item-body>",
    d.processing,
    "</qti-assessment-item>"]

end Document
end AssessmentItems
