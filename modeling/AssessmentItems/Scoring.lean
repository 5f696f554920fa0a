import AssessmentItems.AnswerClass
import AssessmentItems.Escaping
import AssessmentItems.Interaction
import AssessmentItems.Response

/-!
What a document says about responses: which values are accepted, and how they are
scored. All responses right score one and select the feedback for a correct answer;
anything else scores nothing and selects the other.
-/
namespace AssessmentItems.Scoring

open Escaping

/-- The values of a list, each at the first place where it stands. -/
def distinct (values : List Text) : List Text :=
  values.foldl (fun seen value => if value ∈ seen then seen else seen ++ [value]) []

/-- The spellings of some values, in ascending order. -/
def spellings (values : List Text) : List Text :=
  Text.ascending (values.flatMap AnswerClass.expand)

/-- The values that count as correct, declared values first. Identifiers are keys and
ordered responses are exact sequences, so these have no other spellings; a numeric type
keeps those spellings that are literals of it. -/
def accepted (d : ResponseDeclaration) : List Text :=
  if d.cardinality = .ordered ∨ d.baseType = .identifier then d.values
  else
    distinct d.values ++
      (spellings d.values).filter fun value => d.baseType.accepts value && value ∉ d.values

/-- The outcome variable of the score. -/
def score : Text := "SCORE"

/-- The outcome variable that selects the feedback. -/
def feedback : Text := "FEEDBACK"

def valueLine (value : Text) : Text := "    <qti-value>" ++ escapeText value ++ "</qti-value>"

def declarationMarkup (d : ResponseDeclaration) : Text :=
  Text.groupedLines [
    ["<qti-response-declaration identifier=\"" ++ escapeAttribute d.identifier ++
        "\" cardinality=\"" ++ d.cardinality.name ++ "\" base-type=\"" ++ d.baseType.name ++ "\">",
      "  <qti-correct-response>"],
    (accepted d).map valueLine,
    ["  </qti-correct-response>", "</qti-response-declaration>"]]

def declarationsMarkup (ds : List ResponseDeclaration) : Text :=
  Text.lines (ds.map declarationMarkup)

/-- Ordered responses are matched as a whole, others by membership. -/
def operator : Cardinality → Text
  | .ordered => "qti-match"
  | .single | .multiple => "qti-member"

def variableMarkup (identifier : Text) : Text :=
  "<qti-variable identifier=\"" ++ escapeAttribute identifier ++ "\"/>"

/-- The comparison of a response with its accepted values. -/
def comparisonLines (d : ResponseDeclaration) : List Text :=
  ["        <" ++ operator d.cardinality ++ ">",
    "          " ++ variableMarkup d.identifier,
    "          <qti-correct identifier=\"" ++ escapeAttribute d.identifier ++ "\"/>",
    "        </" ++ operator d.cardinality ++ ">"]

/-- Sets an outcome variable to a value. -/
def outcomeLine (outcome type value : Text) : Text :=
  "      <qti-set-outcome-value identifier=\"" ++ outcome ++ "\"><qti-base-value base-type=\"" ++
    type ++ "\">" ++ value ++ "</qti-base-value></qti-set-outcome-value>"

def outcomeLines (points selected : Text) : List Text :=
  [outcomeLine score "float" points, outcomeLine feedback "identifier" selected]

/-- The responses whose picked options select inline feedback: those of the given
identifiers that are not ordered. -/
def selectors (inlineFeedback : List Text) (ds : List ResponseDeclaration) :
    List ResponseDeclaration :=
  ds.filter fun d => d.cardinality ≠ .ordered && d.identifier ∈ inlineFeedback

/-- Collects the picked options that have feedback of their own. -/
def selectorLines (ds : List ResponseDeclaration) : List Text :=
  if ds.isEmpty then []
  else
    List.flatten [
      ["  <qti-set-outcome-value identifier=\"" ++ Interaction.feedbackInline ++ "\">",
        "    <qti-multiple>"],
      ds.map fun d => "      " ++ variableMarkup d.identifier,
      ["    </qti-multiple>", "  </qti-set-outcome-value>"]]

def processingMarkup (ds : List ResponseDeclaration) (inlineFeedback : List Text) : Text :=
  Text.groupedLines [
    ["<qti-response-processing>"],
    selectorLines (selectors inlineFeedback ds),
    ["  <qti-response-condition>", "    <qti-response-if>", "      <qti-and>"],
    ds.flatMap comparisonLines,
    ["      </qti-and>"],
    outcomeLines "1" "CORRECT",
    ["    </qti-response-if>", "    <qti-response-else>"],
    outcomeLines "0" "INCORRECT",
    ["    </qti-response-else>", "  </qti-response-condition>", "</qti-response-processing>"]]

end AssessmentItems.Scoring
