import AssessmentItems.Decoding
import AssessmentItems.Escaping

/-!
Interactions: how a candidate gives a response. Each kind has a JSON form, tagged by
the name of the kind, and a markup form.
-/
namespace AssessmentItems

/-- An option of a choice or order interaction. -/
structure Choice where
  identifier : Text
  content : Text
  feedback : Option Text
deriving Repr, DecidableEq

/-- An option of an inline choice. -/
structure InlineOption where
  identifier : Text
  content : Text
deriving Repr, DecidableEq

/-- Options are picked; a greatest number of zero sets no limit. -/
structure ChoiceInteraction where
  responseIdentifier : Text
  shuffle : Bool
  maxChoices : Nat
  minChoices : Nat
  prompt : Option Text
  choices : List Choice
deriving Repr, DecidableEq

/-- Options are put in order. -/
structure OrderInteraction where
  responseIdentifier : Text
  shuffle : Bool
  prompt : Option Text
  choices : List Choice
deriving Repr, DecidableEq

/-- A text is typed in. -/
structure TextEntry where
  responseIdentifier : Text
  expectedLength : Option Nat
deriving Repr, DecidableEq

/-- One of the options is picked inside a line of text. -/
structure InlineChoice where
  responseIdentifier : Text
  shuffle : Bool
  choices : List InlineOption
deriving Repr, DecidableEq

inductive Interaction where
  | choice (i : ChoiceInteraction)
  | order (i : OrderInteraction)
  | textEntry (i : TextEntry)
  | inlineChoice (i : InlineChoice)
deriving Repr, DecidableEq

namespace Interaction

/-- The names of the kinds, in the order in which they are listed. -/
def kinds : List Text := ["choice", "order", "textEntry", "inlineChoice"]

def kind : Interaction → Text
  | choice _ => "choice"
  | order _ => "order"
  | textEntry _ => "textEntry"
  | inlineChoice _ => "inlineChoice"

def responseIdentifier : Interaction → Text
  | choice i => i.responseIdentifier
  | order i => i.responseIdentifier
  | textEntry i => i.responseIdentifier
  | inlineChoice i => i.responseIdentifier

/-- The identifiers of the options, if there are options to pick from. -/
def choiceIdentifiers : Interaction → Option (List Text)
  | choice i => some (i.choices.map Choice.identifier)
  | order i => some (i.choices.map Choice.identifier)
  | textEntry _ => none
  | inlineChoice i => some (i.choices.map InlineOption.identifier)

/-- Whether any option has feedback of its own. -/
def hasInlineFeedback : Interaction → Bool
  | choice i => i.choices.any (·.feedback.isSome)
  | order i => i.choices.any (·.feedback.isSome)
  | textEntry _ => false
  | inlineChoice _ => false

end Interaction

open Decoding

namespace Choice

def record : Record Choice where
  name := "Choice"
  fields := Fields.nothing Choice.mk
    |>.required "identifier" text
    |>.required "content" text
    |>.withDefault "feedback" (optional text) none
  strict := true
  origin := .tagged

def toJson (c : Choice) : Json :=
  .object [("identifier", .string c.identifier), ("content", .string c.content),
    ("feedback", (c.feedback.map Json.string).getD .null)]

end Choice

namespace InlineOption

def record : Record InlineOption where
  name := "InlineChoice"
  fields := Fields.nothing InlineOption.mk
    |>.required "identifier" text
    |>.required "content" text
  strict := true
  origin := .tagged

def toJson (c : InlineOption) : Json :=
  .object [("identifier", .string c.identifier), ("content", .string c.content)]

end InlineOption

def ChoiceInteraction.record : Record ChoiceInteraction where
  name := "ChoiceInteraction"
  fields := Fields.nothing ChoiceInteraction.mk
    |>.required "responseIdentifier" text
    |>.withDefault "shuffle" boolean true
    |>.withDefault "maxChoices" natural32 1
    |>.withDefault "minChoices" natural32 1
    |>.withDefault "prompt" (optional text) none
    |>.required "choices" (list Choice.record.decode)
  strict := true
  origin := .tagged

def OrderInteraction.record : Record OrderInteraction where
  name := "OrderInteraction"
  fields := Fields.nothing OrderInteraction.mk
    |>.required "responseIdentifier" text
    |>.withDefault "shuffle" boolean true
    |>.withDefault "prompt" (optional text) none
    |>.required "choices" (list Choice.record.decode)
  strict := true
  origin := .tagged

def TextEntry.record : Record TextEntry where
  name := "TextEntryInteraction"
  fields := Fields.nothing TextEntry.mk
    |>.required "responseIdentifier" text
    |>.withDefault "expectedLength" (optional natural32) none
  strict := true
  origin := .tagged

def InlineChoice.record : Record InlineChoice where
  name := "InlineChoiceInteraction"
  fields := Fields.nothing InlineChoice.mk
    |>.required "responseIdentifier" text
    |>.withDefault "shuffle" boolean false
    |>.required "choices" (list InlineOption.record.decode)
  strict := true
  origin := .tagged

namespace Interaction

/-- The kinds with the readings of their interactions. -/
def readings : List (Text × Decoder Interaction) :=
  [("choice", fun v => (ChoiceInteraction.record.decode v).map choice),
    ("order", fun v => (OrderInteraction.record.decode v).map order),
    ("textEntry", fun v => (TextEntry.record.decode v).map textEntry),
    ("inlineChoice", fun v => (InlineChoice.record.decode v).map inlineChoice)]

/-- The reading of the kind that a tag names. -/
def readingOf (tag : Json) : Except DecodeError (Decoder Interaction) :=
  match tag with
  | .string name => named readings name
  | v => refuse "variant identifier" v

/-- An object with the kind under `type`, or an array that begins with the kind. -/
def decode : Decoder Interaction
  | .object members =>
    match Table.find? "type" members with
    | none => .error (.missingField "type")
    | some tag => do
      let reading ← readingOf tag
      reading (.object (Table.erase "type" members))
  | .array [] => .error (.missingField "type")
  | .array (tag :: fields) => do
    let reading ← readingOf tag
    reading (.array fields)
  | v => refuse "internally tagged enum Interaction" v

def optionalToJson (encode : α → Json) : Option α → Json
  | some a => encode a
  | none => .null

def toJson : Interaction → Json
  | choice i =>
    .object [("type", .string "choice"), ("responseIdentifier", .string i.responseIdentifier),
      ("shuffle", .bool i.shuffle), ("maxChoices", .number (.integer i.maxChoices)),
      ("minChoices", .number (.integer i.minChoices)),
      ("prompt", optionalToJson .string i.prompt), ("choices", .array (i.choices.map Choice.toJson))]
  | order i =>
    .object [("type", .string "order"), ("responseIdentifier", .string i.responseIdentifier),
      ("shuffle", .bool i.shuffle), ("prompt", optionalToJson .string i.prompt),
      ("choices", .array (i.choices.map Choice.toJson))]
  | textEntry i =>
    .object [("type", .string "textEntry"), ("responseIdentifier", .string i.responseIdentifier),
      ("expectedLength", optionalToJson (fun n => .number (.integer n)) i.expectedLength)]
  | inlineChoice i =>
    .object [("type", .string "inlineChoice"),
      ("responseIdentifier", .string i.responseIdentifier), ("shuffle", .bool i.shuffle),
      ("choices", .array (i.choices.map InlineOption.toJson))]

open Escaping

/-- The outcome variable that collects the identifiers of the picked options. -/
def feedbackInline : Text := "FEEDBACK-INLINE"

/-- The feedback of an option, shown when the option is picked. -/
def feedbackMarkup (identifier feedback : Text) : Text :=
  "<qti-feedback-inline outcome-identifier=\"" ++ feedbackInline ++ "\" identifier=\"" ++
    escapeAttribute identifier ++ "\" show-hide=\"show\">" ++ feedback ++ "</qti-feedback-inline>"

def choiceMarkup (c : Choice) : Text :=
  "<qti-simple-choice identifier=\"" ++ escapeAttribute c.identifier ++ "\">" ++ c.content ++
    ((c.feedback.map (feedbackMarkup c.identifier)).getD []) ++ "</qti-simple-choice>"

/-- An element with a prompt and options, each on a line of its own. -/
def choiceList (element attributes : Text) (prompt : Option Text) (choices : List Choice) : Text :=
  Text.lines
    (["<" ++ element ++ " " ++ attributes ++ ">"] ++
      (prompt.map fun p => ("<qti-prompt>" ++ p ++ "</qti-prompt>" : Text)).toList ++
      choices.map choiceMarkup ++ ["</" ++ element ++ ">"])

def responseAttribute (identifier : Text) : Text :=
  "response-identifier=\"" ++ escapeAttribute identifier ++ "\""

def shuffleAttribute (shuffle : Bool) : Text := " shuffle=\"" ++ Text.ofBool shuffle ++ "\""

def inlineOptionMarkup (c : InlineOption) : Text :=
  "<qti-inline-choice identifier=\"" ++ escapeAttribute c.identifier ++ "\">" ++ c.content ++
    "</qti-inline-choice>"

def markup : Interaction → Text
  | choice i =>
    choiceList "qti-choice-interaction"
      (responseAttribute i.responseIdentifier ++ shuffleAttribute i.shuffle ++
        " max-choices=\"" ++ Text.ofNat i.maxChoices ++
        "\" min-choices=\"" ++ Text.ofNat i.minChoices ++ "\"")
      i.prompt i.choices
  | order i =>
    choiceList "qti-order-interaction"
      (responseAttribute i.responseIdentifier ++ shuffleAttribute i.shuffle)
      i.prompt i.choices
  | textEntry i =>
    "<qti-text-entry-interaction " ++ responseAttribute i.responseIdentifier ++
      ((i.expectedLength.map fun n =>
        (" expected-length=\"" ++ Text.ofNat n ++ "\"" : Text)).getD []) ++ "/>"
  | inlineChoice i =>
    "<qti-inline-choice-interaction " ++ responseAttribute i.responseIdentifier ++
      shuffleAttribute i.shuffle ++ ">" ++ i.choices.flatMap inlineOptionMarkup ++
      "</qti-inline-choice-interaction>"

end Interaction
end AssessmentItems
