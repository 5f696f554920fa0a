import AssessmentItems.Item

/-!
The structure of an item beyond the shape of its parts: identifiers that name, names
that are unique, correct values that are literals and can be chosen, slots that can be
referred to. The checks are made in a fixed order, and the first problem is reported.
-/
namespace AssessmentItems.Structure

/-- A problem and the path where it stands. -/
structure Finding where
  path : Text
  problem : SchemaProblem
deriving Repr, DecidableEq

def Finding.error (f : Finding) : CompileError := .schema f.path f.problem

/-- Reports a problem if a condition holds. -/
def report (found : Bool) (path : Text) (problem : SchemaProblem) : Option Finding :=
  if found then some ⟨path, problem⟩ else none

/-- A value of base type identifier that holds white space is most likely a label. -/
def ofValue (path : Text) (type : BaseType) (value : Text) : Option Finding :=
  let path := Path.member path "correct"
  report (type = .identifier && value.any Text.isSpace) path (.spacedIdentifier value) <|>
    report (!type.accepts value) path (.notLiteral value type.name)

def ofDeclaration (path : Text) (d : ResponseDeclaration) : Option Finding :=
  report (!Literals.isIdentifier d.identifier) path (.badResponseIdentifier d.identifier) <|>
    report d.values.isEmpty path .noCorrectValue <|>
    report (d.cardinality = .single && d.values.length ≠ 1) path (.notSingle d.values.length) <|>
    d.values.findSome? (ofValue path d.baseType)

/-- Declarations from the one with the given index on, after those whose identifiers are
given. -/
def ofDeclarations (index : Nat) (earlier : List Text) : List ResponseDeclaration → Option Finding
  | [] => none
  | d :: rest =>
    let path := Path.element "responseDeclarations" index
    ofDeclaration path d <|>
      report (d.identifier ∈ earlier) path (.duplicateResponse d.identifier) <|>
      ofDeclarations (index + 1) (d.identifier :: earlier) rest

def ofSlotName (path slot : Text) : Option Finding :=
  report (!Slots.isValidName slot) path (.badSlotName slot)

def ofWidgetSlot (item : AssessmentItem) (slot : Text) : Option Finding :=
  let path := Path.member "widgets" slot
  ofSlotName path slot <|> report (slot ∈ item.interactions.names) path (.slotDefinedTwice slot)

/-- What concerns one kind of interaction only. -/
def ofLimits (path : Text) : Interaction → Option Finding
  | .choice i =>
    report (i.maxChoices ≠ 0 && i.maxChoices < i.minChoices) path
      (.choiceLimits i.minChoices i.maxChoices)
  | .textEntry i =>
    report (i.expectedLength = some 0) (Path.member path "expectedLength") .zeroLength
  | .order _ | .inlineChoice _ => none

/-- The identifiers of options, after the given ones. -/
def ofChoices (path : Text) (earlier : List Text) : List Text → Option Finding
  | [] => none
  | id :: rest =>
    report (!Literals.isIdentifier id) path (.badChoiceIdentifier id) <|>
      report (id ∈ earlier) path (.duplicateChoice id) <|>
      ofChoices path (id :: earlier) rest

/-- A correct identifier must be one of the options. -/
def ofCorrect (path : Text) (choices : List Text) (d : ResponseDeclaration) : Option Finding :=
  if d.baseType = .identifier then
    (d.values.find? (· ∉ choices)).map fun value =>
      ⟨Path.member path "responseIdentifier", .notAChoice value d.identifier⟩
  else none

/-- An interaction and the declaration of its response. -/
def ofPair (path : Text) (i : Interaction) (d : ResponseDeclaration) : Option Finding :=
  ofLimits path i <|>
    match i.choiceIdentifiers with
    | none => none
    | some choices =>
      report choices.isEmpty (Path.member path "choices") .noChoices <|>
        ofChoices (Path.member path "choices") [] choices <|>
        ofCorrect path choices d

/-- The declaration of a response. -/
def declaration? (item : AssessmentItem) (identifier : Text) : Option ResponseDeclaration :=
  item.responseDeclarations.find? fun d => d.identifier = identifier

def ofInteraction (item : AssessmentItem) (slot : Text) (i : Interaction) : Option Finding :=
  let path := Path.member "interactions" slot
  ofSlotName path slot <|>
    match declaration? item i.responseIdentifier with
    | none =>
      some ⟨Path.member path "responseIdentifier", .undeclaredResponse i.responseIdentifier⟩
    | some d => ofPair path i d

/-- The first problem of an item, if it has any. -/
def finding? (item : AssessmentItem) : Option Finding :=
  report (Text.isBlank item.identifier) "identifier" .blank <|>
    report item.responseDeclarations.isEmpty "responseDeclarations" .noDeclarations <|>
    ofDeclarations 0 [] item.responseDeclarations <|>
    item.widgets.names.findSome? (ofWidgetSlot item) <|>
    item.interactions.findSome? fun (slot, i) => ofInteraction item slot i

def check (item : AssessmentItem) : Except CompileError Unit :=
  match finding? item with
  | none => .ok ()
  | some f => .error f.error

end AssessmentItems.Structure
