import AssessmentItems.Proofs.Elements

/-!
Response processing, evaluated as it is written. An element means what its operation makes of
the meanings of its parts: expressions stand for texts or truths, rules for assignments to
outcome variables. Variables are responses, and correct values are those that the declarations
of responses list.
-/
namespace AssessmentItems.ResponseProcessing

open Elements

inductive Meaning where
  /-- The values of an expression, in their order. -/
  | texts (ts : List Text)
  | truth (holds : Bool)
  /-- What rules assign to outcome variables, in their order. -/
  | assignments (as : Table (List Text))
  /-- The rules of a branch, and whether its condition holds. -/
  | branch (holds : Bool) (as : Table (List Text))

namespace Meaning

def texts? : Meaning → Option (List Text)
  | texts ts => some ts
  | _ => none

def truth? : Meaning → Option Bool
  | truth holds => some holds
  | _ => none

def assignments? : Meaning → Option (Table (List Text))
  | assignments as => some as
  | _ => none

def branch? : Meaning → Option (Bool × Table (List Text))
  | branch holds as => some (holds, as)
  | _ => none

end Meaning

/-- What expressions are evaluated in: the responses that are given, and the values that are
declared as correct, by identifiers. -/
structure Environment where
  given : Text → List Text
  correct? : Text → Option (List Text)

inductive Operation where
  | responseVariable
  | correctValues
  | baseValue
  | collection
  | conjunction
  | matching
  | membership
  | assignment
  | condition
  | ifBranch
  | elseBranch
  | processing
deriving DecidableEq

namespace Operation

def all : List Operation :=
  [responseVariable, correctValues, baseValue, collection, conjunction, matching, membership,
    assignment, condition, ifBranch, elseBranch, processing]

def name : Operation → Text
  | responseVariable => "qti-variable"
  | correctValues => "qti-correct"
  | baseValue => "qti-base-value"
  | collection => "qti-multiple"
  | conjunction => "qti-and"
  | matching => "qti-match"
  | membership => "qti-member"
  | assignment => "qti-set-outcome-value"
  | condition => "qti-response-condition"
  | ifBranch => "qti-response-if"
  | elseBranch => "qti-response-else"
  | processing => "qti-response-processing"

def ofName? (name : Text) : Option Operation := all.find? fun operation => operation.name = name

/-- What an element means, from its tag, its text and the meanings of its parts. Matching is
equality of sequences, and a member is a single value that is listed. -/
def apply (env : Environment) (tag : Tag) (text : Text) (parts : List Meaning) :
    Operation → Option Meaning
  | responseVariable => do some (.texts (env.given (← tag.attribute? "identifier")))
  | correctValues => do some (.texts (← env.correct? (← tag.attribute? "identifier")))
  | baseValue => some (.texts [text])
  | collection => do some (.texts (← parts.mapM Meaning.texts?).flatten)
  | conjunction => do
    let truths ← parts.mapM Meaning.truth?
    if truths = [] then none else some (.truth (truths.all id))
  | matching =>
    match parts with
    | [.texts a, .texts b] => some (.truth (a = b))
    | _ => none
  | membership =>
    match parts with
    | [.texts a, .texts b] => some (.truth (b.any fun value => a = [value]))
    | _ => none
  | assignment =>
    match parts with
    | [.texts ts] => do some (.assignments [(← tag.attribute? "identifier", ts)])
    | _ => none
  | condition => do
    let branches ← parts.mapM Meaning.branch?
    some (.assignments (((branches.find? Prod.fst).map Prod.snd).getD []))
  | ifBranch =>
    match parts with
    | .truth holds :: rules => do
      some (.branch holds (← rules.mapM Meaning.assignments?).flatten)
    | _ => none
  | elseBranch => do some (.branch true (← parts.mapM Meaning.assignments?).flatten)
  | processing => do some (.assignments (← parts.mapM Meaning.assignments?).flatten)

end Operation

theorem Operation.ofName?_name (operation : Operation) :
    ofName? operation.name = some operation := by
  cases operation <;> decide

theorem Operation.isName_name (operation : Operation) : IsName operation.name := by
  cases operation <;> decide

mutual

def evaluateTree (env : Environment) : Tree → Option (List Meaning)
  | .character _ => some []
  | .element tag content => do
    let operation ← Operation.ofName? tag.name
    let parts ← evaluate env content
    let meaning ← operation.apply env tag (innerText content) parts
    some [meaning]

def evaluate (env : Environment) : List Tree → Option (List Meaning)
  | [] => some []
  | tree :: rest => do
    let first ← evaluateTree env tree
    let others ← evaluate env rest
    some (first ++ others)

end

def named (name : Text) (content : List Tree) : List (Tag × List Tree) :=
  (elements content).filter fun (tag, _) => tag.name = name

def listed (content : List Tree) : List Text :=
  let values := (named "qti-correct-response" content).flatMap fun (_, inner) =>
    named "qti-value" inner
  values.map fun (_, inner) => innerText inner

def declared? (declarations : List Tree) (identifier : Text) : Option (List Text) :=
  let declaration? := (named "qti-response-declaration" declarations).find? fun (tag, _) =>
    tag.attribute? "identifier" = some identifier
  declaration?.map fun (_, content) => listed content

/-- The outcomes of some responses, by the declarations and the processing as they are written.
Of several assignments to a variable the last stays. -/
def outcomes? (declarations processing : Text) (given : Text → List Text) :
    Option (Table (List Text)) := do
  let env : Environment := ⟨given, declared? (← read? declarations)⟩
  match ← evaluate env (← read? processing) with
  | [.assignments as] => some (.ofEntries as)
  | _ => none

theorem named_append (name : Text) (a b : List Tree) :
    named name (a ++ b) = named name a ++ named name b := by
  simp only [named, elements, List.filterMap_append, List.filter_append]

theorem named_characters (name t : Text) : named name (t.map .character) = [] := by
  simp [named, elements, List.filterMap_map]

theorem named_element (tag : Tag) (content : List Tree) :
    named tag.name [.element tag content] = [(tag, content)] := by
  simp [named, elements]

theorem innerText_characters (t : Text) : innerText (t.map .character) = Escaping.unescape t := by
  simp [innerText, characters, List.filterMap_map]

theorem evaluate_append {env : Environment} {a b : List Tree} {ms ns : List Meaning}
    (ha : evaluate env a = some ms) (hb : evaluate env b = some ns) :
    evaluate env (a ++ b) = some (ms ++ ns) := by
  induction a generalizing ms with
  | nil =>
    obtain rfl := Option.some.inj ha
    exact hb
  | cons tree a ih =>
    simp only [evaluate, Option.bind_eq_bind, Option.bind_eq_some_iff] at ha
    obtain ⟨first, hfirst, others, hothers, hms⟩ := ha
    obtain rfl := Option.some.inj hms
    simp only [List.cons_append, evaluate, hfirst, ih hothers, Option.bind_eq_bind,
      Option.bind_some, List.append_assoc]

theorem evaluate_characters (env : Environment) (t : Text) :
    evaluate env (t.map .character) = some [] := by
  induction t with
  | nil => rfl
  | cons c t ih => simp [evaluate, evaluateTree, ih]

theorem evaluate_element {env : Environment} {operation : Operation} {attributes : Table Text}
    {content : List Tree} {parts : List Meaning} {meaning : Meaning}
    (hparts : evaluate env content = some parts)
    (hmeaning : operation.apply env ⟨operation.name, attributes⟩ (innerText content) parts =
      some meaning) :
    evaluate env [.element ⟨operation.name, attributes⟩ content] = some [meaning] := by
  simp only [evaluate, evaluateTree, Operation.ofName?_name, hparts, hmeaning,
    Option.bind_eq_bind, Option.bind_some, List.append_nil]

def Means (env : Environment) (t : Text) (ms : List Meaning) : Prop :=
  ∃ trees, Reads t trees ∧ evaluate env trees = some ms

section

variable {env : Environment}

theorem Means.append {s t : Text} {ms ns : List Meaning} (hs : Means env s ms)
    (ht : Means env t ns) : Means env (s ++ t) (ms ++ ns) := by
  obtain ⟨a, ha, hms⟩ := hs
  obtain ⟨b, hb, hns⟩ := ht
  exact ⟨a ++ b, ha.append hb, evaluate_append hms hns⟩

theorem means_nil : Means env [] [] := ⟨[], reads_nil, rfl⟩

theorem means_characters {t : Text} (h : '<' ∉ t) : Means env t [] :=
  ⟨_, reads_characters h, evaluate_characters env t⟩

theorem Means.flatMap {α : Type} {f : α → Text} {g : α → List Meaning} {as : List α}
    (h : ∀ a ∈ as, Means env (f a) (g a)) : Means env (as.flatMap f) (as.flatMap g) := by
  induction as with
  | nil => exact means_nil
  | cons a as ih =>
    rw [List.forall_mem_cons] at h
    exact h.1.append (ih h.2)

/-- An element means what its operation makes of its content. -/
theorem means_element {operation : Operation} {attributes : Table Text}
    (hkeys : ∀ entry ∈ attributes, IsName entry.1) {t : Text} {trees : List Tree}
    {parts : List Meaning} {meaning : Meaning} (ht : Reads t trees)
    (hparts : evaluate env trees = some parts)
    (hmeaning : operation.apply env ⟨operation.name, attributes⟩ (innerText trees) parts =
      some meaning) :
    Means env (startTag ⟨operation.name, attributes⟩ ++ t ++ endTag operation.name) [meaning] :=
  ⟨_, ht.element ⟨operation.isName_name, hkeys⟩, evaluate_element hparts hmeaning⟩

theorem means_emptyTag {operation : Operation} {attributes : Table Text}
    (hkeys : ∀ entry ∈ attributes, IsName entry.1) {meaning : Meaning}
    (hmeaning : operation.apply env ⟨operation.name, attributes⟩ [] [] = some meaning) :
    Means env (emptyTag ⟨operation.name, attributes⟩) [meaning] :=
  ⟨_, reads_emptyTag ⟨operation.isName_name, hkeys⟩, evaluate_element rfl hmeaning⟩

end

end AssessmentItems.ResponseProcessing
