import AssessmentItems.Scanning
import AssessmentItems.Table

/-!
Slots: named placeholders in markup and their replacement by the content of a table.
The content put in is resolved again, to a limited depth. Resolution succeeds if no
placeholder is undefined, none is entered again while it is being resolved, and no tag
that looks like a slot is left in the result.
-/
namespace AssessmentItems.Slots

open Text Scanning

/-- Contents by the names of their slots. -/
abbrev SlotTable := Table Text

/-- A character of a slot's name: `A` to `Z`, `a` to `z`, `0` to `9`, `_` or `-`. -/
def isNameCharacter (c : Char) : Bool :=
  isPlainLetter c || isPlainDigit c || c = '_' || c = '-'

def isValidName (name : Text) : Bool := name ≠ [] && name.all isNameCharacter

/-- A placeholder in a text, with the white space inside it. -/
structure Placeholder where
  gap : Text
  name : Text
  tail : Text
deriving Repr, DecidableEq

/-- How the placeholder is written. -/
def Placeholder.spelling (p : Placeholder) : Text :=
  "<slot" ++ p.gap ++ "name=\"" ++ p.name ++ "\"" ++ p.tail ++ "/>"

/-- The placeholder of a name. -/
def placeholder (name : Text) : Text := Placeholder.spelling ⟨[' '], name, []⟩

/-- The placeholder at the front of a text. -/
def placeholder? (t : Text) : Option Placeholder := do
  let t ← after? "<slot" t
  let gap := t.takeWhile isSpace
  let t ← after? "name=\"" (t.dropWhile isSpace)
  let name := t.takeWhile isNameCharacter
  let t ← after? "\"" (t.dropWhile isNameCharacter)
  let tail := t.takeWhile isSpace
  let _ ← after? "/>" (t.dropWhile isSpace)
  if gap ≠ [] ∧ name ≠ [] then some ⟨gap, name, tail⟩ else none

/-- The placeholders of a text and the characters between them. -/
def segments (content : Text) : List (Piece Placeholder) :=
  pieces placeholder? Placeholder.spelling content

/-- The names that a content refers to directly, in ascending order. -/
def referenced (content : Text) : List Text :=
  ascending ((occurrences (segments content)).map Placeholder.name)

/-- The tag at the front of a text, if it opens a slot in any case and spelling. -/
def looseTag? (t : Text) : Option Text := tag? "<slot" t

def looseTags (content : Text) : List Text := occurrences (pieces looseTag? id content)

def isQuote (c : Char) : Bool := c = '"' || c = '\''

/-- The value of a name attribute at the front of a text. -/
def nameAttribute? (t : Text) : Option Text := do
  let t ← after? "name" t
  let t ← after? "=" (t.dropWhile isSpace)
  match t.dropWhile isSpace with
  | [] => none
  | quote :: t =>
    if isQuote quote ∧ t.any isQuote then some (t.takeWhile (!isQuote ·)) else none

/-- What a tag is reported as: its name attribute, or the whole tag if it has none. -/
def tagName (tag : Text) : Text := (firstMatch nameAttribute? tag).getD tag

/-- The distinct names of the tags that look like slots, in ascending order. -/
def leftover (content : Text) : List Text := ascending ((looseTags content).map tagName)

inductive SlotError where
  | missing (name : Text)
  | cycle (chain : List Text)
  | depthExceeded (name : Text)
  | unresolved (names : List Text)
deriving Repr, DecidableEq

/-- How deep slots may be nested. -/
def maxDepth : Nat := 10

def SlotError.message : SlotError → Text
  | missing name => "slot '" ++ name ++ "' is not defined"
  | cycle chain => "cycle detected: " ++ join " -> " chain
  | depthExceeded name =>
    "slot '" ++ name ++ "' exceeds maximum nesting depth " ++ Text.ofNat maxDepth
  | unresolved names => "unresolved slots remain: " ++ join ", " names

/-- Puts the replacement of its name in the place of every placeholder. The last is
replaced first, so its failure comes before those of the others. -/
def splice (replace : Text → Except SlotError Text) :
    List (Piece Placeholder) → Except SlotError Text
  | [] => .ok []
  | .character c :: rest => do
    let after ← splice replace rest
    .ok (c :: after)
  | .occurrence p :: rest => do
    let after ← splice replace rest
    let inner ← replace p.name
    .ok (inner ++ after)

/-- Looks a slot up and goes on with its content, unless the slot is being resolved. -/
def enter (slots : SlotTable) (active : List Text)
    (resolve : (name content : Text) → Except SlotError Text) (name : Text) :
    Except SlotError Text :=
  match slots.find? name with
  | none => .error (.missing name)
  | some content => if name ∈ active then .error (.cycle (active ++ [name])) else resolve name content

/-- Replaces placeholders down to `room` levels, inside the slots that are active. -/
def substitute (slots : SlotTable) : (room : Nat) → (active : List Text) → (content : Text) →
    Except SlotError Text
  | 0, active, content =>
    splice (enter slots active fun name _ => .error (.depthExceeded name)) (segments content)
  | room + 1, active, content =>
    splice (enter slots active fun name inner => substitute slots room (active ++ [name]) inner)
      (segments content)

/-- Replaces every placeholder, and fails if a tag that looks like a slot is left. -/
def resolve (slots : SlotTable) (content : Text) : Except SlotError Text := do
  let resolved ← substitute slots maxDepth [] content
  match leftover resolved with
  | [] => .ok resolved
  | names => .error (.unresolved names)

end AssessmentItems.Slots
