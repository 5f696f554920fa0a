import AssessmentItems.Scanning

/-!
The rules on markup by the place where it stands. A rule finds the first place of a
fragment where its construct occurs; a fragment is refused for the first of the rules
of its placement that finds any.
-/
namespace AssessmentItems.ContentRules

open Text Scanning

/-- Where a fragment is placed, from the most to the least permissive. -/
inductive Placement where
  /-- Item body, feedback and choice content. -/
  | block
  /-- Prompts and the feedback of a choice: inline markup and math. -/
  | mixed
  /-- The options of an inline choice. -/
  | inlineOnly
deriving Repr, DecidableEq

def Placement.name : Placement → Text
  | block => "block"
  | mixed => "mixed"
  | inlineOnly => "inline-only"

/-- What an older authoring tool leaves behind. -/
def isLegacyRemnant (t : Text) : Bool :=
  (after? "[[☃" t).isSome || (after? "web+graphie:" t).isSome

/-- Whether a tag of one of the given names, in lower case, opens here. -/
def opensTag (names : List Text) (ends : Text → Bool) (t : Text) : Bool :=
  match t with
  | '<' :: t => names.any fun name => (afterFolded? name t).any ends
  | _ => false

def isBannedMath (t : Text) : Bool := opensTag ["mfenced", "maction", "mglyph"] endsWord t

/-- A comment around text from the clipboard. -/
def isClipboardComment (t : Text) : Bool :=
  match after? "<!--" t with
  | none => false
  | some t =>
    let t := t.dropWhile isSpace
    (afterFolded? "startfragment" t).isSome || (afterFolded? "endfragment" t).isSome

/-- A class attribute as a word processor writes it. -/
def isWordClass (t : Text) : Bool :=
  match (afterFolded? "class" t).bind fun t => after? "=" (t.dropWhile isSpace) with
  | none => false
  | some t =>
    match t.dropWhile isSpace with
    | '"' :: t => (afterFolded? "mso" t).isSome
    | t => (afterFolded? "mso" t).isSome

/-- What pasted text of a word processor leaves behind. -/
def isAuthoringArtifact (t : Text) : Bool :=
  isClipboardComment t || isWordClass t || (afterFolded? "<o:p" t).any endsWord ||
    (afterFolded? "<w:" t).any (!endsWord ·)

/-- Whether a tag's name ends here in white space, a slash or the end of the tag. -/
def endsTagName : Text → Bool
  | [] => false
  | c :: _ => isSpace c || c = '/' || c = '>'

def blockNames : List Text :=
  ["p", "div", "table", "ul", "ol", "blockquote", "pre", "h1", "h2", "h3", "h4", "h5", "h6", "hr"]

def isBlockTag (t : Text) : Bool := opensTag blockNames endsTagName t

def isMathTag (t : Text) : Bool := opensTag ["math"] endsTagName t

/-- The longest text of letters and hyphens at the front that the rest of an interaction's
name follows. -/
def interactionKind? : Text → Option Text
  | [] => none
  | c :: t =>
    if ('a' ≤ fold c && fold c ≤ 'z') || c = '-' then
      match interactionKind? t with
      | some kind => some (c :: kind)
      | none => if (afterFolded? "-interaction" t).any endsWord then some [c] else none
    else none

/-- An interaction other than an inline choice. -/
def isOtherInteraction (t : Text) : Bool :=
  match (afterFolded? "<qti-" t).bind interactionKind? with
  | some kind => kind ≠ "inline-choice"
  | none => false

/-- The value of an alt attribute at the front of a text. -/
def altAttribute? : Text → Option Text
  | [] => none
  | c :: t =>
    if isSpace c then do
      let t ← afterFolded? "alt" t
      let t ← after? "=" (t.dropWhile isSpace)
      match t.dropWhile isSpace with
      | [] => none
      | quote :: t =>
        if (quote = '"' ∨ quote = '\'') ∧ quote ∈ t then some (t.takeWhile (· ≠ quote)) else none
    else none

/-- Whether an image's tag has no alt attribute, or a blank one first. -/
def lacksAlt (tag : Text) : Bool := (firstMatch altAttribute? tag).all isBlank

/-- The text before the first image that lacks a description. -/
def beforeBareImage : List (Piece Text) → Option Text
  | [] => none
  | .character c :: rest => (beforeBareImage rest).map (c :: ·)
  | .occurrence tag :: rest =>
    if lacksAlt tag then some [] else (beforeBareImage rest).map (tag ++ ·)

def images (fragment : Text) : List (Piece Text) := pieces (tag? "<img") id fragment

inductive Rule where
  | legacyRemnant
  | disallowedMath
  | authoringArtifact
  | imageMissingAlt
  | blockRoot
  | blockElement
  | inlineMath
  | nestedInteraction
deriving Repr, DecidableEq

namespace Rule

/-- All rules, in the order in which they are applied. -/
def all : List Rule :=
  [legacyRemnant, disallowedMath, authoringArtifact, imageMissingAlt, blockRoot, blockElement,
    inlineMath, nestedInteraction]

def name : Rule → Text
  | legacyRemnant => "legacy_remnant"
  | disallowedMath => "disallowed_mathml"
  | authoringArtifact => "authoring_artifact"
  | imageMissingAlt => "image_missing_alt"
  | blockRoot => "block_root"
  | blockElement => "block_element_in_inline_context"
  | inlineMath => "math_in_inline_choice"
  | nestedInteraction => "nested_interaction"

def appliesTo (placement : Placement) : Rule → Bool
  | legacyRemnant | disallowedMath | authoringArtifact | imageMissingAlt => true
  | blockRoot => placement = .block
  | blockElement => placement ≠ .block
  | inlineMath | nestedInteraction => placement = .inlineOnly

/-- The text of a fragment before the first place that offends against the rule. -/
def find? (fragment : Text) : Rule → Option Text
  | legacyRemnant => locate isLegacyRemnant fragment
  | disallowedMath => locate isBannedMath fragment
  | authoringArtifact => locate isAuthoringArtifact fragment
  | imageMissingAlt => beforeBareImage (images fragment)
  | blockRoot =>
    match trimStart fragment with
    | [] => none
    | c :: _ => if c = '<' then none else some (fragment.takeWhile isSpace)
  | blockElement => locate isBlockTag fragment
  | inlineMath => locate isMathTag fragment
  | nestedInteraction => locate isOtherInteraction fragment

end Rule

/-- A rule and the start of the place that offends against it. -/
structure Violation where
  rule : Rule
  snippet : Text
deriving Repr, DecidableEq

/-- The most characters of a fragment that a message shows. -/
def snippetLength : Nat := 40

/-- The start of a text, and an ellipsis if anything was cut. -/
def snippet (t : Text) : Text :=
  t.take snippetLength ++ if snippetLength < t.length then ['…'] else []

/-- The violation of a rule in a fragment, if there is any. -/
def violation? (fragment : Text) (rule : Rule) : Option Violation :=
  (rule.find? fragment).map fun before => ⟨rule, snippet (fragment.drop before.length)⟩

/-- The violation for which a fragment is refused in a placement. -/
def check (placement : Placement) (fragment : Text) : Option Violation :=
  (Rule.all.filter (Rule.appliesTo placement)).findSome? (violation? fragment)

end AssessmentItems.ContentRules
