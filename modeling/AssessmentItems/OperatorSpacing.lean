import AssessmentItems.Text

/-!
The layout of a formula with single spaces around its relations, sums and products.
A formula is read as symbols; between two neighbours stands a space if one of them
is an operator, so `/`, `^` and a sign bind tightly.
-/
namespace AssessmentItems.OperatorSpacing

/-- An operator or a single other character of a formula. -/
structure Symbol where
  text : Text
  isOperator : Bool
deriving Repr, DecidableEq

/-- Whether a `-` after this character subtracts; elsewhere it is a sign. -/
def endsOperand (c : Char) : Bool :=
  Text.isAlphanumeric c || c = ')' || c = '.' || c = 'π'

/-- Whether `c` is an operator where `before` is the character that precedes it. -/
def isOperator (before : Option Char) (c : Char) : Bool :=
  c ∈ ['=', '+', '*', '<', '>', '≤', '≥'] || (c = '-' && before.any endsOperand)

/-- The symbols of a formula without white space, `before` being the character in front
of it. A relation written with two characters is one symbol. -/
def symbols (before : Option Char) : Text → List Symbol
  | '<' :: '=' :: t => ⟨['<', '='], true⟩ :: symbols (some '=') t
  | '>' :: '=' :: t => ⟨['>', '='], true⟩ :: symbols (some '=') t
  | c :: t => ⟨[c], isOperator before c⟩ :: symbols (some c) t
  | [] => []

def layout : List Symbol → Text
  | [] => []
  | [s] => s.text
  | s :: next :: rest =>
    s.text ++ (if s.isOperator || next.isOperator then [' '] else []) ++ layout (next :: rest)

/-- The formula with its operators spaced, whatever white space it had before. -/
def spaced (formula : Text) : Text := layout (symbols none (Text.compact formula))

end AssessmentItems.OperatorSpacing
