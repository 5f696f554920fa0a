import AssessmentItems.OperatorSpacing
import AssessmentItems.Ratio

/-!
The rules by which one spelling of an answer implies others. Each rule maps a value
to the spellings that it implies, and to none if the value does not have its form.
-/
namespace AssessmentItems.AnswerRules

open Text OperatorSpacing

/-- A minus sign at the front, and the rest. -/
def splitSign : Text → Text × Text
  | '-' :: t => (['-'], t)
  | t => ([], t)

/-- The digits at the front, of any script, and the rest. -/
def splitDigits (t : Text) : Text × Text := (t.takeWhile isDigit, t.dropWhile isDigit)

def isDigits (t : Text) : Bool := t ≠ [] && t.all isDigit

/-- `0.5` and `.5` are one number. -/
def leadingZero (value : Text) : List Text :=
  let (sign, body) := splitSign (trim value)
  match body with
  | '0' :: '.' :: digits => if isDigits digits then [sign ++ '.' :: digits] else []
  | '.' :: digits => if isDigits digits then [sign ++ '0' :: '.' :: digits] else []
  | _ => []

/-- Digits, a slash and digits at the front, and the rest. -/
def splitFraction? (t : Text) : Option (Text × Text × Text) :=
  let (numerator, t) := splitDigits t
  match t with
  | '/' :: t =>
    let (denominator, t) := splitDigits t
    if numerator ≠ [] ∧ denominator ≠ [] then some (numerator, denominator, t) else none
  | _ => none

/-- The decimal of a fraction whose expansion ends. -/
def fractionDecimal (value : Text) : List Text :=
  let (sign, body) := splitSign (trim value)
  match splitFraction? body with
  | some (numerator, denominator, []) =>
    match (Ratio.ofDigits? numerator denominator).bind Ratio.toDecimal? with
    | some decimal => [sign ++ decimal]
    | none => []
  | _ => []

/-- A variable with a fraction before it, as authored. -/
structure Coefficient where
  sign : Text
  numerator : Text
  denominator : Text
  letters : Text
deriving Repr, DecidableEq

def isLetters (t : Text) : Bool := t ≠ [] && t.all isPlainLetter

/-- Reads `(n/d)x`, `n/dx`, `nx/d` and `x/d`. -/
def coefficient? (t : Text) : Option Coefficient :=
  let (sign, body) := splitSign t
  let (digits, rest) := splitDigits body
  match body, splitFraction? body with
  | '(' :: inner, _ =>
    match splitFraction? inner with
    | some (numerator, denominator, ')' :: letters) =>
      if isLetters letters then some ⟨sign, numerator, denominator, letters⟩ else none
    | _ => none
  | _, some (numerator, denominator, letters) =>
    if isLetters letters then some ⟨sign, numerator, denominator, letters⟩ else none
  | _, none =>
    match rest.takeWhile isPlainLetter, rest.dropWhile isPlainLetter with
    | letters, '/' :: denominator =>
      if isLetters letters ∧ isDigits denominator then
        some ⟨sign, if digits = [] then ['1'] else digits, denominator, letters⟩
      else none
    | _, _ => none

/-- The spellings with a fraction; a numerator of one may be left out. -/
def Coefficient.fractionForms (c : Coefficient) : List Text :=
  [c.sign ++ '(' :: c.numerator ++ '/' :: c.denominator ++ ')' :: c.letters,
    c.sign ++ c.numerator ++ '/' :: c.denominator ++ c.letters,
    c.sign ++ c.numerator ++ c.letters ++ '/' :: c.denominator] ++
    if c.numerator = ['1'] then [c.sign ++ c.letters ++ '/' :: c.denominator] else []

/-- The spellings with a decimal; a coefficient of one may be left out, and so may the
zero that a decimal begins with. -/
def Coefficient.decimalForms (c : Coefficient) (decimal : Text) : List Text :=
  if decimal = ['1'] then [c.sign ++ c.letters]
  else
    (c.sign ++ decimal ++ c.letters) ::
      match decimal with
      | '0' :: bare => [c.sign ++ bare ++ c.letters]
      | _ => []

def fractionalCoefficient (value : Text) : List Text :=
  match coefficient? (trim value) with
  | none => []
  | some c =>
    match Ratio.ofDigits? c.numerator c.denominator with
    | none => []
    | some ratio =>
      c.fractionForms ++
        match ratio.toDecimal? with
        | some decimal => c.decimalForms decimal
        | none => []

/-- A formula may be written without white space or with its operators spaced. -/
def algebraicSpacing (value : Text) : List Text :=
  if value.any (· ∈ ("()=+-*/^" : Text)) then [compact value, spaced value] else []

/-- The text without the star that stands, among white space, between its front and an
opening parenthesis; the text itself if there is no such star. -/
def withoutStar (t : Text) : Text :=
  match t.dropWhile isSpace with
  | '*' :: rest =>
    match rest.dropWhile isSpace with
    | '(' :: inner => '(' :: inner
    | _ => t
  | _ => t

/-- Leaves out every star between a digit and an opening parenthesis. -/
def implicitProducts : Text → Text
  | [] => []
  | c :: t =>
    if isDigit c then c :: withoutStar (implicitProducts t) else c :: implicitProducts t

def implicitMultiplication (value : Text) : List Text :=
  let rewritten := implicitProducts value
  if rewritten = value then [] else [rewritten]

inductive Comparison where
  | less
  | lessEqual
  | greater
  | greaterEqual
deriving Repr, DecidableEq

namespace Comparison

def spellings : Comparison → List Text
  | less => ["<"]
  | lessEqual => ["<=", "≤"]
  | greater => [">"]
  | greaterEqual => [">=", "≥"]

/-- The comparison that holds when the sides change places. -/
def flip : Comparison → Comparison
  | less => greater
  | lessEqual => greaterEqual
  | greater => less
  | greaterEqual => lessEqual

end Comparison

def isComparisonSign (c : Char) : Bool := c ∈ ['<', '>', '≤', '≥']

/-- Cuts a text at its first comparison. -/
def splitComparison? : Text → Option (Text × Comparison × Text)
  | '<' :: '=' :: t => some ([], .lessEqual, t)
  | '>' :: '=' :: t => some ([], .greaterEqual, t)
  | '≤' :: t => some ([], .lessEqual, t)
  | '≥' :: t => some ([], .greaterEqual, t)
  | '<' :: t => some ([], .less, t)
  | '>' :: t => some ([], .greater, t)
  | c :: t => (splitComparison? t).map fun (left, op, right) => (c :: left, op, right)
  | [] => none

/-- Two sides with a sign between them, tight and spaced. -/
def relationForms (left sign right : Text) : List Text :=
  [left ++ sign ++ right, spaced (left ++ sign ++ right)]

/-- A comparison may be spelled in both encodings and read from both sides. -/
def inequality (value : Text) : List Text :=
  match splitComparison? (compact value) with
  | none => []
  | some (left, op, right) =>
    if left = [] ∨ right = [] ∨ '=' ∈ left ∨ '=' ∈ right ∨ right.any isComparisonSign then []
    else
      op.spellings.flatMap (relationForms left · right) ++
        op.flip.spellings.flatMap (relationForms right · left)

/-- The sides of an equation may change places. -/
def equationSides (value : Text) : List Text :=
  let v := compact value
  let left := v.takeWhile (· ≠ '=')
  match v.dropWhile (· ≠ '=') with
  | [] => []
  | _ :: right =>
    if v.any isComparisonSign ∨ '=' ∈ right ∨ left = [] ∨ right = [] then []
    else relationForms left "=" right ++ relationForms right "=" left

/-- A term in π: what stands around the symbol, how the symbol is spelled, and the
numbers that multiply and divide it. -/
structure PiTerm where
  sign : Text
  before : Text
  symbol : Text
  after : Text
  whole : Text
  fraction : Text
  divisor : Text
deriving Repr, DecidableEq

/-- A decimal at the front, as digits before and after the point, and the rest. -/
def splitDecimal? (t : Text) : Option (Text × Text × Text) :=
  let (whole, rest) := splitDigits t
  match rest with
  | '.' :: afterPoint =>
    let (fraction, tail) := splitDigits afterPoint
    if fraction ≠ [] then some (whole, fraction, tail)
    else if whole ≠ [] then some (whole, [], rest)
    else none
  | _ => if whole ≠ [] then some (whole, [], rest) else none

/-- The symbol for π at the front, and the rest. -/
def splitPi? : Text → Option (Text × Text)
  | 'π' :: t => some (['π'], t)
  | 'p' :: 'i' :: t => some (['p', 'i'], t)
  | _ => none

/-- The text after white space, the given sign and more white space. -/
def afterSpaced? (sign : Char) (t : Text) : Option Text :=
  match t.dropWhile isSpace with
  | c :: rest => if c = sign then some (rest.dropWhile isSpace) else none
  | [] => none

/-- The front of a text, of which `rest` is the end. -/
def frontOf (t rest : Text) : Text := t.take (t.length - rest.length)

/-- Reads `cπ/b`: coefficient, star and divisor may each be absent. -/
def piTerm? (t : Text) : Option PiTerm := do
  let (sign, body) := splitSign t
  let (whole, fraction, rest) := (splitDecimal? body).getD (['1'], [], body)
  let rest := (afterSpaced? '*' rest).getD (rest.dropWhile isSpace)
  let (symbol, after) ← splitPi? rest
  let divisor ←
    if after = [] then some ['1']
    else do
      let digits ← afterSpaced? '/' after
      if isDigits digits then some digits else none
  some ⟨sign, frontOf t rest, symbol, after, whole, fraction, divisor⟩

/-- Reads `π*c`. -/
def piTimes? (t : Text) : Option PiTerm := do
  let (sign, body) := splitSign t
  let (symbol, after) ← splitPi? body
  match splitDecimal? (← afterSpaced? '*' after) with
  | some (whole, fraction, []) => some ⟨sign, sign, symbol, after, whole, fraction, ['1']⟩
  | _ => none

/-- The value that stands for π in an answer. -/
def piValue : Ratio := ⟨157, 50⟩

/-- The exact value of a term, without its sign. -/
def PiTerm.value? (p : PiTerm) : Option Ratio := do
  let divisor ← boundedNumber? p.divisor
  let coefficient ← Ratio.ofDecimal? p.whole p.fraction
  (← coefficient.mul? piValue).divNat? divisor

def otherPi (symbol : Text) : Text := if symbol = ['π'] then ['p', 'i'] else ['π']

/-- The symbol may be spelled in both ways, and 3.14 may stand for it. -/
def piApproximation (value : Text) : List Text :=
  let v := trim value
  match piTerm? v <|> piTimes? v with
  | none => []
  | some p =>
    match p.value? with
    | none => []
    | some ratio =>
      (p.before ++ otherPi p.symbol ++ p.after) ::
        match ratio.toDecimal? with
        | some decimal => [p.sign ++ decimal]
        | none => []

inductive Rule where
  | leadingZero
  | fractionDecimal
  | fractionalCoefficient
  | algebraicSpacing
  | implicitMultiplication
  | inequality
  | equationSides
  | piApproximation
deriving Repr, DecidableEq

namespace Rule

/-- All rules, in the order in which they are reported. -/
def all : List Rule :=
  [leadingZero, fractionDecimal, fractionalCoefficient, algebraicSpacing, implicitMultiplication,
    inequality, equationSides, piApproximation]

def name : Rule → Text
  | leadingZero => "leading_zero"
  | fractionDecimal => "fraction_decimal"
  | fractionalCoefficient => "fractional_coefficient"
  | algebraicSpacing => "algebraic_spacing"
  | implicitMultiplication => "implicit_multiplication"
  | inequality => "inequality"
  | equationSides => "equation_sides"
  | piApproximation => "pi_approximation"

/-- The spellings that a value implies by the rule. -/
def spellings : Rule → Text → List Text
  | leadingZero => AnswerRules.leadingZero
  | fractionDecimal => AnswerRules.fractionDecimal
  | fractionalCoefficient => AnswerRules.fractionalCoefficient
  | algebraicSpacing => AnswerRules.algebraicSpacing
  | implicitMultiplication => AnswerRules.implicitMultiplication
  | inequality => AnswerRules.inequality
  | equationSides => AnswerRules.equationSides
  | piApproximation => AnswerRules.piApproximation

end Rule

/-- The spellings that a value implies by any rule. -/
def variants (value : Text) : List Text := Rule.all.flatMap fun rule => rule.spellings value

/-- The rules by which a value implies a spelling other than itself. -/
def matchingRules (value : Text) : List Rule :=
  Rule.all.filter fun rule => (rule.spellings value).any (· ≠ value)

end AssessmentItems.AnswerRules
