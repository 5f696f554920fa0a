import AssessmentItems.Text

/-!
The literals of the base types: identifiers, integers of 64 bits, and decimals that do
not exceed the greatest finite floating-point number.
-/
namespace AssessmentItems.Literals

open Text

/-- Identifiers are not empty and hold no white space. -/
def isIdentifier (t : Text) : Bool := t ≠ [] && t.all (!isSpace ·)

/-- One sign at the front, as whether it is a minus, and the rest. -/
def splitSign : Text → Bool × Text
  | '-' :: t => (true, t)
  | '+' :: t => (false, t)
  | t => (false, t)

/-- Digits with an optional sign, of a value that fits in 64 bits. -/
def isInteger (t : Text) : Bool :=
  let (negative, digits) := splitSign t
  match toNat? digits with
  | some n => if negative then n ≤ Nat.pow 2 63 else n < Nat.pow 2 63
  | none => false

/-- A decimal literal: its digits before and after the point, and its exponent. -/
structure Decimal where
  negative : Bool
  whole : Text
  fraction : Text
  exponent : Int
deriving Repr, DecidableEq

/-- The exponent at the end of a literal; there may be none. -/
def exponent? : Text → Option Int
  | [] => some 0
  | c :: t =>
    if c = 'e' ∨ c = 'E' then
      let (negative, digits) := splitSign t
      (toNat? digits).map fun n => if negative then -(n : Int) else n
    else none

/-- Reads a sign, digits with a point somewhere among them or none, and an exponent; the
sign and the exponent may be absent, and so may the digits on one side of the point. -/
def decimal? (t : Text) : Option Decimal :=
  let (negative, body) := splitSign t
  let whole := body.takeWhile isPlainDigit
  let (fraction, rest) :=
    match body.dropWhile isPlainDigit with
    | '.' :: t => (t.takeWhile isPlainDigit, t.dropWhile isPlainDigit)
    | t => ([], t)
  if whole = [] ∧ fraction = [] then none
  else (exponent? rest).map fun exponent => ⟨negative, whole, fraction, exponent⟩

/-- The least size that is rounded to infinity, half a unit above the greatest number. -/
def overflow : Nat := (Nat.pow 2 54 - 1) * Nat.pow 2 970

/-- Whether the literal denotes a finite number once it is rounded. The count of its
digits decides, except where the size is that of the greatest number. -/
def Decimal.isFinite (d : Decimal) : Bool :=
  let n := Nat.ofDigitChars 10 (d.whole ++ d.fraction) 0
  let power := d.exponent - d.fraction.length
  let places := (Text.ofNat n).length + power
  if n = 0 ∨ places ≤ 308 then true
  else if 310 ≤ places then false
  else n * Nat.pow 10 power.toNat < overflow * Nat.pow 10 (-power).toNat

def isFloat (t : Text) : Bool := (decimal? t).any Decimal.isFinite

end AssessmentItems.Literals
