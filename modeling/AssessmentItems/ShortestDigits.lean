import AssessmentItems.Binary64

/-!
The text of a floating-point number with the fewest digits that read back as the same
number and, among those, the digits nearest to it. Where the point stands and when an
exponent is written is for a layout to say.
-/
namespace AssessmentItems.ShortestDigits

/-- Digits with a point after the first, times a power of ten. -/
structure Scientific where
  digits : Text
  exponent : Int
deriving Repr, DecidableEq

/-- What is left open by the fewest digits. -/
structure Layout where
  /-- Of two numerals equally near, the one with an even last digit; else the greater. -/
  tieToEven : Bool
  /-- Whether a number is written without an exponent, by its power of ten. -/
  positional : Int → Bool
  /-- Whether an integer in positional notation ends in `.0`. -/
  pointZero : Bool

/-- The greatest power of ten that is at most the quotient, as its exponent. -/
def decimalExponent (n d : Nat) : Int :=
  if d ≤ n then ((Nat.toDigits 10 (n / d)).length : Int) - 1
  else -((Nat.toDigits 10 ((d - 1) / n)).length : Int)

/-- A fraction with the bounds of all fractions that round to the same number. -/
structure Interval where
  low : Nat
  value : Nat
  high : Nat
  denominator : Nat
  closed : Bool

def Interval.contains (i : Interval) (n : Nat) : Bool :=
  if i.closed then i.low ≤ n && n ≤ i.high else i.low < n && n < i.high

/-- The numbers that round to a positive one. Below a power of two they reach half as
far, as the neighbour on that side is twice as near. -/
def intervalOf (x : Binary64) : Interval :=
  let m := x.mantissa
  let low := if m = Nat.pow 2 52 ∧ Binary64.leastExponent < x.exponent then 4 * m - 1 else 4 * m - 2
  let e := 2 - x.exponent
  let scale := Nat.pow 2 (-e).toNat
  ⟨low * scale, 4 * m * scale, (4 * m + 2) * scale, Nat.pow 2 e.toNat, m % 2 = 0⟩

/-- The multiple of `10 ^ p` in the interval that is nearest to the value, if any. -/
def nearestMultiple (tieToEven : Bool) (i : Interval) (p : Int) : Option Nat :=
  let scale := Nat.pow 10 (-p).toNat
  let i := { i with low := i.low * scale, value := i.value * scale, high := i.high * scale }
  let unit := i.denominator * Nat.pow 10 p.toNat
  let g := i.value / unit
  match i.contains (g * unit), i.contains ((g + 1) * unit) with
  | false, false => none
  | true, false => some g
  | false, true => some (g + 1)
  | true, true =>
    match compare (2 * i.value) ((2 * g + 1) * unit) with
    | .lt => some g
    | .gt => some (g + 1)
    | .eq => some (if tieToEven && g % 2 = 0 then g else g + 1)

def withoutFinalZeros (digits : Text) : Text := (digits.reverse.dropWhile (· = '0')).reverse

/-- The fewest digits of a number; 17 always suffice. -/
def shortest (tieToEven : Bool) (x : Binary64) : Scientific :=
  if x.isZero then ⟨['0'], 0⟩
  else
    let i := intervalOf x
    let top := decimalExponent i.value i.denominator
    let multiple := (List.range 17).findSome? fun (n : Nat) =>
      (nearestMultiple tieToEven i (top - n)).map fun g => (Nat.toDigits 10 g, top - n)
    match multiple with
    | none => ⟨['0'], 0⟩
    | some (digits, p) => ⟨withoutFinalZeros digits, p + digits.length - 1⟩

def positionalText (pointZero : Bool) (s : Scientific) : Text :=
  let places := s.exponent + 1
  if s.exponent < 0 then
    ['0', '.'] ++ List.replicate (-places).toNat '0' ++ s.digits
  else if s.digits.length ≤ places.toNat then
    s.digits ++ List.replicate (places.toNat - s.digits.length) '0' ++
      if pointZero then ['.', '0'] else []
  else s.digits.take places.toNat ++ '.' :: s.digits.drop places.toNat

def exponentText (s : Scientific) : Text :=
  let mantissa := match s.digits with
    | [] => []
    | [d] => [d]
    | d :: ds => d :: '.' :: ds
  mantissa ++ 'e' :: (if s.exponent < 0 then '-' else '+') :: Text.ofNat s.exponent.natAbs

def write (layout : Layout) (x : Binary64) : Text :=
  let s := shortest layout.tieToEven x
  let size :=
    if layout.positional s.exponent then positionalText layout.pointZero s else exponentText s
  if x.negative then '-' :: size else size

end AssessmentItems.ShortestDigits
