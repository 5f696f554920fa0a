import AssessmentItems.Text

/-!
Finite binary floating-point numbers of 64 bits as an integer times a power of two,
with the exact arithmetic on them and rounding to nearest, a tie going to the even
neighbour.
-/
namespace AssessmentItems

/-- The number `mantissa * 2 ^ exponent`, negated or not; zero keeps its sign. In a
rounded number the mantissa has at most 53 bits, the exponent is at least -1074, and a
mantissa of fewer bits occurs at the least exponent only. -/
structure Binary64 where
  negative : Bool
  mantissa : Nat
  exponent : Int
deriving Repr, DecidableEq

namespace Binary64

def leastExponent : Int := -1074

def greatestExponent : Int := 971

def zero (negative : Bool) : Binary64 := ⟨negative, 0, leastExponent⟩

/-- The quotient rounded to the nearest integer, a tie to the even one. -/
def nearestQuotient (n d : Nat) : Nat :=
  let q := n / d
  match compare (2 * (n % d)) d with
  | .lt => q
  | .gt => q + 1
  | .eq => q + q % 2

/-- A fraction over a power of two, as numerator and denominator. -/
def scaleDown (n d : Nat) (e : Int) : Nat × Nat :=
  if 0 ≤ e then (n, d * Nat.pow 2 e.toNat) else (n * Nat.pow 2 (-e).toNat, d)

/-- The exponent at which the quotient has a mantissa of 53 bits, or the least one. -/
def exponentOf (n d : Nat) : Int :=
  let e : Int := (Nat.log2 n : Int) - Nat.log2 d - 52
  let (n', d') := scaleDown n d e
  max leastExponent (if n' < d' * Nat.pow 2 52 then e - 1 else e)

/-- The quotient of two natural numbers, the second not zero, rounded; there is none
if it exceeds the greatest finite number. -/
def ofQuotient? (negative : Bool) (n d : Nat) : Option Binary64 :=
  if n = 0 then some (zero negative)
  else
    let e := exponentOf n d
    let (n', d') := scaleDown n d e
    let m := nearestQuotient n' d'
    let (m, e) := if m = Nat.pow 2 53 then (Nat.pow 2 52, e + 1) else (m, e)
    if greatestExponent < e then none else some ⟨negative, m, e⟩

/-- The size as a fraction. -/
def quotient (x : Binary64) : Nat × Nat := scaleDown x.mantissa 1 (-x.exponent)

def ofNat? (negative : Bool) (n : Nat) : Option Binary64 := ofQuotient? negative n 1

def mul? (x y : Binary64) : Option Binary64 :=
  ofQuotient? (x.negative != y.negative) (x.quotient.1 * y.quotient.1)
    (x.quotient.2 * y.quotient.2)

/-- The quotient by a number other than zero. -/
def div? (x y : Binary64) : Option Binary64 :=
  ofQuotient? (x.negative != y.negative) (x.quotient.1 * y.quotient.2)
    (x.quotient.2 * y.quotient.1)

def isZero (x : Binary64) : Bool := x.mantissa = 0

/-- The signed number of units, each the least positive number. -/
def units (x : Binary64) : Int :=
  let size : Int := x.mantissa * Nat.pow 2 (x.exponent - leastExponent).toNat
  if x.negative then -size else size

def lt (x y : Binary64) : Bool := x.units < y.units

def le (x y : Binary64) : Bool := x.units ≤ y.units

end Binary64
end AssessmentItems
