import AssessmentItems.Text

/-!
Non-negative fractions in lowest terms, in arithmetic that refuses every number of
more than 128 bits, and their exact decimal numerals where the expansion ends.
-/
namespace AssessmentItems

/-- The number itself, if it fits in 128 bits. -/
def bounded (n : Nat) : Option Nat := if n < Nat.pow 2 128 then some n else none

/-- What stands behind a plus sign at the front, or the whole text if there is none. -/
def withoutPlus : Text → Text
  | '+' :: t => t
  | t => t

/-- The value of plain digits that fits in 128 bits; a plus sign may stand before them. -/
def boundedNumber? (t : Text) : Option Nat := (Text.toNat? (withoutPlus t)).bind bounded

structure Ratio where
  numerator : Nat
  denominator : Nat
deriving Repr, DecidableEq

namespace Ratio

/-- The fraction in lowest terms; there is none over zero. -/
def make? (n d : Nat) : Option Ratio :=
  if d = 0 then none else some ⟨n / Nat.gcd n d, d / Nat.gcd n d⟩

/-- The fraction of two digit texts. -/
def ofDigits? (n d : Text) : Option Ratio := do
  make? (← boundedNumber? n) (← boundedNumber? d)

/-- The value of a decimal, from its digits before and after the point. -/
def ofDecimal? (whole fraction : Text) : Option Ratio := do
  make? (← boundedNumber? (whole ++ fraction)) (← bounded (Nat.pow 10 fraction.length))

def mul? (r s : Ratio) : Option Ratio := do
  make? (← bounded (r.numerator * s.numerator)) (← bounded (r.denominator * s.denominator))

def divNat? (r : Ratio) (n : Nat) : Option Ratio := do
  make? r.numerator (← bounded (r.denominator * n))

/-- Divides by `p` as often as it divides, and counts how often. -/
def withoutFactor (p n : Nat) : Nat × Nat :=
  if 1 < p ∧ 0 < n ∧ n % p = 0 then
    let (rest, count) := withoutFactor p (n / p)
    (rest, count + 1)
  else (n, 0)
termination_by n
decreasing_by
  obtain ⟨hp, hn, _⟩ := ‹1 < p ∧ 0 < n ∧ n % p = 0›
  exact Nat.div_lt_self hn hp

/-- The numeral of `n` divided by ten `places` times, without zeros at its end. -/
def decimalNumeral (n places : Nat) : Text :=
  let scale := Nat.pow 10 places
  if n % scale = 0 then Text.ofNat (n / scale)
  else
    let digits := (Text.ofNat (n % scale)).leftpad places '0'
    Text.ofNat (n / scale) ++ '.' :: (digits.reverse.dropWhile (· = '0')).reverse

/-- The exact decimal numeral. There is none if the denominator has a prime factor
other than 2 and 5, or if the number of units of the last place does not fit. -/
def toDecimal? (r : Ratio) : Option Text := do
  let (odd, twos) := withoutFactor 2 r.denominator
  let (rest, fives) := withoutFactor 5 odd
  if rest ≠ 1 then none
  else
    let places := max twos fives
    let scale ← bounded (Nat.pow 10 places)
    let units ← bounded (r.numerator * (scale / r.denominator))
    some (decimalNumeral units places)

end Ratio
end AssessmentItems
