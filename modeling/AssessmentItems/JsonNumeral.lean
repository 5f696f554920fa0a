import AssessmentItems.Json

/-!
Number literals of JSON and the numbers that they stand for. A literal without point
and exponent is an integer if it fits in 64 bits. Any other becomes a floating-point
number by one multiplication or division with a power of ten: of its digits count
those that fit in 64 bits, and each of these operations is rounded.
-/
namespace AssessmentItems

/-- Why a JSON text was refused: it ended inside a value, it is no JSON, or it is JSON
of another shape than the one that was asked for. -/
inductive JsonFault where
  | endOfText
  | malformed
  | wrongShape
deriving Repr, DecidableEq

/-- A number literal: its digits before and after the point, and its exponent. -/
structure JsonNumeral where
  negative : Bool
  whole : Text
  fraction : Option Text
  exponent : Option Int
deriving Repr, DecidableEq

namespace JsonNumeral

/-- One digit or more at the front of a text, and the rest. -/
def scanDigits (t : Text) : Except JsonFault (Text × Text) :=
  let digits := t.takeWhile Text.isPlainDigit
  let rest := t.dropWhile Text.isPlainDigit
  if digits ≠ [] then .ok (digits, rest)
  else .error (if rest = [] then .endOfText else .malformed)

def scanFraction : Text → Except JsonFault (Option Text × Text)
  | '.' :: t => do
    let (digits, rest) ← scanDigits t
    .ok (some digits, rest)
  | t => .ok (none, t)

/-- The value of an exponent's digits. -/
def scanExponentDigits (negative : Bool) (t : Text) : Except JsonFault (Option Int × Text) := do
  let (digits, rest) ← scanDigits t
  let size := Nat.ofDigitChars 10 digits 0
  .ok (some (if negative then -size else size), rest)

def scanExponent : Text → Except JsonFault (Option Int × Text)
  | c :: t =>
    if c = 'e' ∨ c = 'E' then
      match t with
      | '-' :: t => scanExponentDigits true t
      | '+' :: t => scanExponentDigits false t
      | t => scanExponentDigits false t
    else .ok (none, c :: t)
  | [] => .ok (none, [])

/-- The digits before the point: a zero stands alone. -/
def scanWhole (t : Text) : Except JsonFault (Text × Text) := do
  let (digits, rest) ← scanDigits t
  match digits with
  | '0' :: _ :: _ => .error .malformed
  | _ => .ok (digits, rest)

/-- Reads the literal after its sign. -/
def scanUnsigned (negative : Bool) (t : Text) : Except JsonFault (JsonNumeral × Text) := do
  let (whole, rest) ← scanWhole t
  let (fraction, rest) ← scanFraction rest
  let (exponent, rest) ← scanExponent rest
  .ok (⟨negative, whole, fraction, exponent⟩, rest)

/-- Reads the literal at the front of a text. -/
def scan : Text → Except JsonFault (JsonNumeral × Text)
  | '-' :: t => scanUnsigned true t
  | t => scanUnsigned false t

theorem append_of_scanDigits {t digits rest : Text} (h : scanDigits t = .ok (digits, rest)) :
    t = digits ++ rest ∧ digits ≠ [] := by
  simp only [scanDigits] at h
  split at h
  · next hne =>
    simp only [Except.ok.injEq, Prod.mk.injEq] at h
    obtain ⟨rfl, rfl⟩ := h
    exact ⟨List.takeWhile_append_dropWhile.symm, hne⟩
  · contradiction

private theorem length_of_scanDigits {t digits rest : Text}
    (h : scanDigits t = .ok (digits, rest)) : rest.length < t.length := by
  obtain ⟨rfl, hne⟩ := append_of_scanDigits h
  have hpos := List.length_pos_iff.mpr hne
  simp only [List.length_append]
  omega

private theorem length_of_scanWhole {t digits rest : Text}
    (h : scanWhole t = .ok (digits, rest)) : rest.length < t.length := by
  cases hd : scanDigits t with
  | error e => simp [scanWhole, hd, bind, Except.bind] at h
  | ok r =>
    simp only [scanWhole, hd, bind, Except.bind] at h
    split at h
    · contradiction
    · cases h
      exact length_of_scanDigits hd

private theorem length_of_scanFraction {t rest : Text} {fraction : Option Text}
    (h : scanFraction t = .ok (fraction, rest)) : rest.length ≤ t.length := by
  unfold scanFraction at h
  split at h
  · next t =>
    cases hd : scanDigits t with
    | error e => simp [hd, bind, Except.bind] at h
    | ok r =>
      simp only [hd, bind, Except.bind] at h
      cases h
      exact Nat.le_succ_of_le (Nat.le_of_lt (length_of_scanDigits hd))
  · cases h
    exact Nat.le_refl _

private theorem length_of_scanExponentDigits {negative : Bool} {t rest : Text}
    {exponent : Option Int} (h : scanExponentDigits negative t = .ok (exponent, rest)) :
    rest.length < t.length := by
  cases hd : scanDigits t with
  | error e => simp [scanExponentDigits, hd, bind, Except.bind] at h
  | ok r =>
    simp only [scanExponentDigits, hd, bind, Except.bind] at h
    cases h
    exact length_of_scanDigits hd

private theorem length_of_scanExponent {t rest : Text} {exponent : Option Int}
    (h : scanExponent t = .ok (exponent, rest)) : rest.length ≤ t.length := by
  unfold scanExponent at h
  split at h
  · split at h
    · split at h <;>
      · have hlt := length_of_scanExponentDigits h
        simp only [List.length_cons] at hlt ⊢
        omega
    · cases h
      exact Nat.le_refl _
  · cases h
    exact Nat.le_refl _

private theorem length_of_scanUnsigned {negative : Bool} {t rest : Text} {n : JsonNumeral}
    (h : scanUnsigned negative t = .ok (n, rest)) : rest.length < t.length := by
  cases hw : scanWhole t with
  | error e => simp [scanUnsigned, hw, bind, Except.bind] at h
  | ok whole =>
    cases hf : scanFraction whole.2 with
    | error e => simp [scanUnsigned, hw, hf, bind, Except.bind] at h
    | ok fraction =>
      cases he : scanExponent fraction.2 with
      | error e => simp [scanUnsigned, hw, hf, he, bind, Except.bind] at h
      | ok exponent =>
        simp only [scanUnsigned, hw, hf, he, bind, Except.bind] at h
        cases h
        have h1 := length_of_scanWhole hw
        have h2 := length_of_scanFraction hf
        have h3 := length_of_scanExponent he
        omega

/-- A literal takes at least one character. -/
theorem scan_length {t rest : Text} {n : JsonNumeral} (h : scan t = .ok (n, rest)) :
    rest.length < t.length := by
  unfold scan at h
  split at h
  · exact Nat.lt_succ_of_lt (length_of_scanUnsigned h)
  · exact length_of_scanUnsigned h

/-- Appends digits to a number while it stays below 2 ^ 64; the digits left over. -/
def absorbDigits (n : Nat) : Text → Nat × Text
  | [] => (n, [])
  | c :: t =>
    let next := 10 * n + (c.toNat - '0'.toNat)
    if next < Nat.pow 2 64 then absorbDigits next t else (n, c :: t)

/-- The power of ten, rounded; up to the 308th it is in range. -/
def powerOfTen? (power : Nat) : Option Binary64 := Binary64.ofNat? false (Nat.pow 10 power)

/-- Division of a 64-bit integer by a power of ten, in one step or, where the power is
out of range, in two. Powers beyond those of two steps leave nothing. -/
def divideByPower? (x : Binary64) (power : Nat) : Option Binary64 :=
  if power ≤ 308 then do x.div? (← powerOfTen? power)
  else if power ≤ 616 then do (← x.div? (← powerOfTen? 308)).div? (← powerOfTen? (power - 308))
  else some (.zero x.negative)

/-- A 64-bit integer times a power of ten; there is none beyond the greatest number. -/
def scaled? (negative : Bool) (n : Nat) (power : Int) : Option Binary64 := do
  let x ← Binary64.ofNat? negative n
  if power < 0 then divideByPower? x (-power).toNat
  else if power ≤ 308 then x.mul? (← powerOfTen? power.toNat)
  else if x.isZero then some x
  else none

/-- The number that a literal stands for, unless it is out of range. -/
def value? (n : JsonNumeral) : Option JsonNumber :=
  let (significand, dropped) := absorbDigits 0 n.whole
  if n.fraction = none ∧ n.exponent = none ∧ dropped = [] ∧
      (n.negative → 0 < significand ∧ significand ≤ Nat.pow 2 63) then
    some (.integer (if n.negative then -significand else significand))
  else
    let fraction := n.fraction.getD []
    let (significand, ignored) := absorbDigits significand fraction
    let power : Int := n.exponent.getD 0 + dropped.length - (fraction.length - ignored.length)
    (scaled? n.negative significand power).map .float

end JsonNumeral
end AssessmentItems
