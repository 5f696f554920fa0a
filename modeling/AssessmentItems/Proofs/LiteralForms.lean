import AssessmentItems.Response
import AssessmentItems.Proofs.DecimalNumerals
import AssessmentItems.Proofs.Readings
import Mathlib.Algebra.Order.Field.Power
import Mathlib.Tactic.NormNum

/-!
The literals of the base types by how they are spelled and what they denote. An integer is a
sign and digits; a decimal has a point among its digits or none, and an exponent or none. Their
values are exact, so the bound on decimals is one on rational numbers.
-/
namespace AssessmentItems.LiteralForms

open Text Literals Readings DecimalNumerals

def IsIdentifier (t : Text) : Prop := t ≠ [] ∧ ∀ c ∈ t, isSpace c = false

theorem isIdentifier_iff {t : Text} : isIdentifier t = true ↔ IsIdentifier t := by
  simp [isIdentifier, IsIdentifier]

def IsMark (sign : Text) : Prop := sign = [] ∨ sign = ['-'] ∨ sign = ['+']

def IsDigits (t : Text) : Prop := t ≠ [] ∧ ∀ c ∈ t, isPlainDigit c = true

def signed (sign digits : Text) : ℤ :=
  if sign = ['-'] then -(digitsValue digits : ℤ) else digitsValue digits

theorem splitSign_spec (t : Text) :
    ∃ sign, IsMark sign ∧ t = sign ++ (splitSign t).2 ∧
      (splitSign t).1 = decide (sign = ['-']) := by
  unfold splitSign
  split
  · exact ⟨['-'], .inr (.inl rfl), rfl, rfl⟩
  · exact ⟨['+'], .inr (.inr rfl), rfl, rfl⟩
  · exact ⟨[], .inl rfl, rfl, rfl⟩

theorem splitSign_mark {sign body : Text} (hsign : IsMark sign)
    (hbody : ∀ c ∈ body.head?, c ≠ '-' ∧ c ≠ '+') :
    splitSign (sign ++ body) = (decide (sign = ['-']), body) := by
  rcases hsign with rfl | rfl | rfl
  · rw [List.nil_append]
    unfold splitSign
    split
    · exact absurd rfl (hbody _ rfl).1
    · exact absurd rfl (hbody _ rfl).2
    · rfl
  · rfl
  · rfl

/-- A digit or the point is no sign. -/
theorem ne_mark_of_isPlainDigit {c : Char} (h : isPlainDigit c = true) : c ≠ '-' ∧ c ≠ '+' := by
  constructor
  · rintro rfl
    revert h
    decide
  · rintro rfl
    revert h
    decide

theorem IsDigits.head {digits : Text} (h : IsDigits digits) (rest : Text) :
    ∀ c ∈ (digits ++ rest).head?, isPlainDigit c = true :=
  fun c hc => h.2 c (mem_of_mem_head?_append h.1 hc)

theorem toNat?_of_isDigits {digits : Text} (h : IsDigits digits) :
    toNat? digits = some (digitsValue digits) :=
  toNat?_eq_some.2 ⟨h.1, h.2, rfl⟩

def IsInteger (t : Text) : Prop :=
  ∃ sign digits, IsMark sign ∧ IsDigits digits ∧ t = sign ++ digits ∧
    -2 ^ 63 ≤ signed sign digits ∧ signed sign digits < 2 ^ 63

theorem fits_iff (sign : Text) (n : ℕ) :
    ((if decide (sign = ['-']) = true then n ≤ Nat.pow 2 63 else n < Nat.pow 2 63) : Prop) ↔
      -2 ^ 63 ≤ (if sign = ['-'] then -(n : ℤ) else n) ∧
        (if sign = ['-'] then -(n : ℤ) else n) < 2 ^ 63 := by
  have hpow : Nat.pow 2 63 = 9223372036854775808 := by decide
  rw [hpow]
  by_cases hsign : sign = ['-']
  · simp only [hsign, decide_true, if_true]
    omega
  · simp only [hsign, decide_false, Bool.false_eq_true, if_false]
    omega

theorem isInteger_iff {t : Text} : isInteger t = true ↔ IsInteger t := by
  constructor
  · intro h
    obtain ⟨sign, hsign, ht, hnegative⟩ := splitSign_spec t
    simp only [isInteger] at h
    split at h
    · next n hn =>
      obtain ⟨hne, hdigits, hvalue⟩ := toNat?_eq_some.1 hn
      refine ⟨sign, _, hsign, ⟨hne, hdigits⟩, ht, ?_⟩
      rw [hnegative] at h
      rw [signed, hvalue, ← fits_iff]
      simpa using h
    · contradiction
  · rintro ⟨sign, digits, hsign, hdigits, rfl, hbounds⟩
    have hhead : ∀ c ∈ digits.head?, c ≠ '-' ∧ c ≠ '+' := fun c hc =>
      ne_mark_of_isPlainDigit (hdigits.2 c (List.mem_of_mem_head? hc))
    have hfits := (fits_iff sign (digitsValue digits)).2 hbounds
    simp only [isInteger, splitSign_mark hsign hhead, toNat?_of_isDigits hdigits]
    simpa using hfits

/-- Digits with a point somewhere among them, or none: how they are written, and the digits on
either side. -/
inductive Mantissa : Text → Text → Text → Prop
  | whole {whole : Text} (hwhole : IsDigits whole) : Mantissa whole whole []
  | point {whole fraction : Text} (hdigits : IsDigits (whole ++ fraction)) :
    Mantissa (whole ++ '.' :: fraction) whole fraction

/-- An exponent, or none, and the power of ten that it stands for. -/
inductive Power : Text → ℤ → Prop
  | none : Power [] 0
  | exponent {c : Char} {sign digits : Text} (hc : c = 'e' ∨ c = 'E') (hsign : IsMark sign)
    (hdigits : IsDigits digits) : Power (c :: (sign ++ digits)) (signed sign digits)

inductive Spells : Text → Decimal → Prop
  | literal {sign mantissa whole fraction power : Text} {exponent : ℤ} (hsign : IsMark sign)
    (hmantissa : Mantissa mantissa whole fraction) (hpower : Power power exponent) :
    Spells (sign ++ (mantissa ++ power)) ⟨decide (sign = ['-']), whole, fraction, exponent⟩

def size (d : Decimal) : ℚ :=
  digitsValue (d.whole ++ d.fraction) * 10 ^ (d.exponent - d.fraction.length)

/-- A decimal whose size is below the half-way point between the greatest floating-point number
and the next power of two. -/
def IsFloat (t : Text) : Prop := ∃ d, Spells t d ∧ size d < (2 ^ 54 - 1) * 2 ^ 970

theorem exponent?_cons (c : Char) (t : Text) :
    exponent? (c :: t) =
      if c = 'e' ∨ c = 'E' then
        (toNat? (splitSign t).2).map fun n : ℕ => if (splitSign t).1 then -(n : ℤ) else n
      else none := by
  rw [exponent?]
  obtain ⟨negative, digits⟩ := splitSign t
  dsimp only
  cases toNat? digits <;> rfl

theorem exponent?_eq_some {t : Text} {e : ℤ} : exponent? t = some e ↔ Power t e := by
  constructor
  · intro h
    cases t with
    | nil =>
      obtain rfl := Option.some.inj h
      exact .none
    | cons c t =>
      rw [exponent?_cons] at h
      obtain ⟨hc, h⟩ := Option.ite_none_right_eq_some.1 h
      obtain ⟨sign, hsign, ht, hnegative⟩ := splitSign_spec t
      obtain ⟨n, hn, rfl⟩ := Option.map_eq_some_iff.1 h
      obtain ⟨hne, hdigits, rfl⟩ := toNat?_eq_some.1 hn
      have hpower := Power.exponent hc hsign ⟨hne, hdigits⟩
      rw [← ht] at hpower
      rw [hnegative]
      simpa [signed] using hpower
  · intro h
    cases h with
    | none => rfl
    | @exponent c sign digits hc hsign hdigits =>
      have hhead : ∀ c ∈ digits.head?, c ≠ '-' ∧ c ≠ '+' := fun c hc =>
        ne_mark_of_isPlainDigit (hdigits.2 c (List.mem_of_mem_head? hc))
      rw [exponent?_cons, if_pos hc, splitSign_mark hsign hhead, toNat?_of_isDigits hdigits]
      simp [signed]

theorem Power.head {t : Text} {e : ℤ} (h : Power t e) :
    ∀ c ∈ t.head?, isPlainDigit c = false ∧ c ≠ '.' := by
  intro c hc
  cases h with
  | none => cases hc
  | exponent hletter hsign hdigits =>
    obtain rfl := Option.some.inj hc
    rcases hletter with rfl | rfl
    · decide
    · decide

def cutFraction : Text → Text × Text
  | '.' :: t => (t.takeWhile isPlainDigit, t.dropWhile isPlainDigit)
  | t => ([], t)

theorem cutFraction_of_head {t : Text} (h : ∀ c ∈ t.head?, c ≠ '.') : cutFraction t = ([], t) := by
  unfold cutFraction
  split
  · exact absurd rfl (h _ rfl)
  · rfl

theorem decimal?_eq (t : Text) :
    Literals.decimal? t =
      let body := (splitSign t).2
      let whole := body.takeWhile isPlainDigit
      let cut := cutFraction (body.dropWhile isPlainDigit)
      if whole = [] ∧ cut.1 = [] then none
      else (exponent? cut.2).map fun e => ⟨(splitSign t).1, whole, cut.1, e⟩ :=
  rfl

/-- What is cut from a text: digits on either side of a point. -/
theorem mantissa_spec (body : Text) :
    let whole := body.takeWhile isPlainDigit
    let cut := cutFraction (body.dropWhile isPlainDigit)
    ¬ (whole = [] ∧ cut.1 = []) →
      ∃ mantissa, Mantissa mantissa whole cut.1 ∧ body = mantissa ++ cut.2 := by
  intro whole cut hne
  have hwhole : ∀ c ∈ whole, isPlainDigit c = true := fun c hc => List.mem_takeWhile_imp hc
  have hbody : body = whole ++ body.dropWhile isPlainDigit :=
    List.takeWhile_append_dropWhile.symm
  by_cases hpoint : ∃ t, body.dropWhile isPlainDigit = '.' :: t
  · obtain ⟨t, ht⟩ := hpoint
    have hcut : cut = (t.takeWhile isPlainDigit, t.dropWhile isPlainDigit) := by
      simp only [cut, ht, cutFraction]
    rw [hcut] at hne ⊢
    refine ⟨whole ++ '.' :: t.takeWhile isPlainDigit, .point ⟨?_, ?_⟩, ?_⟩
    · exact fun h => hne (List.append_eq_nil_iff.1 h)
    · intro c hc
      rcases List.mem_append.1 hc with hc | hc
      · exact hwhole c hc
      · exact List.mem_takeWhile_imp hc
    · rw [List.append_assoc, List.cons_append, List.takeWhile_append_dropWhile, ← ht]
      exact hbody
  · have hcut : cut = ([], body.dropWhile isPlainDigit) := by
      apply cutFraction_of_head
      intro c hc heq
      obtain ⟨t, ht⟩ := List.head?_eq_some_iff.1 hc
      exact hpoint ⟨t, heq ▸ ht⟩
    rw [hcut] at hne ⊢
    exact ⟨whole, .whole ⟨fun h => hne ⟨h, rfl⟩, hwhole⟩, hbody⟩

theorem cut_mantissa {mantissa whole fraction rest : Text}
    (h : Mantissa mantissa whole fraction)
    (hrest : ∀ c ∈ rest.head?, isPlainDigit c = false ∧ c ≠ '.') :
    (mantissa ++ rest).takeWhile isPlainDigit = whole ∧
      cutFraction ((mantissa ++ rest).dropWhile isPlainDigit) = (fraction, rest) := by
  have hstop : ∀ c ∈ rest.head?, isPlainDigit c = false := fun c hc => (hrest c hc).1
  cases h with
  | whole hwhole =>
    rw [takeWhile_run hwhole.2 hstop, dropWhile_run hwhole.2 hstop]
    exact ⟨rfl, cutFraction_of_head fun c hc => (hrest c hc).2⟩
  | @point whole fraction hdigits =>
    have hwhole : ∀ c ∈ whole, isPlainDigit c = true := fun c hc =>
      hdigits.2 c (List.mem_append_left _ hc)
    have hfraction : ∀ c ∈ fraction, isPlainDigit c = true := fun c hc =>
      hdigits.2 c (List.mem_append_right _ hc)
    have hpoint : ∀ c ∈ ('.' :: (fraction ++ rest)).head?, isPlainDigit c = false := by
      intro c hc
      obtain rfl := Option.some.inj hc
      decide
    rw [List.append_assoc, List.cons_append, takeWhile_run hwhole hpoint,
      dropWhile_run hwhole hpoint, cutFraction, takeWhile_run hfraction hstop,
      dropWhile_run hfraction hstop]
    exact ⟨rfl, rfl⟩

theorem Mantissa.head {mantissa whole fraction : Text} (h : Mantissa mantissa whole fraction)
    (rest : Text) : ∀ c ∈ (mantissa ++ rest).head?, c ≠ '-' ∧ c ≠ '+' := by
  intro c hc
  cases h with
  | whole hwhole => exact ne_mark_of_isPlainDigit (hwhole.head rest c hc)
  | @point whole fraction hdigits =>
    cases whole with
    | nil =>
      obtain rfl := Option.some.inj hc
      decide
    | cons d whole =>
      obtain rfl := Option.some.inj hc
      exact ne_mark_of_isPlainDigit (hdigits.2 d List.mem_cons_self)

theorem Mantissa.not_empty {mantissa whole fraction : Text}
    (h : Mantissa mantissa whole fraction) : ¬ (whole = [] ∧ fraction = []) := by
  rintro ⟨rfl, rfl⟩
  cases h with
  | whole hwhole => exact hwhole.1 rfl
  | point hdigits => exact hdigits.1 rfl

theorem decimal?_eq_some {t : Text} {d : Decimal} :
    Literals.decimal? t = some d ↔ Spells t d := by
  constructor
  · intro h
    obtain ⟨sign, hsign, ht, hnegative⟩ := splitSign_spec t
    rw [decimal?_eq] at h
    dsimp only at h
    split_ifs at h with hempty
    obtain ⟨exponent, hexponent, rfl⟩ := Option.map_eq_some_iff.1 h
    obtain ⟨mantissa, hmantissa, hbody⟩ := mantissa_spec _ hempty
    have hspells := Spells.literal hsign hmantissa (exponent?_eq_some.1 hexponent)
    rw [← hbody, ← ht, ← hnegative] at hspells
    exact hspells
  · rintro ⟨hsign, hmantissa, hpower⟩
    obtain ⟨hwhole, hcut⟩ := cut_mantissa hmantissa hpower.head
    rw [decimal?_eq, splitSign_mark hsign (hmantissa.head _)]
    dsimp only
    rw [hwhole, hcut, if_neg hmantissa.not_empty, exponent?_eq_some.2 hpower, Option.map_some]

theorem pow_length_le {n : ℕ} (hn : n ≠ 0) : 10 ^ (ofNat n).length ≤ 10 * n := by
  cases hdigits : ofNat n with
  | nil => exact absurd hdigits (ofNat_ne_nil n)
  | cons c rest =>
    have hplain : ∀ d ∈ c :: rest, isPlainDigit d = true := fun d hd =>
      isPlainDigit_of_mem_ofNat (hdigits ▸ hd)
    have hc : c ≠ '0' := by
      rintro rfl
      exact hn (ofNat_cons_zero hdigits).1
    have hpositive : 1 ≤ digitsValue [c] := by
      have hle := hplain c List.mem_cons_self
      have hne : c.toNat ≠ 48 := fun h => hc (Char.toNat_inj.1 h)
      simp only [isPlainDigit, Bool.and_eq_true, decide_eq_true_eq] at hle
      have hge : 48 ≤ c.toNat := hle.1
      have hdigit : digitsValue [c] = c.toNat - 48 := by simp [digitsValue, Nat.ofDigitChars_cons]
      omega
    have hvalue := digitsValue_append [c] rest
    rw [List.singleton_append, ← hdigits, digitsValue_ofNat] at hvalue
    have hmul := Nat.mul_le_mul_left (10 ^ rest.length) hpositive
    rw [List.length_cons, Nat.pow_succ]
    omega

theorem lt_pow_length (n : ℕ) : n < 10 ^ (ofNat n).length := by
  have h := digitsValue_lt (t := ofNat n) fun c hc => isPlainDigit_of_mem_ofNat hc
  rwa [digitsValue_ofNat] at h

theorem scaled_lt_iff (n m : ℕ) (power : ℤ) :
    n * Nat.pow 10 power.toNat < m * Nat.pow 10 (-power).toNat ↔ (n : ℚ) * 10 ^ power < m := by
  rcases le_total 0 power with h | h
  · obtain ⟨k, rfl⟩ := Int.eq_ofNat_of_zero_le h
    have hnone : (-(k : ℤ)).toNat = 0 := by omega
    rw [hnone, Int.toNat_natCast, zpow_natCast, ← Nat.cast_lt (α := ℚ)]
    simp
  · obtain ⟨k, hk⟩ := Int.eq_ofNat_of_zero_le (Int.neg_nonneg_of_nonpos h)
    obtain rfl : power = -(k : ℤ) := by omega
    have hnone : (-(k : ℤ)).toNat = 0 := by omega
    have hpos : (0 : ℚ) < 10 ^ k := by positivity
    rw [hnone, neg_neg, Int.toNat_natCast, zpow_neg, zpow_natCast, ← div_eq_mul_inv,
      div_lt_iff₀ hpos, ← Nat.cast_lt (α := ℚ)]
    simp

theorem overflow_eq : (overflow : ℚ) = (2 ^ 54 - 1) * 2 ^ 970 := by
  simp only [overflow, Nat.pow_eq, Nat.cast_mul, Nat.cast_sub Nat.one_le_two_pow, Nat.cast_pow,
    Nat.cast_one, Nat.cast_ofNat]

theorem pow_lt_overflow : (10 : ℚ) ^ 308 < (2 ^ 54 - 1) * 2 ^ 970 := by
  rw [show 308 = 154 * 2 from rfl, show 970 = 194 * 5 from rfl, pow_mul, pow_mul]
  norm_num

theorem overflow_lt_pow : ((2 : ℚ) ^ 54 - 1) * 2 ^ 970 < 10 ^ 309 := by
  rw [show 309 = 103 * 3 from rfl, show 970 = 194 * 5 from rfl, pow_mul, pow_mul]
  norm_num

/-- The count of digits settles the bound, unless the size has as many digits as the greatest
number. -/
theorem isFinite_iff (d : Decimal) : d.isFinite = true ↔ size d < (2 ^ 54 - 1) * 2 ^ 970 := by
  have hten : (1 : ℚ) ≤ 10 := by norm_num
  obtain ⟨n, hn⟩ : ∃ n, n = digitsValue (d.whole ++ d.fraction) := ⟨_, rfl⟩
  obtain ⟨power, hpower⟩ : ∃ power : ℤ, power = d.exponent - d.fraction.length := ⟨_, rfl⟩
  have hpositive : (0 : ℚ) < 10 ^ power := by positivity
  have hsum : (10 : ℚ) ^ (ofNat n).length * 10 ^ power = 10 ^ ((ofNat n).length + power : ℤ) := by
    rw [zpow_add₀ (by norm_num), zpow_natCast]
  rw [size, ← hn, ← hpower, Decimal.isFinite]
  simp only [show Nat.ofDigitChars 10 (d.whole ++ d.fraction) 0 = n from hn.symm, ← hpower]
  split_ifs with hsmall hlarge
  · simp only [true_iff]
    rcases hsmall with hzero | hplaces
    · rw [hzero, Nat.cast_zero, zero_mul]
      norm_num
    · calc (n : ℚ) * 10 ^ power
          ≤ 10 ^ (ofNat n).length * 10 ^ power := by
            gcongr
            exact_mod_cast (lt_pow_length n).le
        _ = 10 ^ ((ofNat n).length + power : ℤ) := hsum
        _ ≤ 10 ^ (308 : ℤ) := zpow_le_zpow_right₀ hten hplaces
        _ < (2 ^ 54 - 1) * 2 ^ 970 := pow_lt_overflow
  · have hzero : n ≠ 0 := fun h => hsmall (.inl h)
    simp only [false_iff, not_lt]
    have hscaled : (10 : ℚ) * 10 ^ (309 : ℤ) ≤ 10 * (n * 10 ^ power) :=
      calc (10 : ℚ) * 10 ^ (309 : ℤ)
          = 10 ^ (310 : ℤ) := (zpow_one_add₀ (by norm_num) 309).symm
        _ ≤ 10 ^ ((ofNat n).length + power : ℤ) := zpow_le_zpow_right₀ hten hlarge
        _ = 10 ^ (ofNat n).length * 10 ^ power := hsum.symm
        _ ≤ 10 * n * 10 ^ power := by
            gcongr
            exact_mod_cast pow_length_le hzero
        _ = 10 * (n * 10 ^ power) := mul_assoc _ _ _
    exact overflow_lt_pow.le.trans (le_of_mul_le_mul_left hscaled (by norm_num))
  · rw [decide_eq_true_eq, ← overflow_eq]
    exact scaled_lt_iff n overflow power

theorem isFloat_iff {t : Text} : isFloat t = true ↔ IsFloat t := by
  rw [isFloat, Option.any_eq_true]
  exact exists_congr fun d => and_congr decimal?_eq_some (isFinite_iff d)

def IsLiteral : BaseType → Text → Prop
  | .identifier => IsIdentifier
  | .string => fun _ => True
  | .integer => IsInteger
  | .float => IsFloat

theorem accepts_iff {type : BaseType} {t : Text} :
    type.accepts t = true ↔ IsLiteral type t := by
  cases type with
  | identifier => exact isIdentifier_iff
  | string => exact ⟨fun _ => trivial, fun _ => rfl⟩
  | integer => exact isInteger_iff
  | float => exact isFloat_iff

end AssessmentItems.LiteralForms
