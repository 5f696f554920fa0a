import AssessmentItems.Proofs.PiReadings
import AssessmentItems.Proofs.ShortestNumerals

/-!
The exact value of a multiple of π, with 3.14 for π. Each operation on fractions computes the
operation on rational numbers and puts its result in lowest terms, if the products that it forms
fit. So the value of a term is the rational number in lowest terms, and whether it is printed
depends on that number alone.
-/
namespace AssessmentItems.PiValues

open Text AnswerRules TextClasses Readings PiReadings DecimalNumerals ShortestNumerals

def lowest (x : ℚ) : Ratio := ⟨x.num.natAbs, x.den⟩

theorem lowest_div {a b : ℕ} (hb : 0 < b) (h : Nat.Coprime a b) : lowest (a / b) = ⟨a, b⟩ := by
  have hb' : (0 : ℤ) < (b : ℕ) := by exact_mod_cast hb
  have hnum := Rat.num_div_eq_of_coprime (a := (a : ℕ)) hb' h
  have hden := Rat.den_div_eq_of_coprime (a := (a : ℕ)) hb' h
  rw [Int.cast_natCast, Int.cast_natCast] at hnum hden
  rw [lowest, hnum, Int.natAbs_natCast, Nat.cast_inj.1 hden]

theorem den_div {a b : ℕ} (hb : 0 < b) (h : Nat.Coprime a b) : ((a : ℚ) / b).den = b :=
  congrArg Ratio.denominator (lowest_div hb h)

theorem ratioValue_lowest {x : ℚ} (hx : 0 ≤ x) : ratioValue (lowest x) = x := by
  have hnum : (x.num.natAbs : ℚ) = x.num := by
    rw [← Int.cast_natCast, Int.natAbs_of_nonneg (Rat.num_nonneg.2 hx)]
  rw [ratioValue, lowest, hnum, Rat.num_div_den]

theorem make?_eq_some {n d : ℕ} {r : Ratio} :
    Ratio.make? n d = some r ↔ d ≠ 0 ∧ r = lowest (n / d) := by
  rw [Ratio.make?]
  split_ifs with hd
  · simp [hd]
  · have hcoprime := Nat.coprime_div_gcd_div_gcd (Nat.gcd_pos_of_pos_right n (Nat.pos_of_ne_zero hd))
    have hpos := Nat.pos_of_ne_zero (reduced_ne_zero n hd)
    have hlowest := lowest_div hpos hcoprime
    rw [Nat.cast_div_div_div_cancel_right (Nat.gcd_dvd_right n d) (Nat.gcd_dvd_left n d)] at hlowest
    rw [hlowest, Option.some.injEq, eq_comm]
    exact (and_iff_right hd).symm

theorem bounded_eq_some_iff {n m : ℕ} : bounded n = some m ↔ n < 2 ^ 128 ∧ m = n := by
  simp only [bounded, Option.ite_none_right_eq_some, Option.some.injEq, eq_comm]
  exact Iff.rfl

theorem boundedNumber?_eq_some {t : Text} {n : ℕ} (h : ∀ c ∈ t, isDigit c = true) :
    boundedNumber? t = some n ↔ toNat? t = some n ∧ n < 2 ^ 128 := by
  have hplus : '+' ∉ t := fun hmem => absurd (h '+' hmem) (by decide)
  rw [boundedNumber?, withoutPlus_eq_self hplus]
  simp only [Option.bind_eq_some_iff, bounded_eq_some_iff]
  constructor
  · rintro ⟨_, ht, hn, rfl⟩
    exact ⟨ht, hn⟩
  · rintro ⟨ht, hn⟩
    exact ⟨n, ht, hn, rfl⟩

theorem ofDecimal?_eq_some {whole fraction : Text} {r : Ratio}
    (h : ∀ c ∈ whole ++ fraction, isDigit c = true) :
    Ratio.ofDecimal? whole fraction = some r ↔
      ∃ n, toNat? (whole ++ fraction) = some n ∧ n < 2 ^ 128 ∧ 10 ^ fraction.length < 2 ^ 128 ∧
        r = lowest (n / 10 ^ fraction.length) := by
  have hscale : ((Nat.pow 10 fraction.length : ℕ) : ℚ) = 10 ^ fraction.length :=
    Nat.cast_pow 10 fraction.length
  simp only [Ratio.ofDecimal?, bind, Option.bind_eq_some_iff, boundedNumber?_eq_some h,
    bounded_eq_some_iff, make?_eq_some]
  constructor
  · rintro ⟨n, ⟨ht, hn⟩, _, ⟨hfits, rfl⟩, -, rfl⟩
    exact ⟨n, ht, hn, hfits, by rw [hscale]⟩
  · rintro ⟨n, ht, hn, hfits, rfl⟩
    exact ⟨n, ⟨ht, hn⟩, _, ⟨hfits, rfl⟩, (Nat.pow_pos (by decide)).ne', by rw [hscale]⟩

theorem mul?_eq_some {r s t : Ratio} :
    r.mul? s = some t ↔
      r.numerator * s.numerator < 2 ^ 128 ∧ r.denominator * s.denominator < 2 ^ 128 ∧
        r.denominator * s.denominator ≠ 0 ∧ t = lowest (ratioValue r * ratioValue s) := by
  have hvalue : ratioValue r * ratioValue s =
      ((r.numerator * s.numerator : ℕ) : ℚ) / (r.denominator * s.denominator : ℕ) := by
    rw [ratioValue, ratioValue, div_mul_div_comm, Nat.cast_mul, Nat.cast_mul]
  simp only [Ratio.mul?, bind, Option.bind_eq_some_iff, bounded_eq_some_iff, make?_eq_some, hvalue]
  constructor
  · rintro ⟨_, ⟨hn, rfl⟩, _, ⟨hd, rfl⟩, hne, rfl⟩
    exact ⟨hn, hd, hne, rfl⟩
  · rintro ⟨hn, hd, hne, rfl⟩
    exact ⟨_, ⟨hn, rfl⟩, _, ⟨hd, rfl⟩, hne, rfl⟩

theorem divNat?_eq_some {r t : Ratio} {b : ℕ} :
    r.divNat? b = some t ↔
      r.denominator * b < 2 ^ 128 ∧ r.denominator * b ≠ 0 ∧ t = lowest (ratioValue r / b) := by
  have hvalue : ratioValue r / b = (r.numerator : ℚ) / (r.denominator * b : ℕ) := by
    rw [ratioValue, div_div, Nat.cast_mul]
  simp only [Ratio.divNat?, bind, Option.bind_eq_some_iff, bounded_eq_some_iff, make?_eq_some,
    hvalue]
  constructor
  · rintro ⟨_, ⟨hd, rfl⟩, hne, rfl⟩
    exact ⟨hd, hne, rfl⟩
  · rintro ⟨hd, hne, rfl⟩
    exact ⟨_, ⟨hd, rfl⟩, hne, rfl⟩

/-- The numbers that are formed on the way to the value of a term fit. The coefficient has the
digits of `n` with the given places after the point, and `b` divides the term. -/
structure ProductsFit (n places b : ℕ) : Prop where
  digits : n < 2 ^ 128
  scale : 10 ^ places < 2 ^ 128
  divisor : b < 2 ^ 128
  numerator : ((n : ℚ) / 10 ^ places).num.natAbs * 157 < 2 ^ 128
  denominator : ((n : ℚ) / 10 ^ places).den * 50 < 2 ^ 128
  quotient : ((n : ℚ) / 10 ^ places * 3.14).den * b < 2 ^ 128

theorem ratioValue_piValue : ratioValue piValue = 3.14 := by
  rw [ratioValue, piValue]
  norm_num

/-- A term has a value if its numbers are plain, it is not divided by zero, and what is formed on
the way fits. -/
theorem value?_eq_some {p : PiTerm} {r : Ratio} (hp : Written p) :
    p.value? = some r ↔
      ∃ n b, toNat? (p.whole ++ p.fraction) = some n ∧ toNat? p.divisor = some b ∧ b ≠ 0 ∧
        ProductsFit n p.fraction.length b ∧
        r = lowest ((n : ℚ) / 10 ^ p.fraction.length * 3.14 / b) := by
  have hpositive : ∀ n : ℕ, 0 ≤ (n : ℚ) / 10 ^ p.fraction.length := fun n =>
    div_nonneg (Nat.cast_nonneg n) (pow_nonneg (by norm_num) _)
  have hproduct : ∀ n : ℕ, 0 ≤ (n : ℚ) / 10 ^ p.fraction.length * 3.14 := fun n =>
    mul_nonneg (hpositive n) (by norm_num)
  simp only [PiTerm.value?, bind, Option.bind_eq_some_iff, boundedNumber?_eq_some hp.digits_mem.2,
    ofDecimal?_eq_some hp.digits_mem.1, mul?_eq_some, divNat?_eq_some, ratioValue_piValue]
  constructor
  · rintro ⟨b, ⟨hb, hbfits⟩, _, ⟨n, hn, hnfits, hscale, rfl⟩, _, ⟨hnum, hden, -, rfl⟩, hquot, hne,
      rfl⟩
    rw [ratioValue_lowest (hpositive n)] at hquot hne ⊢
    rw [ratioValue_lowest (hproduct n)]
    exact ⟨n, b, hn, hb, right_ne_zero_of_mul hne, ⟨hnfits, hscale, hbfits, hnum, hden, hquot⟩, rfl⟩
  · rintro ⟨n, b, hn, hb, hne, hfits, rfl⟩
    refine ⟨b, ⟨hb, hfits.divisor⟩, _, ⟨n, hn, hfits.digits, hfits.scale, rfl⟩, _,
      ⟨hfits.numerator, hfits.denominator, mul_ne_zero (Rat.den_nz _) (by decide), rfl⟩, ?_⟩
    rw [ratioValue_lowest (hpositive n), ratioValue_lowest (hproduct n)]
    exact ⟨hfits.quotient, mul_ne_zero (Rat.den_nz _) hne, rfl⟩

def number (p : PiTerm) : ℚ :=
  digitsValue (p.whole ++ p.fraction) / 10 ^ p.fraction.length / digitsValue p.divisor

theorem number_nonneg (p : PiTerm) : 0 ≤ number p :=
  div_nonneg (div_nonneg (Nat.cast_nonneg _) (pow_nonneg (by norm_num) _)) (Nat.cast_nonneg _)

theorem number_eq {p : PiTerm} {n b : ℕ} (hn : toNat? (p.whole ++ p.fraction) = some n)
    (hb : toNat? p.divisor = some b) : number p = n / 10 ^ p.fraction.length / b := by
  rw [number, (toNat?_eq_some.1 hn).2.2, (toNat?_eq_some.1 hb).2.2]

/-- If a term has a value, it is 3.14 times its number. -/
theorem eq_lowest_of_value? {p : PiTerm} {r : Ratio} (hp : Written p) (h : p.value? = some r) :
    r = lowest (number p * 3.14) := by
  obtain ⟨n, b, hn, hb, -, -, rfl⟩ := (value?_eq_some hp).1 h
  rw [number_eq hn hb]
  exact congrArg lowest (by ring)

/-- What is read as a decimal is a coefficient with the same value. -/
theorem exists_isDecimal_of_decimal? {t : Text} {x : ℚ} (h : decimal? t = some x) :
    ∃ whole fraction, IsDecimal t whole fraction ∧
      (digitsValue (whole ++ fraction) : ℚ) / 10 ^ fraction.length = x := by
  have hplain : ∀ {u : Text}, (∀ c ∈ u, isPlainDigit c = true) → ∀ c ∈ u, isDigit c = true :=
    fun hu c hc => isDigit_of_isPlainDigit (hu c hc)
  have hsplit := List.takeWhile_append_dropWhile (p := (· ≠ '.')) (l := t)
  simp only [decimal?] at h
  split at h
  · obtain ⟨n, hn, rfl⟩ := Option.map_eq_some_iff.1 h
    obtain ⟨hne, hall, hvalue⟩ := toNat?_eq_some.1 hn
    exact ⟨t, [], .digits (isDigits_iff.2 ⟨hne, hplain hall⟩), by simp [hvalue]⟩
  · next c fraction hpoint =>
    split_ifs at h with hwhole
    obtain ⟨n, hn, rfl⟩ := Option.map_eq_some_iff.1 h
    obtain ⟨hne, hall, hvalue⟩ := toNat?_eq_some.1 hn
    obtain rfl : c = '.' := eq_of_dropWhile_ne hpoint
    rw [hpoint] at hsplit
    refine ⟨t.takeWhile (· ≠ '.'), fraction, ?_, ?_⟩
    · nth_rewrite 1 [← hsplit]
      exact .point (hplain (List.all_eq_true.1 hwhole)) (isDigits_iff.2 ⟨hne, hplain hall⟩)
    · have hscale : (10 : ℚ) ^ fraction.length ≠ 0 := pow_ne_zero _ (by norm_num)
      rw [digitsValue_append, hvalue]
      push_cast
      field_simp

/-- A number has a decimal that the bounded arithmetic reaches: its expansion ends, and neither
the power of ten nor the number of units of the last place is too large. -/
structure Printed (x : ℚ) : Prop where
  terminating : Terminating x.den
  scale : 10 ^ places x.den < 2 ^ 128
  scaled : x * 10 ^ places x.den < 2 ^ 128

theorem units_lowest {x : ℚ} (hx : 0 ≤ x) (h : Terminating x.den) :
    ((x.num.natAbs * (10 ^ places x.den / x.den) : ℕ) : ℚ) = x * 10 ^ places x.den := by
  have hdvd := dvd_ten_pow_places (Rat.den_nz x) h
  have hvalue : (x.num.natAbs : ℚ) / x.den = x := ratioValue_lowest hx
  calc ((x.num.natAbs * (10 ^ places x.den / x.den) : ℕ) : ℚ)
      = (x.num.natAbs : ℚ) * (10 ^ places x.den / x.den) := by
        rw [Nat.cast_mul, Nat.cast_div hdvd (Nat.cast_ne_zero.2 (Rat.den_nz x)), Nat.cast_pow,
          Nat.cast_ofNat]
    _ = (x.num.natAbs : ℚ) / x.den * 10 ^ places x.den := by ring
    _ = x * 10 ^ places x.den := by rw [hvalue]

theorem exists_decimal_iff {x : ℚ} (hx : 0 ≤ x) :
    (∃ decimal, (lowest x).toDecimal? = some decimal) ↔ Printed x := by
  constructor
  · rintro ⟨decimal, h⟩
    obtain ⟨hfactors, hscale, hunits, -⟩ := (toDecimal?_iff (Rat.den_nz x)).1 h
    refine ⟨hfactors, hscale, ?_⟩
    rw [← units_lowest hx hfactors]
    exact_mod_cast hunits
  · intro h
    have hscaled := h.scaled
    rw [← units_lowest hx h.terminating] at hscaled
    have hunits : x.num.natAbs * (10 ^ places x.den / x.den) < 2 ^ 128 := by exact_mod_cast hscaled
    exact ⟨_, (toDecimal?_iff (Rat.den_nz x)).2 ⟨h.terminating, h.scale, hunits, rfl⟩⟩

end AssessmentItems.PiValues
