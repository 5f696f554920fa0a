import AssessmentItems.Proofs.DecimalNumerals
import Mathlib.NumberTheory.Padics.PadicVal.Basic

/-!
The shortest numeral of a number. A numeral has digits before the point, and after the
point if there is one. Numerals of one number agree in their whole part, and the digits
after the point agree up to zeros at the end, so the printed numeral, which has no zero
that could be left out, is shorter than all others. It is printed exactly if the
denominator has no prime factor but 2 and 5 and the numbers on the way to it fit.
-/
namespace AssessmentItems.ShortestNumerals

open Text DecimalNumerals

def PlainDigits (t : Text) : Prop := ∀ c ∈ t, isPlainDigit c = true

theorem plainDigits_ofNat (n : ℕ) : PlainDigits (ofNat n) := fun _ hc =>
  isPlainDigit_of_mem_ofNat hc

theorem digitsValue_singleton {c : Char} (h : isPlainDigit c = true) :
    digitsValue [c] = c.toNat - 48 ∧ 48 ≤ c.toNat ∧ c.toNat ≤ 57 := by
  simp only [isPlainDigit, Bool.and_eq_true, decide_eq_true_eq] at h
  exact ⟨by simp [digitsValue, Nat.ofDigitChars_cons], h.1, h.2⟩

theorem digitsValue_concat (t : Text) {c : Char} (h : isPlainDigit c = true) :
    digitsValue (t ++ [c]) = 10 * digitsValue t + (c.toNat - 48) := by
  rw [digitsValue_append, (digitsValue_singleton h).1]
  rfl

/-- Digits of one length are known by their value. -/
theorem eq_of_digitsValue {t u : Text} (ht : PlainDigits t) (hu : PlainDigits u)
    (hlength : t.length = u.length) (hvalue : digitsValue t = digitsValue u) : t = u := by
  induction t using List.reverseRecOn generalizing u with
  | nil => exact (List.length_eq_zero_iff.1 hlength.symm).symm
  | append_singleton t c ih =>
    rcases List.eq_nil_or_concat u with rfl | ⟨u, d, rfl⟩
    · simp at hlength
    · rw [List.concat_eq_append] at *
      have hc := ht c (by simp)
      have hd := hu d (by simp)
      have hcvalue := digitsValue_singleton hc
      have hdvalue := digitsValue_singleton hd
      rw [digitsValue_concat t hc, digitsValue_concat u hd] at hvalue
      have hlast : c = d := Char.ext (UInt32.toNat_inj.1 (by
        change c.toNat = d.toNat
        omega))
      have hfront : t = u := ih (fun e he => ht e (List.mem_append_left _ he))
        (fun e he => hu e (List.mem_append_left _ he)) (by simpa using hlength) (by omega)
      rw [hfront, hlast]

/-- Of all digits with one value, those without a zero at the front are the fewest. -/
theorem ofNat_shortest {t : Text} (hne : t ≠ []) (ht : PlainDigits t) :
    t = ofNat (digitsValue t) ∨ (ofNat (digitsValue t)).length < t.length := by
  have hle : (ofNat (digitsValue t)).length ≤ t.length :=
    (Nat.length_toDigits_le_iff (by decide) (List.length_pos_iff.2 hne)).2 (digitsValue_lt ht)
  rcases hle.lt_or_eq with hlt | heq
  · exact Or.inr hlt
  · exact Or.inl (eq_of_digitsValue ht (plainDigits_ofNat _) heq.symm (digitsValue_ofNat _).symm)

/-- The last digit after a point says whether there could be one less. -/
theorem not_dvd_digitsValue {t : Text} (hne : t ≠ []) (ht : PlainDigits t)
    (hlast : t.getLast? ≠ some '0') : ¬ 10 ∣ digitsValue t := by
  rcases List.eq_nil_or_concat t with rfl | ⟨t, c, rfl⟩
  · contradiction
  · rw [List.concat_eq_append] at *
    have hc := ht c (by simp)
    obtain ⟨-, hlow, hhigh⟩ := digitsValue_singleton hc
    have hne : c.toNat ≠ 48 := fun h => hlast (by
      rw [List.getLast?_concat, Option.some.injEq]
      exact Char.ext (UInt32.toNat_inj.1 h))
    rw [digitsValue_concat t hc]
    omega

def withPoint (whole fraction : Text) : Text :=
  if fraction = [] then whole else whole ++ '.' :: fraction

def IsNumeral (t : Text) : Prop :=
  ∃ whole fraction, whole ≠ [] ∧ PlainDigits whole ∧ PlainDigits fraction ∧
    t = withPoint whole fraction

def IsShortest (t : Text) (x : ℚ) : Prop :=
  IsNumeral t ∧ decimal? t = some x ∧
    ∀ u, IsNumeral u → decimal? u = some x → u = t ∨ t.length < u.length

theorem length_withPoint (whole fraction : Text) :
    (withPoint whole fraction).length =
      whole.length + if fraction = [] then 0 else fraction.length + 1 := by
  rw [withPoint]
  split_ifs with h
  · simp
  · rw [List.length_append, List.length_cons]

theorem decimal?_withPoint {whole fraction : Text} (hne : whole ≠ []) (hw : PlainDigits whole)
    (hf : PlainDigits fraction) : decimal? (withPoint whole fraction) =
      some ((digitsValue whole : ℚ) + digitsValue fraction / 10 ^ fraction.length) := by
  rw [withPoint]
  split_ifs with h
  · rw [decimal?_digits (toNat?_eq_some.2 ⟨hne, hw, rfl⟩), h]
    simp [digitsValue]
  · exact decimal?_point hw (toNat?_eq_some.2 ⟨h, hf, rfl⟩)

/-- The value of a numeral, in units of its last place. -/
theorem units_eq {whole fraction : Text} {x : ℚ} (hne : whole ≠ []) (hw : PlainDigits whole)
    (hf : PlainDigits fraction) (h : decimal? (withPoint whole fraction) = some x) :
    x * 10 ^ fraction.length =
      (digitsValue whole * 10 ^ fraction.length + digitsValue fraction : ℕ) := by
  have hscale : (10 : ℚ) ^ fraction.length ≠ 0 := pow_ne_zero _ (by norm_num)
  rw [decimal?_withPoint hne hw hf, Option.some.injEq] at h
  rw [← h]
  push_cast
  field_simp

/-- In units of both last places, two rests are below the place of the units, so equal sums have
equal parts. -/
theorem eq_of_units {a a' b b' s s' : ℕ} (hb : b < s) (hb' : b' < s')
    (h : (a * s + b) * s' = (a' * s' + b') * s) : a = a' ∧ b * s' = b' * s := by
  have hrest : b * s' < s * s' := Nat.mul_lt_mul_of_pos_right hb (Nat.pos_of_ne_zero (by omega))
  have hrest' : b' * s < s * s' := by
    rw [Nat.mul_comm s s']
    exact Nat.mul_lt_mul_of_pos_right hb' (Nat.pos_of_ne_zero (by omega))
  have hsum : s * s' * a + b * s' = s * s' * a' + b' * s := by
    calc s * s' * a + b * s' = (a * s + b) * s' := by ring
      _ = (a' * s' + b') * s := h
      _ = s * s' * a' + b' * s := by ring
  have hpos : 0 < s * s' := by omega
  have hwhole : a = a' := by
    have hdiv := congrArg (· / (s * s')) hsum
    simpa [Nat.mul_add_div hpos, Nat.div_eq_of_lt hrest, Nat.div_eq_of_lt hrest'] using hdiv
  exact ⟨hwhole, by subst hwhole; omega⟩

/-- Numerals of one number have whole parts of one value, and the same digits after the
point but for zeros at the end. -/
theorem parts_agree {whole whole' fraction fraction' : Text} {x : ℚ}
    (hne : whole ≠ []) (hw : PlainDigits whole) (hf : PlainDigits fraction)
    (hne' : whole' ≠ []) (hw' : PlainDigits whole') (hf' : PlainDigits fraction')
    (h : decimal? (withPoint whole fraction) = some x)
    (h' : decimal? (withPoint whole' fraction') = some x) :
    digitsValue whole = digitsValue whole' ∧
      digitsValue fraction * 10 ^ fraction'.length =
        digitsValue fraction' * 10 ^ fraction.length := by
  have hunits := units_eq hne hw hf h
  have hunits' := units_eq hne' hw' hf' h'
  have hcross : ((digitsValue whole * 10 ^ fraction.length + digitsValue fraction : ℕ) : ℚ) *
        10 ^ fraction'.length =
      (digitsValue whole' * 10 ^ fraction'.length + digitsValue fraction' : ℕ) *
        10 ^ fraction.length := by
    rw [← hunits, ← hunits']
    ring
  have hcross : (digitsValue whole * 10 ^ fraction.length + digitsValue fraction) *
        10 ^ fraction'.length =
      (digitsValue whole' * 10 ^ fraction'.length + digitsValue fraction') *
        10 ^ fraction.length := by
    exact_mod_cast hcross
  exact eq_of_units (digitsValue_lt hf) (digitsValue_lt hf') hcross

/-- Digits after the point with no zero at their end are fewer than any others of their
value. -/
theorem fraction_shortest {fraction fraction' : Text} (hf : PlainDigits fraction)
    (hf' : PlainDigits fraction') (hlast : fraction.getLast? ≠ some '0')
    (h : digitsValue fraction * 10 ^ fraction'.length =
      digitsValue fraction' * 10 ^ fraction.length) :
    fraction' = fraction ∨ fraction.length < fraction'.length := by
  rcases Nat.lt_trichotomy fraction.length fraction'.length with hlt | heq | hgt
  · exact Or.inr hlt
  · rw [heq] at h
    have hvalue := Nat.eq_of_mul_eq_mul_right (Nat.pow_pos (by decide)) h
    exact Or.inl (eq_of_digitsValue hf' hf heq.symm hvalue.symm)
  · exfalso
    have hne : fraction ≠ [] := by
      rintro rfl
      simp at hgt
    obtain ⟨k, hk⟩ := Nat.exists_eq_add_of_lt hgt
    refine not_dvd_digitsValue hne hf hlast ⟨digitsValue fraction' * 10 ^ k, ?_⟩
    refine Nat.eq_of_mul_eq_mul_right (Nat.pow_pos (n := fraction'.length) (by decide : 0 < 10)) ?_
    rw [h, hk, Nat.pow_succ, Nat.pow_add]
    ring

/-- A numeral without a zero that could be left out is the shortest of its value. -/
theorem isShortest_withPoint {whole : ℕ} {fraction : Text} {x : ℚ} (hf : PlainDigits fraction)
    (hlast : fraction.getLast? ≠ some '0')
    (hvalue : decimal? (withPoint (ofNat whole) fraction) = some x) :
    IsShortest (withPoint (ofNat whole) fraction) x := by
  have hw := plainDigits_ofNat whole
  refine ⟨⟨_, _, ofNat_ne_nil whole, hw, hf, rfl⟩, hvalue, ?_⟩
  rintro _ ⟨whole', fraction', hne', hw', hf', rfl⟩ hvalue'
  obtain ⟨hwhole, hfraction⟩ := parts_agree (ofNat_ne_nil whole) hw hf hne' hw' hf' hvalue hvalue'
  rw [digitsValue_ofNat] at hwhole
  rw [length_withPoint, length_withPoint]
  rcases fraction_shortest hf hf' hlast hfraction with rfl | hlt
  · rcases ofNat_shortest hne' hw' with heq | hlt
    · rw [heq, ← hwhole]
      exact Or.inl rfl
    · rw [← hwhole] at hlt
      omega
  · right
    have hle : (ofNat whole).length ≤ whole'.length := by
      rw [hwhole]
      rcases ofNat_shortest hne' hw' with heq | hlt
      · rw [← heq]
      · exact hlt.le
    have hne : fraction' ≠ [] := by
      rintro rfl
      simp at hlt
    split_ifs <;> omega

theorem getLast?_dropZeros (t : Text) :
    (t.reverse.dropWhile (· = '0')).reverse.getLast? ≠ some '0' := by
  rw [List.getLast?_reverse]
  intro h
  have hnot := List.head?_dropWhile_not (fun c : Char => decide (c = '0')) t.reverse
  rw [h] at hnot
  simp at hnot

/-- A printed numeral has no zero that could be left out behind its point. -/
theorem exists_withPoint_decimalNumeral (n places : ℕ) :
    ∃ whole fraction, Ratio.decimalNumeral n places = withPoint (ofNat whole) fraction ∧
      PlainDigits fraction ∧ fraction.getLast? ≠ some '0' := by
  rcases decimalNumeral_cases n places with ⟨-, h⟩ | ⟨fraction, zeros, hfraction, h, -, hrest⟩
  · exact ⟨n / 10 ^ places, [], h, by simp [PlainDigits], by simp⟩
  · obtain ⟨hne, hdigits, -⟩ := toNat?_eq_some.1 hfraction
    refine ⟨n / 10 ^ places, fraction, by rw [h, withPoint, if_neg hne], hdigits, ?_⟩
    have hprinted := h
    simp only [Ratio.decimalNumeral] at hprinted
    split_ifs at hprinted with hzero
    · have hmem : '.' ∈ ofNat (n / Nat.pow 10 places) := by
        rw [hprinted]
        simp
      exact absurd (isPlainDigit_of_mem_ofNat hmem) (by decide)
    · obtain rfl := (List.cons.inj (List.append_cancel_left hprinted)).2
      exact getLast?_dropZeros _

/-- The printed numeral of a number of units is the shortest. -/
theorem isShortest_decimalNumeral (n places : ℕ) :
    IsShortest (Ratio.decimalNumeral n places) (n / 10 ^ places) := by
  have hvalue := decimal?_decimalNumeral n places
  obtain ⟨whole, fraction, h, hdigits, hlast⟩ := exists_withPoint_decimalNumeral n places
  rw [h] at hvalue ⊢
  exact isShortest_withPoint hdigits hlast hvalue

section

variable {p n : ℕ} (hp : p.Prime) (hn : n ≠ 0)
include hp hn

theorem not_dvd_withoutFactor : ¬ p ∣ (Ratio.withoutFactor p n).1 := by
  fun_induction Ratio.withoutFactor p n with
  | case1 n h rest count heq ih =>
    have hne : n / p ≠ 0 :=
      (Nat.div_pos (Nat.le_of_dvd h.2.1 (Nat.dvd_of_mod_eq_zero h.2.2)) hp.pos).ne'
    rw [heq] at ih
    exact ih hne
  | case2 n h => exact fun hdvd => h ⟨hp.one_lt, Nat.pos_of_ne_zero hn, Nat.mod_eq_zero_of_dvd hdvd⟩

/-- What is counted is the exponent of the prime. -/
theorem withoutFactor_count : (Ratio.withoutFactor p n).2 = padicValNat p n := by
  have : Fact p.Prime := ⟨hp⟩
  have hspec := withoutFactor_spec p n
  have hdvd := not_dvd_withoutFactor hp hn
  have hne : (Ratio.withoutFactor p n).1 ≠ 0 := withoutFactor_ne_zero hn
  generalize Ratio.withoutFactor p n = split at *
  rw [← hspec, padicValNat.mul hne (pow_ne_zero _ hp.ne_zero), padicValNat.prime_pow,
    padicValNat.eq_zero_of_not_dvd hdvd, Nat.zero_add]

end

/-- The places that the numeral of a fraction over `d`, in lowest terms, has after its point. -/
def places (d : ℕ) : ℕ := max (padicValNat 2 d) (padicValNat 5 d)

def Terminating (d : ℕ) : Prop := ∀ r, r.Prime → r ∣ d → r = 2 ∨ r = 5

theorem terminating_of_factors (a b : ℕ) : Terminating (2 ^ a * 5 ^ b) := by
  intro r hr hdvd
  rcases hr.dvd_mul.1 hdvd with hdvd | hdvd
  · exact Or.inl ((Nat.prime_dvd_prime_iff_eq hr Nat.prime_two).1 (hr.dvd_of_dvd_pow hdvd))
  · exact Or.inr ((Nat.prime_dvd_prime_iff_eq hr Nat.prime_five).1 (hr.dvd_of_dvd_pow hdvd))

theorem places_of_factors (a b : ℕ) : places (2 ^ a * 5 ^ b) = max a b := by
  have : Fact (Nat.Prime 5) := ⟨Nat.prime_five⟩
  have htwo : (2 : ℕ) ^ a ≠ 0 := pow_ne_zero _ (by decide)
  have hfive : (5 : ℕ) ^ b ≠ 0 := pow_ne_zero _ (by decide)
  have hnot_two : padicValNat 2 (5 ^ b) = 0 := padicValNat.eq_zero_of_not_dvd fun h =>
    absurd (Nat.prime_two.dvd_of_dvd_pow h) (by decide)
  have hnot_five : padicValNat 5 (2 ^ a) = 0 := padicValNat.eq_zero_of_not_dvd fun h =>
    absurd (Nat.prime_five.dvd_of_dvd_pow h) (by decide)
  rw [places, padicValNat.mul htwo hfive, padicValNat.mul htwo hfive, padicValNat.prime_pow,
    padicValNat.prime_pow, hnot_two, hnot_five, Nat.add_zero, Nat.zero_add]

/-- Taking out the factors 2 and 5 leaves one exactly if there are no others, and counts
the exponents. -/
theorem withoutFactors {d : ℕ} (hd : d ≠ 0) :
    ((Ratio.withoutFactor 5 (Ratio.withoutFactor 2 d).1).1 = 1 ↔ Terminating d) ∧
      max (Ratio.withoutFactor 2 d).2 (Ratio.withoutFactor 5 (Ratio.withoutFactor 2 d).1).2 =
        places d := by
  have htwo := Nat.prime_two
  have hfive := Nat.prime_five
  have : Fact (Nat.Prime 5) := ⟨hfive⟩
  have htwos := withoutFactor_spec 2 d
  have hnot_two := not_dvd_withoutFactor htwo hd
  have hcount_two := withoutFactor_count htwo hd
  have hodd : (Ratio.withoutFactor 2 d).1 ≠ 0 := withoutFactor_ne_zero hd
  generalize Ratio.withoutFactor 2 d = odd at *
  have hfives := withoutFactor_spec 5 odd.1
  have hnot_five := not_dvd_withoutFactor hfive hodd
  have hcount_five := withoutFactor_count hfive hodd
  generalize Ratio.withoutFactor 5 odd.1 = rest at *
  constructor
  · constructor
    · intro hrest r hr hdvd
      rw [← htwos, ← hfives, hrest, Nat.one_mul, Nat.mul_comm] at hdvd
      exact terminating_of_factors _ _ r hr hdvd
    · intro hfactors
      by_contra hrest
      obtain ⟨r, hr, hdvd⟩ := Nat.exists_prime_and_dvd hrest
      have hdvd_odd : r ∣ odd.1 := hfives ▸ hdvd.mul_right _
      rcases hfactors r hr (htwos ▸ hdvd_odd.mul_right _) with rfl | rfl
      · exact hnot_two hdvd_odd
      · exact hnot_five hdvd
  · have hval : padicValNat 5 d = padicValNat 5 odd.1 := by
      have hpow : padicValNat 5 (2 ^ odd.2) = 0 := padicValNat.eq_zero_of_not_dvd fun h =>
        absurd (hfive.dvd_of_dvd_pow h) (by decide)
      rw [← htwos, padicValNat.mul hodd (pow_ne_zero _ (by decide)), hpow, Nat.add_zero]
    rw [places, hval, hcount_two, hcount_five]

/-- A denominator without other factors divides the power of ten with that many places. -/
theorem dvd_ten_pow_places {d : ℕ} (hd : d ≠ 0) (h : Terminating d) : d ∣ 10 ^ places d := by
  obtain ⟨hrest, hplaces⟩ := withoutFactors hd
  have htwos := withoutFactor_spec 2 d
  have hfives := withoutFactor_spec 5 (Ratio.withoutFactor 2 d).1
  rw [hrest.2 h, Nat.one_mul] at hfives
  rw [← hfives] at htwos
  rw [← hplaces]
  nth_rewrite 1 [← htwos]
  rw [show 10 = 5 * 2 from rfl, Nat.mul_pow]
  exact Nat.mul_dvd_mul (Nat.pow_dvd_pow 5 (Nat.le_max_right _ _))
    (Nat.pow_dvd_pow 2 (Nat.le_max_left _ _))

/-- When a fraction in lowest terms has a numeral, and which. -/
theorem toDecimal?_iff {a b : ℕ} (hb : b ≠ 0) {t : Text} :
    Ratio.toDecimal? ⟨a, b⟩ = some t ↔
      Terminating b ∧ 10 ^ places b < 2 ^ 128 ∧ a * (10 ^ places b / b) < 2 ^ 128 ∧
        t = Ratio.decimalNumeral (a * (10 ^ places b / b)) (places b) := by
  obtain ⟨hrest, hplaces⟩ := withoutFactors hb
  simp only [Ratio.toDecimal?]
  rw [hplaces]
  by_cases hfactors : Terminating b
  · rw [if_neg (not_not.2 (hrest.2 hfactors))]
    simp only [bind, bounded, Option.bind_eq_some_iff, Option.ite_none_right_eq_some,
      Option.some.injEq]
    constructor
    · rintro ⟨_, ⟨hscale, rfl⟩, _, ⟨hunits, rfl⟩, rfl⟩
      exact ⟨hfactors, hscale, hunits, rfl⟩
    · rintro ⟨-, hscale, hunits, rfl⟩
      exact ⟨_, ⟨hscale, rfl⟩, _, ⟨hunits, rfl⟩, rfl⟩
  · rw [if_pos (fun h => hfactors (hrest.1 h))]
    constructor
    · intro h
      cases h
    · exact fun h => absurd h.1 hfactors

theorem bounded_of_lt {n : ℕ} (h : n < 2 ^ 128) : bounded n = some n := if_pos h

/-- A fraction that has a decimal the bounded arithmetic reaches: its terms fit, its
denominator in lowest terms has no factor but 2 and 5, and neither the power of ten nor the
number of units of the last place is too large. -/
structure Printable (p q : ℕ) : Prop where
  ne_zero : q ≠ 0
  numerator : p < 2 ^ 128
  denominator : q < 2 ^ 128
  terminating : Terminating (q / Nat.gcd p q)
  scale : 10 ^ places (q / Nat.gcd p q) < 2 ^ 128
  scaled : p * 10 ^ places (q / Nat.gcd p q) / q < 2 ^ 128

theorem reduced_ne_zero (p : ℕ) {q : ℕ} (hq : q ≠ 0) : q / Nat.gcd p q ≠ 0 :=
  (Nat.div_pos (Nat.gcd_le_right _ (Nat.pos_of_ne_zero hq))
    (Nat.gcd_pos_of_pos_right _ (Nat.pos_of_ne_zero hq))).ne'

/-- The units of the last place, from the terms in lowest form and as they were given. -/
theorem units_of_reduced {p q : ℕ} (hq : q ≠ 0) (h : Terminating (q / Nat.gcd p q)) :
    p / Nat.gcd p q * (10 ^ places (q / Nat.gcd p q) / (q / Nat.gcd p q)) =
      p * 10 ^ places (q / Nat.gcd p q) / q := by
  have hg : 0 < Nat.gcd p q := Nat.gcd_pos_of_pos_right _ (Nat.pos_of_ne_zero hq)
  have hp : p / Nat.gcd p q * Nat.gcd p q = p := Nat.div_mul_cancel (Nat.gcd_dvd_left p q)
  have hq' : q / Nat.gcd p q * Nat.gcd p q = q := Nat.div_mul_cancel (Nat.gcd_dvd_right p q)
  have hdvd := dvd_ten_pow_places (reduced_ne_zero p hq) h
  generalize 10 ^ places (q / Nat.gcd p q) = scale at *
  generalize q / Nat.gcd p q = b at *
  generalize p / Nat.gcd p q = a at *
  generalize Nat.gcd p q = g at *
  subst hp hq'
  rw [Nat.mul_right_comm, Nat.mul_div_mul_right _ _ hg, Nat.mul_div_assoc _ hdvd]

/-- The two numbers of a fraction have a decimal exactly if they are printable, and it is
the shortest numeral of their quotient. -/
theorem decimal_of_digits {n d : Text} {p q : ℕ} (hn : toNat? n = some p)
    (hd : toNat? d = some q) :
    (¬ Printable p q → (Ratio.ofDigits? n d).bind Ratio.toDecimal? = none) ∧
      (Printable p q → ∃ decimal,
        (Ratio.ofDigits? n d).bind Ratio.toDecimal? = some decimal ∧
          IsShortest decimal (p / q)) := by
  have hread : Ratio.ofDigits? n d = (bounded p).bind fun p => (bounded q).bind (Ratio.make? p) := by
    simp only [Ratio.ofDigits?, boundedNumber?_of_toNat? hn, boundedNumber?_of_toNat? hd, bind]
  constructor
  · intro hnot
    rw [Option.eq_none_iff_forall_ne_some]
    intro t h
    simp only [hread, Option.bind_eq_some_iff] at h
    obtain ⟨r, ⟨p', hp, q', hq, hmake⟩, ht⟩ := h
    simp only [bounded, Option.ite_none_right_eq_some, Option.some.injEq] at hp hq
    obtain ⟨hp, rfl⟩ := hp
    obtain ⟨hq, rfl⟩ := hq
    obtain ⟨hne, hvalue⟩ := make?_value hmake
    rw [Ratio.make?, if_neg hne, Option.some.injEq] at hmake
    subst hmake
    obtain ⟨hfactors, hscale, hunits, -⟩ := (toDecimal?_iff (reduced_ne_zero p hne)).1 ht
    rw [units_of_reduced hne hfactors] at hunits
    exact hnot ⟨hne, hp, hq, hfactors, hscale, hunits⟩
  · intro h
    have hne := h.ne_zero
    have hmake : Ratio.make? p q = some ⟨p / Nat.gcd p q, q / Nat.gcd p q⟩ := if_neg hne
    have hprinted := (toDecimal?_iff (a := p / Nat.gcd p q) (reduced_ne_zero p hne)).2
      ⟨h.terminating, h.scale, by rw [units_of_reduced hne h.terminating]; exact h.scaled, rfl⟩
    have hreduce : (Ratio.ofDigits? n d).bind Ratio.toDecimal? =
        Ratio.toDecimal? ⟨p / Nat.gcd p q, q / Nat.gcd p q⟩ := by
      rw [hread, bounded_of_lt h.numerator, Option.bind_some, bounded_of_lt h.denominator,
        Option.bind_some, hmake, Option.bind_some]
    refine ⟨_, hreduce.trans hprinted, ?_⟩
    have hvalue := decimal?_toDecimal? hprinted
    have hshortest := isShortest_decimalNumeral
      (p / Nat.gcd p q * (10 ^ places (q / Nat.gcd p q) / (q / Nat.gcd p q)))
      (places (q / Nat.gcd p q))
    rwa [Option.some.inj (hshortest.2.1.symm.trans hvalue), (make?_value hmake).2] at hshortest

end AssessmentItems.ShortestNumerals
