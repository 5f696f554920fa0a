import AssessmentItems.Proofs.ClassMembers
import AssessmentItems.Proofs.PiTerms

/-!
The class of a term in π. A term is also a fraction times the name of π, so the class has terms
in all layouts and in both spellings of π, spellings of a coefficient, and decimals. Whatever rule
reads a member, it reads the same sign and the same number, so all decimals are those of one
value.
-/
namespace AssessmentItems.PiClasses

open Text AnswerRules AnswerClass TextClasses Readings PiReadings PiSpellings NumberRules Relations
  DecimalNumerals CoefficientClasses CoefficientValues NumberGroups FractionClasses ShortestNumerals
  PiValues PiTerms AnswerClosure ClassMembers

/-- The ways to write a number times π, with its sign: as a term, as a fraction times the name of
π, and as a decimal. -/
inductive Spells (sign : Text) (x : ℚ) : Text → Prop
  | term {t : Text} {p : PiTerm} (hp : piReading? (trim t) = some p) (hsign : p.sign = sign)
      (hx : number p = x) : Spells sign x t
  | fraction {t : Text} {c : Coefficient} (hc : WellFormed c) (hpi : c.letters = "pi")
      (ht : t ∈ c.fractionForms) (hsign : c.sign = sign)
      (hx : (digitsValue c.numerator : ℚ) / digitsValue c.denominator = x) : Spells sign x t
  | decimal {t decimal : Text} (hsign : IsSign sign)
      (hdecimal : (lowest (x * 3.14)).toDecimal? = some decimal)
      (ht : t ∈ numericClass (sign ++ decimal)) : Spells sign x t

section

variable {sign t m : Text} {x : ℚ}

/-- What the rule on π gives for a term. -/
theorem spells_of_mem_piApproximation {p : PiTerm} (hp : piReading? (trim t) = some p)
    (hsign : p.sign = sign) (hx : number p = x) (hm : m ∈ piApproximation t) :
    Spells sign x m := by
  obtain ⟨p', r, hp', hr, hm⟩ := mem_piApproximation.1 hm
  obtain rfl : p = p' := Option.some.inj (hp.symm.trans hp')
  rcases hm with rfl | ⟨decimal, hdecimal, rfl⟩
  · have htrim := (HasSymbol.of_reading hp).trim_other (trim_trim t)
    refine .term (p := { p with symbol := otherPi p.symbol }) ?_ hsign hx
    rw [respelled, htrim]
    exact piReading?_respelled hp
  · rw [eq_lowest_of_value? (piReading?_eq_some.1 hp).1 hr, hx] at hdecimal
    have hsign' := (piReading?_sound hp).1.sign
    rw [hsign] at hsign' ⊢
    exact .decimal hsign' hdecimal List.mem_cons_self

/-- What the rule on coefficients gives for a fraction that is not zero times the name of π. -/
theorem spells_of_mem_spellings {c : Coefficient} {r : Ratio} (hc : WellFormed c)
    (hpi : c.letters = "pi") (hr : Ratio.ofDigits? c.numerator c.denominator = some r)
    (hsign : c.sign = sign) (hx : (digitsValue c.numerator : ℚ) / digitsValue c.denominator = x)
    (hne : x ≠ 0) (hm : m ∈ spellings c r) : Spells sign x m := by
  have hvalue : ratioValue r = x := (ratioValue_ofDigits? hc.numerator hc.denominator hr).trans hx
  rcases mem_spellings.1 hm with hm | ⟨decimal, hdecimal, hm⟩
  · exact .fraction hc hpi hm hsign hx
  · obtain ⟨k, whole, fraction, hk, rfl, hk'⟩ :=
      exists_coefficient_of_decimalForm hdecimal hm (hvalue ▸ hne)
    have htight := (tight_decimalForm hc hdecimal hm).1
    have hreading : piReading? (trim (c.sign ++ k ++ c.letters)) =
        some ⟨c.sign, c.sign ++ k ++ [], ['p', 'i'], [], whole, fraction, ['1']⟩ := by
      rw [htight.trim_eq]
      exact piReading?_eq_some.2 ⟨.front hc.sign hk (Or.inl rfl) (Or.inr rfl) .one, by simp [hpi]⟩
    have hdigit : digitsValue ['1'] = 1 := by decide
    exact .term hreading hsign (by rw [number, hk', hvalue, hdigit, Nat.cast_one, div_one])

/-- A term is no plain number. -/
theorem exists_not_side {p : PiTerm} (hp : piReading? t = some p) : ∃ c ∈ t, isSide c = false := by
  have hsymbol := HasSymbol.of_reading hp
  obtain ⟨c, rest, hc⟩ := List.exists_cons_of_ne_nil (symbol_ne_nil hsymbol.symbol)
  have hmem : c ∈ p.symbol := hc ▸ List.mem_cons_self
  exact ⟨c, by rw [hsymbol.eq]; simp [hmem], (symbol_chars hsymbol.symbol c hmem).1⟩

/-- A term is plain: no rule on relations or products sees it. -/
theorem plain_of_reading {p : PiTerm} (hp : piReading? (trim t) = some p) : Plain t := by
  have hsymbol := (HasSymbol.of_reading hp).compact
  rw [compact_trim] at hsymbol
  exact ClassSize.plain_of_hasSymbol hsymbol

theorem spells_of_term {p : PiTerm} (hp : piReading? (trim t) = some p) (hsign : p.sign = sign)
    (hx : number p = x) (hne : x ≠ 0) (hm : m ∈ variants t) : Spells sign x m := by
  have hplain := plain_of_reading hp
  obtain ⟨c, hc, hside⟩ := exists_not_side hp
  have hno : isDigit c = false ∧ c ≠ '-' ∧ c ≠ '.' ∧ c ≠ '/' := by
    simp only [isSide, Bool.or_eq_false_iff, decide_eq_false_iff_not, List.mem_cons] at hside
    tauto
  obtain ⟨hinequality, hequation⟩ := relation_rules_eq_nil hplain.sign
  rw [NumberRules.mem_variants, hinequality, hequation] at hm
  rcases hm with hm | hm | hm | hm | hm
  · simp only [numberVariants, List.mem_append] at hm
    rcases hm with ((hm | hm) | hm) | hm
    · exact absurd hc ((numeric_trim_of_mem_leadingZero hm).not_mem c hno.1 hno.2.1 hno.2.2.1)
    · obtain ⟨s, n, d, -, -, hs, hn, hd, htext, -⟩ := mem_fractionDecimal.1 hm
      rcases fraction_chars hs hn hd c (htext ▸ hc) with hc | hc | hc
      · simp [hno.1] at hc
      · exact absurd hc hno.2.1
      · exact absurd hc hno.2.2.2
    · obtain ⟨c, r, hc, hr, hform, heq⟩ := exists_coefficient hm
      have hpi : c.letters = "pi" := by
        have hletters := lettersOf_piTerm (piReading?_sound hp).1
        rw [← (piReading?_sound hp).2, lettersOf_fractionForm hc hform] at hletters
        exact hletters.resolve_left (isLetters_iff.1 hc.letters).1
      obtain ⟨hsign', hx'⟩ := reading_of_fractionForm hc hpi hform hp
      exact spells_of_mem_spellings hc hpi hr (hsign'.symm.trans hsign) (hx'.symm.trans hx) hne
        (heq ▸ hm)
    · exact spells_of_mem_piApproximation hp hsign hx hm
  · rcases mem_algebraicSpacing hm with rfl | rfl
    · exact .term (piReading?_trim_compact hp) hsign hx
    · obtain ⟨before, after, hspaced⟩ := exists_reading_spaced hp
      exact .term hspaced hsign hx
  · exact absurd hplain.star (mem_implicitMultiplication.1 hm).2
  · simp at hm
  · simp at hm

theorem spells_of_fraction {c : Coefficient} (hc : WellFormed c) (hpi : c.letters = "pi")
    (ht : t ∈ c.fractionForms) (hsign : c.sign = sign)
    (hx : (digitsValue c.numerator : ℚ) / digitsValue c.denominator = x) (hne : x ≠ 0)
    (hm : m ∈ variants t) : Spells sign x m := by
  have htight := tight_fractionForm hc ht
  have hletters : lettersOf t ≠ [] := by
    rw [lettersOf_fractionForm hc ht]
    exact (isLetters_iff.1 hc.letters).1
  rcases mem_variants_of_letters htight hletters hm with hm | hm | rfl
  · obtain ⟨c', r, hread, hr, hm⟩ := mem_fractionalCoefficient.1 hm
    rw [htight.trim_eq, coefficient?_complete hc ht, Option.some.injEq] at hread
    subst hread
    exact spells_of_mem_spellings hc hpi hr hsign hx hne (mem_spellings.2 hm)
  · obtain ⟨p, -, hp, -⟩ := mem_piApproximation.1 hm
    have hread := hp
    rw [htight.trim_eq] at hread
    obtain ⟨hsign', hx'⟩ := reading_of_fractionForm hc hpi ht hread
    exact spells_of_mem_piApproximation hp (hsign'.trans hsign) (hx'.trans hx) hm
  · exact .fraction hc hpi ht hsign hx

/-- No rule leads from a spelling of a number times π to anything else, unless it is zero. -/
theorem closed_spells (hne : x ≠ 0) : Closed {t | Spells sign x t} := by
  intro t ht m hm _
  cases ht with
  | term hp hsign hx => exact spells_of_term hp hsign hx hne hm
  | fraction hc hpi ht hsign hx => exact spells_of_fraction hc hpi ht hsign hx hne hm
  | decimal hsign hdecimal ht =>
    exact .decimal hsign hdecimal
      (numericClass_closed (numeric_of_toDecimal? hsign hdecimal) t ht m hm)

/-- The characters of a number may all stand beside π. -/
theorem isSide_of_quotient? {q : ℚ} (h : quotient? t = some q) : ∀ c ∈ t, isSide c = true := by
  have hdigits : ∀ {u : Text} {k : ℕ}, toNat? u = some k → ∀ c ∈ u, isSide c = true :=
    fun hu c hc => isSide_of_isDigit (isDigit_of_isPlainDigit ((toNat?_eq_some.1 hu).2.1 c hc))
  have hsplit := List.takeWhile_append_dropWhile (p := (· ≠ '/')) (l := t)
  simp only [quotient?] at h
  split at h
  · simp at h
  · next c denominator hslash =>
    simp only [bind, Option.bind_eq_some_iff] at h
    obtain ⟨n, hn, d, hd, -⟩ := h
    obtain rfl : c = '/' := eq_of_dropWhile_ne hslash
    rw [← hsplit, hslash]
    simp only [List.forall_mem_append, List.forall_mem_cons]
    exact ⟨hdigits hn, by decide, hdigits hd⟩

theorem isSide_of_numberOf? {y : ℚ} (h : numberOf? t = some y) : ∀ c ∈ t, isSide c = true := by
  obtain ⟨hsign, ht⟩ := splitSign_spec t
  obtain ⟨q, hq, -⟩ := Option.map_eq_some_iff.1 h
  have hbody : ∀ c ∈ (splitSign t).2, isSide c = true := by
    split_ifs at hq
    · exact isSide_of_quotient? hq
    · obtain ⟨whole, fraction, hdecimal, -⟩ := exists_isDecimal_of_decimal? hq
      exact isSide_of_isDecimal hdecimal
  rw [ht, List.forall_mem_append]
  exact ⟨isSide_of_isSign hsign, hbody⟩

/-- A member that is a number has the value of the term, and is its printed decimal. -/
theorem value_of_spells (hx : 0 ≤ x) (hm : Spells sign x m) {y : ℚ} (hy : numberOf? m = some y) :
    y = signed sign (x * 3.14) ∧ ∃ decimal, (lowest (x * 3.14)).toDecimal? = some decimal := by
  have hside := isSide_of_numberOf? hy
  cases hm with
  | term hp =>
    obtain ⟨c, hc, hnot⟩ := exists_not_side hp
    obtain ⟨before, after, -, -, ht⟩ := exists_trim m
    have hmem : c ∈ m := by
      rw [ht]
      simp [hc]
    simp [hside c hmem] at hnot
  | fraction hc hpi ht =>
    have hletters := lettersOf_fractionForm hc ht
    have hmem : 'p' ∈ lettersOf m := by
      rw [hletters, hpi]
      decide
    exact absurd (hside 'p' (List.mem_of_mem_filter hmem)) (by decide)
  | decimal hsign hdecimal ht =>
    have hvalue := numberOf?_numericClass hsign hdecimal ht
    rw [ratioValue_lowest (mul_nonneg hx (by norm_num)), hy, Option.some.injEq] at hvalue
    exact ⟨hvalue, _, hdecimal⟩

end

theorem mem_expand_of_mem_piApproximation {v m : Text} (hm : m ∈ piApproximation v) :
    m ∈ expand v :=
  mem_expand.2 (mem_closure_of_mem_variants (mem_closure_self v)
    (NumberRules.mem_variants.2 (Or.inl (List.mem_append_right _ hm))))

section

variable {v : Text} {p : PiTerm} (hp : piReading? (trim v) = some p)
include hp

theorem spells_of_mem_expand (hne : number p ≠ 0) {m : Text} (hm : m ∈ expand v) :
    Spells p.sign (number p) m := by
  have hsub : closure v ⊆ {t | Spells p.sign (number p) t} :=
    closure_subset (.term hp rfl rfl) (closed_spells hne)
  exact hsub (mem_expand.1 hm)

/-- The numbers in the class of a term have its value, and it is printed if there is one. -/
theorem numbers_of_term (hne : number p ≠ 0) {m : Text} (hm : m ∈ expand v) {y : ℚ}
    (hy : numberOf? m = some y) :
    y = signed p.sign (number p * 3.14) ∧ Printed (number p * 3.14) := by
  obtain ⟨hvalue, hprinted⟩ :=
    value_of_spells (number_nonneg p) (spells_of_mem_expand hp hne hm) hy
  exact ⟨hvalue, (exists_decimal_iff (mul_nonneg (number_nonneg p) (by norm_num))).1 hprinted⟩

theorem exists_number_of_printed {r : Ratio} (hr : p.value? = some r)
    (hprinted : Printed (number p * 3.14)) : ∃ m ∈ expand v, (numberOf? m).isSome := by
  obtain ⟨decimal, hdecimal⟩ :=
    (exists_decimal_iff (mul_nonneg (number_nonneg p) (by norm_num))).2 hprinted
  rw [← eq_lowest_of_value? (piReading?_eq_some.1 hp).1 hr] at hdecimal
  have hsign := (piReading?_sound hp).1.sign
  refine ⟨p.sign ++ decimal, mem_expand_of_mem_piApproximation (mem_piApproximation.2
    ⟨p, r, hp, hr, Or.inr ⟨decimal, hdecimal, rfl⟩⟩), ?_⟩
  rw [numberOf?_numericClass hsign hdecimal List.mem_cons_self]
  rfl

end

/-- The class of a term in π that is not zero, if what is formed on the way to its value fits. It
has the term with the other spelling of π. All its numbers have the value of the term with 3.14
for π, and there is one if that value has a decimal within reach. -/
theorem pi_class (v : Text) (p : PiTerm) (n b : ℕ) (hp : Written p)
    (hv : trim v = p.before ++ p.symbol ++ p.after)
    (hn : toNat? (p.whole ++ p.fraction) = some n) (hb : toNat? p.divisor = some b)
    (hn0 : n ≠ 0) (hb0 : b ≠ 0) (hfits : ProductsFit n p.fraction.length b) :
    p.before ++ otherPi p.symbol ++ p.after ∈ expand v ∧
    (∀ m ∈ expand v, ∀ y, numberOf? m = some y →
      y = signed p.sign (n / 10 ^ p.fraction.length * 3.14 / b)) ∧
    ((∃ m ∈ expand v, (numberOf? m).isSome) ↔
      Printed (n / 10 ^ p.fraction.length * 3.14 / b)) := by
  have hread : piReading? (trim v) = some p := piReading?_eq_some.2 ⟨hp, hv⟩
  have hr := (value?_eq_some hp).2 ⟨n, b, hn, hb, hb0, hfits, rfl⟩
  have hvalue : (n : ℚ) / 10 ^ p.fraction.length * 3.14 / b = number p * 3.14 := by
    rw [number_eq hn hb]
    ring
  have hne : number p ≠ 0 := by
    rw [number_eq hn hb]
    exact div_ne_zero (div_ne_zero (Nat.cast_ne_zero.2 hn0) (pow_ne_zero _ (by norm_num)))
      (Nat.cast_ne_zero.2 hb0)
  rw [hvalue]
  refine ⟨?_, fun m hm y hy => (numbers_of_term hread hne hm hy).1, ?_, ?_⟩
  · exact mem_expand_of_mem_piApproximation (mem_piApproximation.2 ⟨p, _, hread, hr, Or.inl rfl⟩)
  · rintro ⟨m, hm, hsome⟩
    obtain ⟨y, hy⟩ := Option.isSome_iff_exists.1 hsome
    exact (numbers_of_term hread hne hm hy).2
  · exact exists_number_of_printed hread hr

theorem productsFit_three_eighths : ProductsFit 3 0 8 where
  digits := by decide
  scale := by decide
  divisor := by decide
  numerator := by norm_num
  denominator := by norm_num
  quotient := by
    have hvalue : ((3 : ℕ) / 10 ^ 0 * 3.14 : ℚ) = (471 : ℕ) / (50 : ℕ) := by norm_num
    rw [hvalue, den_div (by decide) (by decide)]
    decide

theorem pi_class_three_eighths :
    Written ⟨"-", "-3", "pi", "/8", "3", [], "8"⟩ ∧ trim " -3pi/8 " = "-3pi/8" ∧
      ("-3π/8" : Text) ∈ expand " -3pi/8 " ∧
      (∀ m ∈ expand " -3pi/8 ", ∀ y, numberOf? m = some y →
        y = signed "-" ((3 : ℕ) / 10 ^ 0 * 3.14 / (8 : ℕ))) ∧
      ((∃ m ∈ expand " -3pi/8 ", (numberOf? m).isSome) ↔
        Printed ((3 : ℕ) / 10 ^ 0 * 3.14 / (8 : ℕ))) := by
  have hminus : IsSign "-" := Or.inr rfl
  have hthree : IsCoefficient "3" "3" [] := .decimal (.digits (by decide))
  have heighth : IsDivision (['/'] ++ ("8" : Text)) "8" := .slash rfl (by decide)
  have hp : Written ⟨"-", "-3", "pi", "/8", "3", [], "8"⟩ :=
    .front hminus hthree (Or.inl compact_nil) (Or.inr rfl) heighth
  have htrim : trim " -3pi/8 " = "-3pi/8" := by decide
  exact ⟨hp, htrim, pi_class " -3pi/8 " ⟨"-", "-3", "pi", "/8", "3", [], "8"⟩ 3 8 hp htrim
    (by decide) (by decide) (by decide) (by decide) productsFit_three_eighths⟩

def overPower : PiTerm := ⟨[], [], "π", "/274877906944", "1", [], "274877906944"⟩

theorem written_overPower : Written overPower := by
  have hpower : IsDivision (['/'] ++ ("274877906944" : Text)) "274877906944" :=
    .slash rfl (by decide)
  exact .front (Or.inl rfl) .one (Or.inl compact_nil) (Or.inl rfl) hpower

theorem den_overPower :
    ((1 : ℕ) / 10 ^ 0 * 3.14 / (2 ^ 38 : ℕ) : ℚ).den = 2 ^ 39 * 5 ^ 2 := by
  have hvalue : ((1 : ℕ) / 10 ^ 0 * 3.14 / (2 ^ 38 : ℕ) : ℚ) =
      (157 : ℕ) / (2 ^ 39 * 5 ^ 2 : ℕ) := by norm_num
  rw [hvalue, den_div (by decide) (by decide)]

theorem productsFit_overPower : ProductsFit 1 0 (2 ^ 38) where
  digits := by decide
  scale := by decide
  divisor := by decide
  numerator := by norm_num
  denominator := by norm_num
  quotient := by
    have hvalue : ((1 : ℕ) / 10 ^ 0 * 3.14 : ℚ) = (157 : ℕ) / (50 : ℕ) := by norm_num
    rw [hvalue, den_div (by decide) (by decide)]
    decide

/-- Its decimal has thirty-nine places, which are too many: the power of ten does not fit, although
the units of the last place would. -/
theorem pi_alone_over_power :
    Written overPower ∧ trim "π/274877906944" = "π/274877906944" ∧
      toNat? "274877906944" = some (2 ^ 38) ∧ ProductsFit 1 0 (2 ^ 38) ∧
      Terminating ((1 : ℕ) / 10 ^ 0 * 3.14 / (2 ^ 38 : ℕ) : ℚ).den ∧
      ((1 : ℕ) / 10 ^ 0 * 3.14 / (2 ^ 38 : ℕ) : ℚ) *
        10 ^ places ((1 : ℕ) / 10 ^ 0 * 3.14 / (2 ^ 38 : ℕ) : ℚ).den < 2 ^ 128 ∧
      ∀ m ∈ expand "π/274877906944", numberOf? m = none := by
  have hplaces : places (2 ^ 39 * 5 ^ 2) = 39 := places_of_factors 39 2
  have htrim : trim "π/274877906944" = "π/274877906944" := by decide
  have hn : toNat? (overPower.whole ++ overPower.fraction) = some 1 := by decide
  have hb : toNat? overPower.divisor = some (2 ^ 38) := by decide
  have hread : piReading? (trim "π/274877906944") = some overPower :=
    piReading?_eq_some.2 ⟨written_overPower, htrim⟩
  have hvalue : number overPower * 3.14 = (1 : ℕ) / 10 ^ 0 * 3.14 / (2 ^ 38 : ℕ) := by
    rw [number_eq hn hb]
    norm_num [overPower]
  have hne : number overPower ≠ 0 := by
    rw [number_eq hn hb]
    norm_num [overPower]
  refine ⟨written_overPower, htrim, hb, productsFit_overPower, ?_, ?_, fun m hm => ?_⟩
  · rw [den_overPower]
    exact terminating_of_factors 39 2
  · rw [den_overPower, hplaces]
    norm_num
  · rw [Option.eq_none_iff_forall_ne_some]
    intro y hy
    have hscale := (numbers_of_term hread hne hm hy).2.scale
    rw [hvalue, den_overPower, hplaces] at hscale
    exact absurd hscale (by decide)

end AssessmentItems.PiClasses
