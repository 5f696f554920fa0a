import AssessmentItems.Proofs.CoefficientValues
import AssessmentItems.Proofs.NumberGroups
import AssessmentItems.Proofs.ShortestNumerals

/-!
The class of a fraction. A fraction implies its decimal and nothing else, and the decimal
implies itself with or without its leading zero. All of them denote one number.
-/
namespace AssessmentItems.FractionClasses

open Text OperatorSpacing AnswerRules AnswerClass TextClasses ImplicitProducts Readings
  NumberRules Relations TightTexts DecimalNumerals CoefficientClasses CoefficientValues
  NumberGroups ShortestNumerals AnswerClosure

def fractionClass (t : Text) : List Text := t :: (fractionDecimal t).flatMap numericClass

section

variable {sign n d : Text} (hsign : IsSign sign) (hn : isDigits n = true) (hd : isDigits d = true)
include hsign hn hd

theorem fraction_chars : ∀ c ∈ sign ++ n ++ '/' :: d, isDigit c = true ∨ c = '-' ∨ c = '/' := by
  simp only [List.forall_mem_append, List.forall_mem_cons]
  refine ⟨⟨fun c hc => ?_, fun c hc => ?_⟩, ?_, fun c hc => ?_⟩
  · exact Or.inr (Or.inl (eq_of_mem_sign hsign hc))
  · exact Or.inl ((isDigits_iff.1 hn).2 c hc)
  · simp
  · exact Or.inl ((isDigits_iff.1 hd).2 c hc)

theorem tight_fraction : Tight (sign ++ n ++ '/' :: d) := by
  refine ⟨sign, n ++ '/' :: d, hsign, ?_, List.append_assoc ..⟩
  simp only [List.forall_mem_append, List.forall_mem_cons]
  refine ⟨fun c hc => ?_, by decide, fun c hc => ?_⟩
  · simp [isTight, (isDigits_iff.1 hn).2 c hc]
  · simp [isTight, (isDigits_iff.1 hd).2 c hc]

/-- Neither a point nor a letter is in a fraction, so only the rule on fractions sees it. -/
theorem mem_variants_fraction {m : Text} (hm : m ∈ variants (sign ++ n ++ '/' :: d)) :
    m = sign ++ n ++ '/' :: d ∨ m ∈ fractionDecimal (sign ++ n ++ '/' :: d) := by
  have htight := tight_fraction hsign hn hd
  have hno : ∀ c, isDigit c = false → c ≠ '-' → c ≠ '/' → c ∉ sign ++ n ++ '/' :: d := by
    intro c hdigit hminus hslash hc
    rcases fraction_chars hsign hn hd c hc with hc | hc | hc
    · simp [hc] at hdigit
    · exact hminus hc
    · exact hslash hc
  rcases htight.mem_variants hm with hm | hm
  · simp only [numberVariants, List.mem_append] at hm
    rcases hm with ((hm | hm) | hm) | hm
    · obtain ⟨sign', digits, -, -, h⟩ := mem_leadingZero.1 hm
      rw [htight.trim_eq] at h
      refine absurd ?_ (hno '.' (by decide) (by decide) (by decide))
      rcases h with ⟨ht, -⟩ | ⟨ht, -⟩
      · simp [ht]
      · simp [ht]
    · exact Or.inr hm
    · obtain ⟨c, -, hc, -⟩ := mem_fractionalCoefficient.1 hm
      rw [htight.trim_eq] at hc
      obtain ⟨hwell, hform⟩ := coefficient?_sound hc
      have hletters := lettersOf_fractionForm hwell hform
      rw [lettersOf_append, lettersOf_append, lettersOf_sign hsign, lettersOf_digits hn,
        lettersOf_cons (by decide), lettersOf_digits hd] at hletters
      exact absurd hletters.symm (isLetters_iff.1 hwell.letters).1
    · rcases htight.symbol_mem hm with hmem | hmem
      · exact absurd hmem (hno _ (by decide) (by decide) (by decide))
      · exact absurd hmem (hno _ (by decide) (by decide) (by decide))
  · exact Or.inl hm

theorem fractionDecimal_eq : fractionDecimal (sign ++ n ++ '/' :: d) =
    (((Ratio.ofDigits? n d).bind Ratio.toDecimal?).map (sign ++ ·)).toList := by
  have hfraction : splitFraction? (n ++ '/' :: d) = some (n, d, []) :=
    splitFraction?_eq_some.2 ⟨hn, hd, by simp, by simp⟩
  have hhead : ∀ c ∈ (n ++ '/' :: d).head?, c ≠ '-' := fun c hc => (unmarked_digits hn c hc).1
  have htrim := (tight_fraction hsign hn hd).trim_eq
  rw [List.append_assoc] at htrim ⊢
  simp only [fractionDecimal, htrim, splitSign_append hsign hhead, hfraction]
  cases (Ratio.ofDigits? n d).bind Ratio.toDecimal? with
  | none => rfl
  | some decimal => rfl

theorem fractionClass_closed : ∀ u ∈ fractionClass (sign ++ n ++ '/' :: d), ∀ m ∈ variants u,
    m ∈ fractionClass (sign ++ n ++ '/' :: d) := by
  intro u hu m hm
  rcases List.mem_cons.1 hu with rfl | hu
  · rcases mem_variants_fraction hsign hn hd hm with rfl | hm
    · exact List.mem_cons_self
    · exact List.mem_cons_of_mem _ (List.mem_flatMap.2 ⟨m, hm, List.mem_cons_self⟩)
  · obtain ⟨x, hx, hu⟩ := List.mem_flatMap.1 hu
    have hnumeric : Numeric x :=
      numeric_of_mem_decimals (List.mem_append_left _ (List.mem_append_right _ hx))
    refine List.mem_cons_of_mem _ (List.mem_flatMap.2 ⟨x, hx, ?_⟩)
    exact numericClass_closed hnumeric u hu m hm

omit hsign hn hd in
theorem ne_nil_of_mem_leadingZero {t m : Text} (h : m ∈ leadingZero t) : m ≠ [] := by
  obtain ⟨sign, digits, -, -, ⟨-, rfl⟩ | ⟨-, rfl⟩⟩ := mem_leadingZero.1 h
  · simp
  · simp

omit hsign hn hd in
theorem ne_nil_of_toDecimal? {r : Ratio} {decimal : Text} (h : r.toDecimal? = some decimal) :
    decimal ≠ [] := by
  rintro rfl
  have hvalue := decimal?_toDecimal? h
  simp [decimal?, toNat?] at hvalue

omit hsign hn hd in
theorem fractionClass_derived (t : Text) : ∀ u ∈ fractionClass t, u ∈ closure t := by
  intro u hu
  rcases List.mem_cons.1 hu with rfl | hu
  · exact mem_closure_self u
  · obtain ⟨x, hx, hu⟩ := List.mem_flatMap.1 hu
    have hvariant : x ∈ variants t := NumberRules.mem_variants.2 (Or.inl (by
      simp only [numberVariants, List.mem_append]
      exact Or.inl (Or.inl (Or.inr hx))))
    have hne : x ≠ [] := by
      obtain ⟨sign, _, _, r, decimal, -, -, -, -, -, hdecimal, rfl⟩ := mem_fractionDecimal.1 hx
      simp [ne_nil_of_toDecimal? hdecimal]
    have hclosed := closed_closure t
    have hx := hclosed t (mem_closure_self t) x hvariant hne
    rcases List.mem_cons.1 hu with rfl | hu
    · exact hx
    · have hvariant : u ∈ variants x := NumberRules.mem_variants.2 (Or.inl (by
        simp only [numberVariants, List.mem_append]
        exact Or.inl (Or.inl (Or.inl hu))))
      exact hclosed x hx u hvariant (ne_nil_of_mem_leadingZero hu)

omit hsign hn hd in
theorem length_fractionClass_le (t : Text) : (fractionClass t).length ≤ 3 := by
  have hdecimals := length_fractionDecimal_le t
  have hclasses := length_flatMap_le length_numericClass_le (fractionDecimal t)
  rw [fractionClass, List.length_cons]
  omega

/-- The class of a fraction are its decimals and the fraction itself. -/
theorem mem_expand_fraction {m : Text} :
    m ∈ expand (sign ++ n ++ '/' :: d) ↔ m ∈ fractionClass (sign ++ n ++ '/' :: d) :=
  mem_expand_of_list List.mem_cons_self
    (fun u hu m hm _ => fractionClass_closed hsign hn hd u hu m hm)
    (fractionClass_derived _) ((length_fractionClass_le _).trans (by decide))

end

theorem ofNat_eq_cons (n : ℕ) :
    ∃ c rest, ofNat n = c :: rest ∧ isPlainDigit c = true ∧ '.' ∉ rest := by
  obtain ⟨c, rest, h⟩ := List.exists_cons_of_ne_nil (ofNat_ne_nil n)
  have hall : ∀ d ∈ c :: rest, isPlainDigit d = true := fun d hd =>
    isPlainDigit_of_mem_ofNat (h ▸ hd)
  refine ⟨c, rest, h, hall c List.mem_cons_self, fun hpoint => ?_⟩
  exact absurd (hall '.' (List.mem_cons_of_mem _ hpoint)) (by decide)

/-- A printed numeral begins with a digit, and after one digit and a point it has only digits. -/
theorem digits_of_toDecimal? {r : Ratio} {decimal : Text} (h : r.toDecimal? = some decimal) :
    ∃ c rest, decimal = c :: rest ∧ isPlainDigit c = true ∧
      ∀ bare, rest = '.' :: bare → isDigits bare = true := by
  obtain ⟨whole, hshape⟩ := toDecimal?_shape h
  obtain ⟨c, rest, hwhole, hc, hpoint⟩ := ofNat_eq_cons whole
  rw [hwhole] at hshape
  rcases hshape with rfl | ⟨fraction, hfraction, rfl⟩
  · refine ⟨c, rest, rfl, hc, ?_⟩
    rintro bare rfl
    exact absurd List.mem_cons_self hpoint
  · refine ⟨c, rest ++ '.' :: fraction, rfl, hc, fun bare hbare => ?_⟩
    cases rest with
    | nil =>
      obtain rfl := (List.cons.inj hbare).2
      exact isDigits_of_toNat? hfraction
    | cons e rest =>
      obtain rfl := (List.cons.inj hbare).1
      exact absurd List.mem_cons_self hpoint

/-- A printed numeral without its leading zero are the digits after its point. -/
theorem mem_leadingZero_decimal {r : Ratio} {sign decimal m : Text} (hsign : IsSign sign)
    (h : r.toDecimal? = some decimal) : m ∈ leadingZero (sign ++ decimal) ↔
      ∃ bare, decimal = '0' :: '.' :: bare ∧ m = sign ++ '.' :: bare := by
  have htrim := (numeric_of_toDecimal? hsign h).tight.trim_eq
  obtain ⟨c, rest, rfl, hc, hrest⟩ := digits_of_toDecimal? h
  have hhead : ∀ e ∈ (c :: rest).head?, e ≠ '-' := by
    rintro _ ⟨⟩
    exact (unlettered_digit hc).2
  rw [mem_leadingZero, htrim]
  constructor
  · rintro ⟨sign', digits, hsign', -, ⟨ht, rfl⟩ | ⟨ht, rfl⟩⟩
    · obtain ⟨rfl, hbody⟩ := sign_unique hsign hsign' hhead (by simp) ht
      exact ⟨digits, hbody, rfl⟩
    · obtain ⟨-, hbody⟩ := sign_unique hsign hsign' hhead (by simp) ht
      obtain rfl := (List.cons.inj hbody).1
      exact absurd hc (by decide)
  · rintro ⟨bare, hbody, rfl⟩
    have hdigits := hrest bare (List.cons.inj hbody).2
    exact ⟨sign, bare, hsign, hdigits, Or.inl ⟨by rw [hbody], rfl⟩⟩

def numberOf? (t : Text) : Option ℚ :=
  let (sign, body) := splitSign t
  (if '/' ∈ body then quotient? body else decimal? body).map (signed sign)

theorem numberOf?_append {sign body : Text} (hsign : IsSign sign)
    (hbody : ∀ c ∈ body.head?, c ≠ '-') : numberOf? (sign ++ body) =
      (if '/' ∈ body then quotient? body else decimal? body).map (signed sign) := by
  simp only [numberOf?, splitSign_append hsign hbody]

theorem numberOf?_fraction {sign n d : Text} {p q : ℕ} (hsign : IsSign sign)
    (hn : toNat? n = some p) (hd : toNat? d = some q) (hq : q ≠ 0) :
    numberOf? (sign ++ n ++ '/' :: d) = some (signed sign (p / q)) := by
  have hhead : ∀ c ∈ (n ++ '/' :: d).head?, c ≠ '-' := fun c hc =>
    (unmarked_digits (isDigits_of_toNat? hn) c hc).1
  rw [List.append_assoc, numberOf?_append hsign hhead, if_pos (by simp), quotient?_append hn hd hq,
    Option.map_some]

theorem numberOf?_decimal {sign t : Text} (hsign : IsSign sign)
    (hchars : ∀ c ∈ t, isPlainDigit c = true ∨ c = '.') :
    numberOf? (sign ++ t) = (decimal? t).map (signed sign) := by
  have hno : ∀ c ∈ t, c ≠ '-' ∧ c ≠ '/' := fun c hc => by
    rcases hchars c hc with hc | rfl
    · exact ⟨(unlettered_digit hc).2, ne_of_isDigit (isDigit_of_isPlainDigit hc) (by decide)⟩
    · decide
  rw [numberOf?_append hsign fun c hc => (hno c (List.mem_of_mem_head? hc)).1,
    if_neg fun hslash => (hno _ hslash).2 rfl]

/-- A decimal has one value with and without its leading zero. -/
theorem numberOf?_numericClass {sign decimal m : Text} {r : Ratio} (hsign : IsSign sign)
    (hdecimal : r.toDecimal? = some decimal) (hm : m ∈ numericClass (sign ++ decimal)) :
    numberOf? m = some (signed sign (ratioValue r)) := by
  have hchars := toDecimal?_chars hdecimal
  rcases List.mem_cons.1 hm with rfl | hm
  · rw [numberOf?_decimal hsign hchars, decimal?_toDecimal? hdecimal, Option.map_some]
  · obtain ⟨bare, rfl, rfl⟩ := (mem_leadingZero_decimal hsign hdecimal).1 hm
    have hbare := ((toDecimal?_cons_zero hdecimal).resolve_left (by simp)).2
    rw [numberOf?_decimal hsign fun c hc => hchars c (List.mem_cons_of_mem _ hc), hbare,
      Option.map_some]

/-- A fraction and its decimals have one value. -/
theorem numberOf?_fractionClass {sign n d m : Text} {p q : ℕ} (hsign : IsSign sign)
    (hn : toNat? n = some p) (hd : toNat? d = some q) (hq : q ≠ 0)
    (hm : m ∈ fractionClass (sign ++ n ++ '/' :: d)) :
    numberOf? m = some (signed sign (p / q)) := by
  have hndigits := isDigits_of_toNat? hn
  have hddigits := isDigits_of_toNat? hd
  rcases List.mem_cons.1 hm with rfl | hm
  · exact numberOf?_fraction hsign hn hd hq
  · rw [fractionDecimal_eq hsign hndigits hddigits] at hm
    simp only [List.mem_flatMap, Option.mem_toList, Option.map_eq_some_iff,
      Option.bind_eq_some_iff] at hm
    obtain ⟨_, ⟨decimal, ⟨r, hr, hdecimal⟩, rfl⟩, hm⟩ := hm
    rw [numberOf?_numericClass hsign hdecimal hm, ratioValue_ofDigits? hndigits hddigits hr,
      (toNat?_eq_some.1 hn).2.2, (toNat?_eq_some.1 hd).2.2]

section

variable {sign n d : Text} {p q : ℕ} (hsign : IsSign sign) (hn : toNat? n = some p)
  (hd : toNat? d = some q)
include hsign hn hd

theorem mem_expand_of_not_printable (h : ¬ Printable p q) {m : Text} :
    m ∈ expand (sign ++ n ++ '/' :: d) ↔ m = sign ++ n ++ '/' :: d := by
  have hndigits := isDigits_of_toNat? hn
  have hddigits := isDigits_of_toNat? hd
  rw [mem_expand_fraction hsign hndigits hddigits, fractionClass,
    fractionDecimal_eq hsign hndigits hddigits, (decimal_of_digits hn hd).1 h]
  simp

theorem exists_shortest_of_printable (h : Printable p q) :
    ∃ decimal, IsShortest decimal (p / q) ∧
      ∀ m, m ∈ expand (sign ++ n ++ '/' :: d) ↔ m = sign ++ n ++ '/' :: d ∨ m = sign ++ decimal ∨
        ∃ bare, decimal = '0' :: '.' :: bare ∧ m = sign ++ '.' :: bare := by
  have hndigits := isDigits_of_toNat? hn
  have hddigits := isDigits_of_toNat? hd
  obtain ⟨decimal, hprinted, hshortest⟩ := (decimal_of_digits hn hd).2 h
  obtain ⟨r, -, hdecimal⟩ := Option.bind_eq_some_iff.1 hprinted
  refine ⟨decimal, hshortest, fun m => ?_⟩
  rw [mem_expand_fraction hsign hndigits hddigits, fractionClass,
    fractionDecimal_eq hsign hndigits hddigits, hprinted,
    ← mem_leadingZero_decimal hsign hdecimal]
  simp [numericClass]

end

/-- The class of a fraction: with the shortest numeral of its value where that is printed, and
alone otherwise. Its members have the value of the fraction. -/
theorem fraction_class (sign n d : Text) (p q : ℕ) (hsign : IsSign sign) (hn : toNat? n = some p)
    (hd : toNat? d = some q) :
    (¬ Printable p q → ∀ m, m ∈ expand (sign ++ n ++ '/' :: d) ↔ m = sign ++ n ++ '/' :: d) ∧
    (Printable p q → ∃ decimal, IsShortest decimal (p / q) ∧
      ∀ m, m ∈ expand (sign ++ n ++ '/' :: d) ↔ m = sign ++ n ++ '/' :: d ∨ m = sign ++ decimal ∨
        ∃ bare, decimal = '0' :: '.' :: bare ∧ m = sign ++ '.' :: bare) ∧
    (q ≠ 0 → ∀ m ∈ expand (sign ++ n ++ '/' :: d), numberOf? m = some (signed sign (p / q))) := by
  refine ⟨fun h m => mem_expand_of_not_printable hsign hn hd h,
    exists_shortest_of_printable hsign hn hd, fun hq m hm => ?_⟩
  exact numberOf?_fractionClass hsign hn hd hq
    ((mem_expand_fraction hsign (isDigits_of_toNat? hn) (isDigits_of_toNat? hd)).1 hm)

theorem printable_three_fourths : Printable 3 4 where
  ne_zero := by decide
  numerator := by decide
  denominator := by decide
  terminating := terminating_of_factors 2 0
  scale := by
    have hplaces : places (4 / Nat.gcd 3 4) = 2 := places_of_factors 2 0
    rw [hplaces]
    decide
  scaled := by
    have hplaces : places (4 / Nat.gcd 3 4) = 2 := places_of_factors 2 0
    rw [hplaces]
    decide

theorem fraction_class_three_fourths :
    toNat? "3" = some 3 ∧ toNat? "4" = some 4 ∧
      ∃ decimal, IsShortest decimal ((3 : ℕ) / (4 : ℕ)) ∧
        ∀ m, m ∈ expand "-3/4" ↔ m = "-3/4" ∨ m = '-' :: decimal ∨
          ∃ bare, decimal = '0' :: '.' :: bare ∧ m = '-' :: '.' :: bare :=
  ⟨by decide, by decide, (fraction_class "-" "3" "4" 3 4 (Or.inr rfl) (by decide)
    (by decide)).2.1 printable_three_fourths⟩

/-- Thirty-nine places are too many: the power of ten does not fit, although the units of the
last place would. -/
theorem fraction_alone_fifth_power :
    toNat? "1818989403545856475830078125" = some (5 ^ 39) ∧ 5 ^ 39 < 2 ^ 128 ∧
      Terminating (5 ^ 39 / Nat.gcd 1 (5 ^ 39)) ∧
      1 * 10 ^ places (5 ^ 39 / Nat.gcd 1 (5 ^ 39)) / 5 ^ 39 < 2 ^ 128 ∧
      ∃ decimal, IsShortest decimal ((1 : ℕ) / (5 ^ 39 : ℕ)) ∧
        decimal ∉ expand "1/1818989403545856475830078125" := by
  have hd : toNat? "1818989403545856475830078125" = some (5 ^ 39) := by decide
  have hplaces : places (5 ^ 39 / Nat.gcd 1 (5 ^ 39)) = 39 := by
    rw [Nat.gcd_one_left, Nat.div_one]
    exact places_of_factors 0 39
  have hnot : ¬ Printable 1 (5 ^ 39) := by
    intro h
    have hscale := h.scale
    rw [hplaces] at hscale
    exact absurd hscale (by decide)
  have hshortest := isShortest_decimalNumeral (2 ^ 39) 39
  have hvalue : ((2 ^ 39 : ℕ) : ℚ) / 10 ^ 39 = (1 : ℕ) / (5 ^ 39 : ℕ) := by norm_num
  rw [hvalue] at hshortest
  refine ⟨hd, by decide, ?_, ?_, _, hshortest, fun hm => ?_⟩
  · rw [Nat.gcd_one_left, Nat.div_one]
    exact terminating_of_factors 0 39
  · rw [hplaces]
    decide
  · have heq := (mem_expand_of_not_printable (n := "1") (Or.inl rfl) (by decide) hd hnot).1 hm
    have halone := hshortest.2.1
    rw [heq] at halone
    have hnone : decimal? "1/1818989403545856475830078125" = none := by decide
    exact absurd (hnone.symm.trans halone) (by simp)

end AssessmentItems.FractionClasses
