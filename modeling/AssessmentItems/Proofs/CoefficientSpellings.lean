import AssessmentItems.Proofs.ClassMembers

/-!
The spellings of a fraction times letters. Where the fraction has a value, each spelling is read
as the same coefficient and gives all others, whatever else the letters are, so that all of them
have one class. Where it has none, no rule fires on a spelling, but for the rule on π.
-/
namespace AssessmentItems.CoefficientSpellings

open Text AnswerRules AnswerClass Readings NumberRules CoefficientClasses CoefficientValues
  AnswerClosure ClassMembers

section

variable {c : Coefficient} {r : Ratio} {t u : Text} (hc : WellFormed c)
include hc

theorem fractionForm_mem_closure (hr : Ratio.ofDigits? c.numerator c.denominator = some r)
    (ht : t ∈ c.fractionForms) (hu : u ∈ c.fractionForms) : u ∈ closure t := by
  have hgiven : u ∈ fractionalCoefficient t :=
    spelling_mem_fractionalCoefficient hc hr ht (mem_spellings.2 (Or.inl hu))
  refine mem_closure_of_mem_variants (mem_closure_self t) (NumberRules.mem_variants.2 (Or.inl ?_))
  simp only [numberVariants, List.mem_append]
  exact Or.inl (Or.inr hgiven)

/-- The spellings of one coefficient derive one another. -/
theorem expand_fractionForm_eq (hr : Ratio.ofDigits? c.numerator c.denominator = some r)
    (ht : t ∈ c.fractionForms) (hu : u ∈ c.fractionForms) : expand t = expand u :=
  expand_eq_of_mem (fractionForm_mem_closure hc hr hu ht) (fractionForm_mem_closure hc hr ht hu)

/-- A coefficient without a value is left alone. -/
theorem expand_fractionForm_alone (hr : Ratio.ofDigits? c.numerator c.denominator = none)
    (hpi : c.letters ≠ "pi") (ht : t ∈ c.fractionForms) : expand t = [t] := by
  have htight := tight_fractionForm hc ht
  have hletters := lettersOf_fractionForm hc ht
  have hne : lettersOf t ≠ [] := hletters ▸ (isLetters_iff.1 hc.letters).1
  refine expand_alone fun m hm => ?_
  rcases mem_variants_of_letters htight hne hm with hm | hm | hm
  · obtain ⟨c', r', hread, hr', -⟩ := mem_fractionalCoefficient.1 hm
    rw [htight.trim_eq, coefficient?_complete hc ht, Option.some.injEq] at hread
    rw [← hread, hr] at hr'
    cases hr'
  · rw [piApproximation_eq_nil htight hne (hletters ▸ hpi)] at hm
    simp at hm
  · exact hm

end

/-- The three spellings of a fraction times letters have one class, and so has the one without
the numerator one. If the fraction is over zero or a number does not fit, each spelling is alone
in its class, unless the letters are the name of π. -/
theorem fraction_spellings_class (sign n d letters : Text) (p q : ℕ) (hsign : IsSign sign)
    (hn : toNat? n = some p) (hd : toNat? d = some q) (hletters : isLetters letters = true) :
    (p < 2 ^ 128 → q < 2 ^ 128 → q ≠ 0 →
      expand (sign ++ '(' :: n ++ '/' :: d ++ ')' :: letters) =
          expand (sign ++ n ++ '/' :: d ++ letters) ∧
        expand (sign ++ n ++ '/' :: d ++ letters) = expand (sign ++ n ++ letters ++ '/' :: d) ∧
        (n = "1" →
          expand (sign ++ n ++ letters ++ '/' :: d) = expand (sign ++ letters ++ '/' :: d))) ∧
    (¬ (p < 2 ^ 128 ∧ q < 2 ^ 128 ∧ q ≠ 0) → letters ≠ "pi" →
      ∀ form ∈ [sign ++ '(' :: n ++ '/' :: d ++ ')' :: letters, sign ++ n ++ '/' :: d ++ letters,
        sign ++ n ++ letters ++ '/' :: d], expand form = [form]) := by
  let c : Coefficient := ⟨sign, n, d, letters⟩
  have hc : WellFormed c := ⟨hsign, isDigits_of_toNat? hn, isDigits_of_toNat? hd, hletters⟩
  have hparens : sign ++ '(' :: n ++ '/' :: d ++ ')' :: letters ∈ c.fractionForms :=
    mem_fractionForms.2 (Or.inl rfl)
  have hslash : sign ++ n ++ '/' :: d ++ letters ∈ c.fractionForms :=
    mem_fractionForms.2 (Or.inr (Or.inl rfl))
  have hover : sign ++ n ++ letters ++ '/' :: d ∈ c.fractionForms :=
    mem_fractionForms.2 (Or.inr (Or.inr (Or.inl rfl)))
  constructor
  · intro hp hq hne
    obtain ⟨r, hr, -⟩ := ofDigits?_value hn hp hd hq hne
    refine ⟨expand_fractionForm_eq hc hr hparens hslash, expand_fractionForm_eq hc hr hslash hover,
      fun hone => ?_⟩
    exact expand_fractionForm_eq hc hr hover
      (mem_fractionForms.2 (Or.inr (Or.inr (Or.inr ⟨hone, rfl⟩))))
  · intro hnot hpi form hform
    have hr : Ratio.ofDigits? n d = none := by
      rw [Option.eq_none_iff_forall_ne_some]
      exact fun r hr => hnot (fits_of_ofDigits? hn hd hr)
    simp only [List.mem_cons, List.not_mem_nil, or_false] at hform
    rcases hform with rfl | rfl | rfl
    · exact expand_fractionForm_alone hc hr hpi hparens
    · exact expand_fractionForm_alone hc hr hpi hslash
    · exact expand_fractionForm_alone hc hr hpi hover

theorem fraction_spellings_class_half_pi :
    toNat? "1" = some 1 ∧ toNat? "2" = some 2 ∧ expand "-(1/2)pi" = expand "-1/2pi" ∧
      expand "-1/2pi" = expand "-1pi/2" ∧ expand "-1pi/2" = expand "-pi/2" := by
  obtain ⟨hparens, hslash, hone⟩ := (fraction_spellings_class "-" "1" "2" "pi" 1 2 (Or.inr rfl)
    (by decide) (by decide) (by decide)).1 (by decide) (by decide) (by decide)
  exact ⟨by decide, by decide, hparens, hslash, hone rfl⟩

end AssessmentItems.CoefficientSpellings
