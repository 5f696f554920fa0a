import AssessmentItems.Proofs.ClassMembers

/-!
White space and the class of a formula. A rule that fires on a text either gives a text that
differs in white space only, or fires in the same way on the text without its white space. So,
but for white space, a formula derives what its text without white space derives.
-/
namespace AssessmentItems.SpacingClasses

open Text AnswerRules AnswerClass TextClasses FormulaLayout ImplicitProducts Readings PiReadings
  PiSpellings NumberRules Relations RelationClasses TightTexts CoefficientClasses NumberGroups
  FractionClasses AnswerClosure ClassMembers

section

variable {t m : Text}

/-- A decimal is read from a trimmed text, which has no white space left. -/
theorem leadingZero_compact (h : m ∈ leadingZero t) : compact m ∈ leadingZero (compact t) := by
  rw [(numeric_of_mem_leadingZero h).tight.compact_eq, leadingZero,
    trim_compact_of_tight (numeric_trim_of_mem_leadingZero h).tight]
  exact h

theorem fractionDecimal_compact (h : m ∈ fractionDecimal t) :
    compact m ∈ fractionDecimal (compact t) := by
  have hnumeric : Numeric m :=
    numeric_of_mem_decimals (List.mem_append_left _ (List.mem_append_right _ h))
  have htight : Tight (trim t) := by
    obtain ⟨sign, n, d, -, -, hsign, hn, hd, ht, -⟩ := mem_fractionDecimal.1 h
    exact ht ▸ tight_fraction hsign hn hd
  rw [hnumeric.tight.compact_eq, fractionDecimal, trim_compact_of_tight htight]
  exact h

theorem fractionalCoefficient_compact (h : m ∈ fractionalCoefficient t) :
    compact m ∈ fractionalCoefficient (compact t) := by
  obtain ⟨c, r, hc, -, hform, heq⟩ := exists_coefficient h
  have hspelling : m ∈ spellings c r := heq ▸ h
  rw [(tight_spelling hc hspelling).1.compact_eq, fractionalCoefficient,
    trim_compact_of_tight (tight_fractionForm hc hform)]
  exact h

/-- A term in π may have white space inside; without it the same numbers are read. -/
theorem piApproximation_compact (h : m ∈ piApproximation t) :
    compact m ∈ piApproximation (compact t) := by
  obtain ⟨p, r, hp, hr, hm⟩ := mem_piApproximation.1 h
  refine mem_piApproximation.2 ⟨_, r, piReading?_trim_compact hp, hr, hm.imp ?_ ?_⟩
  · rintro rfl
    exact (HasSymbol.of_reading hp).other.compact.eq
  · rintro ⟨decimal, hdecimal, rfl⟩
    have hnumeric := numeric_of_toDecimal? (piReading?_sound hp).1.sign hdecimal
    exact ⟨decimal, hdecimal, hnumeric.tight.compact_eq⟩

theorem implicitMultiplication_compact (h : m ∈ implicitMultiplication t) :
    compact m ∈ implicitMultiplication (compact t) := by
  obtain ⟨rfl, hne⟩ := mem_implicitMultiplication.1 h
  exact mem_implicitMultiplication.2
    ⟨compact_implicitProducts t, mt implicitProducts_compact_eq.1 hne⟩

/-- A form of a relation is one of its readings, which have no white space. -/
theorem relationRules_compact (h : m ∈ inequality t ∨ m ∈ equationSides t) :
    compact m ∈ inequality (compact t) ∨ compact m ∈ equationSides (compact t) := by
  obtain ⟨left, sign, right, hrelates⟩ := exists_relates h
  have hcompact : Relates (compact t) left sign right := by
    obtain ⟨hleft, hright, s, hs, ht⟩ := hrelates
    exact ⟨hleft, hright, s, hs, by rw [compact_compact, ht]⟩
  have hm := (mem_rules hrelates).1 h
  refine (mem_rules hcompact).2 (mem_forms.2 ⟨compact m, ?_, Or.inl rfl⟩)
  rcases relates_of_mem_forms hrelates hm with hm | hm
  · exact compact_mem_readings hm
  · have hread := compact_mem_readings hm
    rw [mem_readings, Sign.flip_flip] at hread
    exact mem_readings.2 hread.symm

/-- A rule changes white space only, or fires without white space as it does with it. -/
theorem compact_of_mem_variants (h : m ∈ variants t) :
    compact m = compact t ∨ compact m ∈ variants (compact t) := by
  simp only [NumberRules.mem_variants, numberVariants, List.mem_append] at h ⊢
  rcases h with (((h | h) | h) | h) | h | h | h
  · exact Or.inr (Or.inl (Or.inl (Or.inl (Or.inl (leadingZero_compact h)))))
  · exact Or.inr (Or.inl (Or.inl (Or.inl (Or.inr (fractionDecimal_compact h)))))
  · exact Or.inr (Or.inl (Or.inl (Or.inr (fractionalCoefficient_compact h))))
  · exact Or.inr (Or.inl (Or.inr (piApproximation_compact h)))
  · rcases mem_algebraicSpacing h with rfl | rfl
    · exact Or.inl (compact_compact t)
    · exact Or.inl (compact_spaced t)
  · exact Or.inr (Or.inr (Or.inr (Or.inl (implicitMultiplication_compact h))))
  · exact Or.inr (Or.inr (Or.inr (Or.inr (relationRules_compact h))))

end

/-- Without white space, what a value derives is derived from the value without white space. -/
theorem compact_mem_closure {value m : Text} (h : m ∈ closure value) :
    compact m ∈ closure (compact value) := by
  have hclosed : Closed {t | compact t ∈ closure (compact value)} := by
    intro t ht m hm _
    rcases compact_of_mem_variants hm with heq | hvariant
    · change compact m ∈ closure (compact value)
      exact heq ▸ ht
    · exact mem_closure_of_mem_variants ht hvariant
  have hsub : closure value ⊆ {t | compact t ∈ closure (compact value)} :=
    closure_subset (mem_closure_self (compact value)) hclosed
  exact hsub h

/-- A formula derives its text without white space. -/
theorem compact_mem_closure_of_formula {value : Text} (h : IsFormula value) :
    compact value ∈ closure value :=
  mem_closure_of_mem_variants (mem_closure_self value)
    (NumberRules.mem_variants.2 (Or.inr (Or.inl (mem_algebraicSpacing_iff.2 ⟨h, Or.inl rfl⟩))))

theorem image_compact_closure {value : Text} (h : IsFormula value) :
    compact '' closure value = compact '' closure (compact value) := by
  apply Set.Subset.antisymm
  · rintro _ ⟨m, hm, rfl⟩
    exact ⟨compact m, compact_mem_closure hm, compact_compact m⟩
  · exact Set.image_mono (closure_mono (compact_mem_closure_of_formula h))

/-- Formulas that differ in white space only have classes that differ in white space only. -/
theorem spacing_class (v w : Text) (hsame : compact v = compact w)
    (hformula : ∃ c ∈ v, c ∈ ("()=+-*/^" : Text)) :
    compact '' {m | m ∈ expand v} = compact '' {m | m ∈ expand w} := by
  have hclass : ∀ u, {m | m ∈ expand u} = closure u := fun u => Set.ext fun _ => mem_expand
  rw [hclass, hclass, image_compact_closure hformula,
    image_compact_closure (IsFormula.of_compact hformula hsame), hsame]

theorem spacing_class_two_pi :
    compact "2 * pi" = compact "2*pi" ∧ (∃ c ∈ ("2 * pi" : Text), c ∈ ("()=+-*/^" : Text)) ∧
      compact '' {m | m ∈ expand "2 * pi"} = compact '' {m | m ∈ expand "2*pi"} := by
  have hsame : compact "2 * pi" = compact "2*pi" := by decide
  have hformula : ∃ c ∈ ("2 * pi" : Text), c ∈ ("()=+-*/^" : Text) := ⟨'*', by decide, by decide⟩
  exact ⟨hsame, hformula, spacing_class "2 * pi" "2*pi" hsame hformula⟩

end AssessmentItems.SpacingClasses
