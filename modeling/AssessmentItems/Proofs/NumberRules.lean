import AssessmentItems.Proofs.PiReadings

/-!
The rules of the table, taken apart. Four rules are about numbers; the others lay a
formula out anew or turn a relation round. A rule on numbers fires on few characters
only, and a parenthesis in a number stands at its front, so these rules leave relations
and products alone.
-/
namespace AssessmentItems.NumberRules

open Text AnswerRules TextClasses Readings PiReadings

def numberVariants (value : Text) : List Text :=
  leadingZero value ++ fractionDecimal value ++ fractionalCoefficient value ++
    piApproximation value

theorem mem_variants {m value : Text} :
    m ∈ variants value ↔ m ∈ numberVariants value ∨ m ∈ algebraicSpacing value ∨
      m ∈ implicitMultiplication value ∨ m ∈ inequality value ∨ m ∈ equationSides value := by
  simp only [variants, Rule.all, List.flatMap_cons, List.flatMap_nil, Rule.spellings,
    numberVariants, List.mem_append, List.not_mem_nil, or_false]
  tauto

def IsFormula (t : Text) : Prop := ∃ c ∈ t, c ∈ ("()=+-*/^" : Text)

theorem IsFormula.of_compact {t u : Text} (h : IsFormula t) (heq : compact t = compact u) :
    IsFormula u := by
  obtain ⟨c, hc, hmark⟩ := h
  have hspace : ∀ d ∈ ("()=+-*/^" : Text), isSpace d = false := forall_mem_of_all (by decide)
  exact ⟨c, (mem_compact.1 (heq ▸ mem_compact.2 ⟨hc, hspace c hmark⟩)).1, hmark⟩

/-- A formula is laid out in two ways, and another text in none. -/
theorem mem_algebraicSpacing_iff {m value : Text} :
    m ∈ algebraicSpacing value ↔
      IsFormula value ∧ (m = compact value ∨ m = OperatorSpacing.spaced value) := by
  have hformula : value.any (· ∈ ("()=+-*/^" : Text)) = true ↔ IsFormula value := by
    simp only [List.any_eq_true, decide_eq_true_eq, IsFormula]
  simp only [algebraicSpacing]
  split_ifs with h
  · simp [hformula.1 h]
  · simp [mt hformula.2 h]

theorem mem_algebraicSpacing {m value : Text} (h : m ∈ algebraicSpacing value) :
    m = compact value ∨ m = OperatorSpacing.spaced value :=
  (mem_algebraicSpacing_iff.1 h).2

theorem mem_implicitMultiplication {m value : Text} :
    m ∈ implicitMultiplication value ↔
      m = implicitProducts value ∧ implicitProducts value ≠ value := by
  simp only [implicitMultiplication]
  split_ifs with h
  · simp [h]
  · simp [h]

/-- The characters of numbers, of their multiples of a variable, and of white space. -/
def isNumeral (c : Char) : Bool :=
  isDigit c || isPlainLetter c || isSpace c || c ∈ ['-', '.', '/', '(', ')', '*', 'π']

/-- Beside white space, a value has the characters of its trimmed text. -/
theorem mem_trim {c : Char} {t : Text} (hc : c ∈ t) (hspace : isSpace c = false) :
    c ∈ trim t := by
  have h : c ∈ compact (trim t) := by
    rw [compact_trim]
    exact mem_compact.2 ⟨hc, hspace⟩
  exact (mem_compact.1 h).1

theorem mem_of_mem_fractionForms {k : Coefficient} {t : Text} {c : Char}
    (ht : t ∈ k.fractionForms) (hc : c ∈ t) :
    c ∈ k.sign ∨ c ∈ k.numerator ∨ c ∈ k.denominator ∨ c ∈ k.letters ∨ c ∈ ['/', '(', ')'] := by
  rcases mem_fractionForms.1 ht with rfl | rfl | rfl | ⟨-, rfl⟩
  all_goals
    simp only [List.mem_append, List.mem_cons] at hc
    simp only [List.mem_cons]
    tauto

theorem eq_of_mem_sign {s : Text} {c : Char} (hs : IsSign s) (hc : c ∈ s) : c = '-' := by
  rcases hs with rfl | rfl
  · simp at hc
  · exact List.mem_singleton.1 hc

theorem eq_of_mem_symbol {s : Text} {c : Char} (hs : IsSymbol s) (hc : c ∈ s) :
    c = 'π' ∨ c = 'p' ∨ c = 'i' := by
  rcases hs with rfl | rfl
  · exact Or.inl (List.mem_singleton.1 hc)
  · exact Or.inr (by simpa using hc)

/-- The values that the rules on numbers know: numerals, coefficients and terms in π. -/
theorem numberVariants_cases {m value : Text} (h : m ∈ numberVariants value) :
    (∀ c ∈ trim value, isDigit c = true ∨ c ∈ ['-', '.', '/']) ∨
    (∃ k, WellFormed k ∧ trim value ∈ k.fractionForms) ∨
    (∃ p, IsPiTerm p ∧ trim value = p.before ++ p.symbol ++ p.after) := by
  have hsign : ∀ {s : Text} {c : Char}, IsSign s → c ∈ s → c ∈ ['-', '.', '/'] := by
    intro s c hs hcs
    rw [eq_of_mem_sign hs hcs]
    decide
  simp only [numberVariants, List.mem_append] at h
  rcases h with ((h | h) | h) | h
  · obtain ⟨sign, digits, hs, hdigits, h⟩ := mem_leadingZero.1 h
    have hall := (isDigits_iff.1 hdigits).2
    refine Or.inl fun c hc => ?_
    rcases h with ⟨ht, -⟩ | ⟨ht, -⟩
    · simp only [ht, List.mem_append, List.mem_cons] at hc
      rcases hc with hc | rfl | rfl | hc
      · exact Or.inr (hsign hs hc)
      · exact Or.inl (by decide)
      · exact Or.inr (by decide)
      · exact Or.inl (hall c hc)
    · simp only [ht, List.mem_append, List.mem_cons] at hc
      rcases hc with hc | rfl | hc
      · exact Or.inr (hsign hs hc)
      · exact Or.inr (by decide)
      · exact Or.inl (hall c hc)
  · obtain ⟨sign, n, d, -, -, hs, hn, hd, ht, -⟩ := mem_fractionDecimal.1 h
    refine Or.inl fun c hc => ?_
    simp only [ht, List.mem_append, List.mem_cons] at hc
    rcases hc with (hc | hc) | rfl | hc
    · exact Or.inr (hsign hs hc)
    · exact Or.inl ((isDigits_iff.1 hn).2 c hc)
    · exact Or.inr (by decide)
    · exact Or.inl ((isDigits_iff.1 hd).2 c hc)
  · obtain ⟨c, -, hc, -⟩ := mem_fractionalCoefficient.1 h
    exact Or.inr (Or.inl ⟨c, coefficient?_eq_some.1 hc⟩)
  · obtain ⟨p, -, hp, -⟩ := mem_piApproximation.1 h
    exact Or.inr (Or.inr ⟨p, piReading?_sound hp⟩)

theorem coefficient_chars {k : Coefficient} (hk : WellFormed k) {t : Text}
    (ht : t ∈ k.fractionForms) {c : Char} (hc : c ∈ t) :
    isDigit c = true ∨ isPlainLetter c = true ∨ c ∈ ['-', '/', '(', ')'] := by
  rcases mem_of_mem_fractionForms ht hc with h | h | h | h | h
  · exact Or.inr (Or.inr (by rw [eq_of_mem_sign hk.sign h]; decide))
  · exact Or.inl ((isDigits_iff.1 hk.numerator).2 c h)
  · exact Or.inl ((isDigits_iff.1 hk.denominator).2 c h)
  · exact Or.inr (Or.inl ((isLetters_iff.1 hk.letters).2 c h))
  · exact Or.inr (Or.inr (List.mem_cons_of_mem _ h))

theorem piTerm_chars {p : PiTerm} (hp : IsPiTerm p) {c : Char}
    (hc : c ∈ p.before ++ p.symbol ++ p.after) : isSide c = true ∨ c ∈ ['π', 'p', 'i'] := by
  simp only [List.mem_append] at hc
  rcases hc with (hc | hc) | hc
  · exact Or.inl (hp.before c hc)
  · rcases eq_of_mem_symbol hp.symbol hc with rfl | rfl | rfl <;> exact Or.inr (by decide)
  · exact Or.inl (hp.after c hc)

/-- A value with a character that no number has is left alone by the rules on numbers. -/
theorem isNumeral_of_mem_numberVariants {m value : Text} (h : m ∈ numberVariants value) :
    ∀ c ∈ value, isNumeral c = true := by
  intro c hc
  cases hspace : isSpace c with
  | true => simp [isNumeral, hspace]
  | false =>
    have hmem := mem_trim hc hspace
    have hmark : ∀ marks : List Char, marks.all isNumeral = true → c ∈ marks →
        isNumeral c = true := fun marks hmarks hcm => List.all_eq_true.1 hmarks c hcm
    have hdigit : isDigit c = true → isNumeral c = true := fun hd => by simp [isNumeral, hd]
    rcases numberVariants_cases h with hall | ⟨k, hk, ht⟩ | ⟨p, hp, ht⟩
    · rcases hall c hmem with hd | hm
      · exact hdigit hd
      · exact hmark _ (by decide) hm
    · rcases coefficient_chars hk ht hmem with hd | hl | hm
      · exact hdigit hd
      · simp [isNumeral, hl]
      · exact hmark _ (by decide) hm
    · rcases piTerm_chars hp (ht ▸ hmem) with hs | hm
      · simp only [isSide, isNumeral, Bool.or_eq_true, decide_eq_true_eq, List.mem_cons] at hs ⊢
        tauto
      · exact hmark _ (by decide) hm

/-- A parenthesis in a number stands at its front, after the sign, and no star beside it. -/
theorem parenthesis_of_mem_numberVariants {m value : Text} (h : m ∈ numberVariants value)
    (hparen : '(' ∈ value) : ∃ sign rest, IsSign sign ∧ '(' ∉ rest ∧ '*' ∉ rest ∧
      trim value = sign ++ '(' :: rest := by
  have hmem := mem_trim hparen (by decide)
  rcases numberVariants_cases h with hall | ⟨k, hk, ht⟩ | ⟨p, hp, ht⟩
  · rcases hall _ hmem with hd | hm
    · exact absurd hd (by decide)
    · exact absurd hm (by decide)
  · have hno : ∀ c ∈ ['(', '*'], c ∉ k.sign ∧ c ∉ k.numerator ∧ c ∉ k.denominator ∧
        c ∉ k.letters := by
      intro c hc
      have hc' : isDigit c = false ∧ isPlainLetter c = false ∧ c ≠ '-' := by
        simp only [List.mem_cons, List.not_mem_nil, or_false] at hc
        rcases hc with rfl | rfl <;> decide
      refine ⟨fun h => hc'.2.2 (eq_of_mem_sign hk.sign h), fun h => ?_, fun h => ?_, fun h => ?_⟩
      · simp [(isDigits_iff.1 hk.numerator).2 c h] at hc'
      · simp [(isDigits_iff.1 hk.denominator).2 c h] at hc'
      · simp [(isLetters_iff.1 hk.letters).2 c h] at hc'
    have hp := hno '(' (by decide)
    have hs := hno '*' (by decide)
    rcases mem_fractionForms.1 ht with ht | ht | ht | ⟨-, ht⟩
    · refine ⟨k.sign, _, hk.sign, ?_, ?_, by rw [ht]; simp; rfl⟩
      · simp [hp]
      · simp [hs]
    · simp [ht, hp] at hmem
    · simp [ht, hp] at hmem
    · simp [ht, hp] at hmem
  · rcases piTerm_chars hp (ht ▸ hmem) with hs | hm
    · exact absurd hs (by decide)
    · exact absurd hm (by decide)

end AssessmentItems.NumberRules
