import AssessmentItems.Proofs.AnswerClosure
import AssessmentItems.Proofs.DecimalNumerals
import AssessmentItems.Proofs.TightTexts

/-!
The class of a coefficient. All its spellings are tight and have the same letters, which
keeps the rules on plain numbers away, and the rule on π as well if the letters are not
its name. What is left is the rule on coefficients: from each spelling with a fraction
it gives all spellings, and from one with a decimal it gives none.
-/
namespace AssessmentItems.CoefficientClasses

open Text AnswerRules AnswerClass TextClasses Readings PiReadings NumberRules TightTexts
  DecimalNumerals AnswerClosure

def lettersOf (t : Text) : Text := t.filter isPlainLetter

@[simp] theorem lettersOf_append (t u : Text) : lettersOf (t ++ u) = lettersOf t ++ lettersOf u :=
  List.filter_append t u

theorem lettersOf_cons {c : Char} (h : isPlainLetter c = false) (t : Text) :
    lettersOf (c :: t) = lettersOf t := by
  simp [lettersOf, h]

theorem lettersOf_eq_self {t : Text} (h : isLetters t = true) : lettersOf t = t :=
  List.filter_eq_self.2 (isLetters_iff.1 h).2

theorem lettersOf_eq_nil {t : Text} (h : ∀ c ∈ t, isPlainLetter c = false) : lettersOf t = [] :=
  List.filter_eq_nil_iff.2 fun c hc => by simp [h c hc]

theorem lettersOf_digits {t : Text} (h : isDigits t = true) : lettersOf t = [] :=
  lettersOf_eq_nil fun c hc => isPlainLetter_of_isDigit ((isDigits_iff.1 h).2 c hc)

theorem lettersOf_sign {t : Text} (h : IsSign t) : lettersOf t = [] := by
  rcases h with rfl | rfl <;> rfl

theorem lettersOf_side {t : Text} (h : ∀ c ∈ t, isSide c = true) : lettersOf t = [] := by
  refine lettersOf_eq_nil fun c hc => ?_
  by_contra hletter
  have hletter : isPlainLetter c = true := by simpa using hletter
  have hside := h c hc
  simp only [isSide, isDigit_of_isPlainLetter hletter, isSpace_of_isPlainLetter hletter,
    Bool.false_or, decide_eq_true_eq] at hside
  have hall : ∀ d ∈ ['-', '.', '*', '/'], isPlainLetter d = false := forall_mem_of_all (by decide)
  rw [hall c hside] at hletter
  contradiction

/-- A term in π has no letters, or those of its name. -/
theorem lettersOf_piTerm {p : PiTerm} (h : IsPiTerm p) :
    lettersOf (p.before ++ p.symbol ++ p.after) = [] ∨
      lettersOf (p.before ++ p.symbol ++ p.after) = "pi" := by
  rw [lettersOf_append, lettersOf_append, lettersOf_side h.before, lettersOf_side h.after,
    List.nil_append, List.append_nil]
  rcases h.symbol with hs | hs
  · exact Or.inl (hs ▸ rfl)
  · exact Or.inr (hs ▸ rfl)

section

variable {t m : Text} (ht : Tight t)
include ht

theorem leadingZero_eq_nil (hletters : lettersOf t ≠ []) : leadingZero t = [] := by
  refine List.eq_nil_iff_forall_not_mem.2 fun m hm => hletters ?_
  obtain ⟨sign, digits, hsign, hdigits, h⟩ := mem_leadingZero.1 hm
  rw [ht.trim_eq] at h
  rcases h with ⟨rfl, -⟩ | ⟨rfl, -⟩
  · rw [lettersOf_append, lettersOf_sign hsign, lettersOf_cons (by decide),
      lettersOf_cons (by decide), lettersOf_digits hdigits, List.nil_append]
  · rw [lettersOf_append, lettersOf_sign hsign, lettersOf_cons (by decide),
      lettersOf_digits hdigits, List.nil_append]

theorem fractionDecimal_eq_nil (hletters : lettersOf t ≠ []) : fractionDecimal t = [] := by
  refine List.eq_nil_iff_forall_not_mem.2 fun m hm => hletters ?_
  obtain ⟨sign, n, d, -, -, hsign, hn, hd, h, -⟩ := mem_fractionDecimal.1 hm
  rw [ht.trim_eq] at h
  rw [h, lettersOf_append, lettersOf_append, lettersOf_sign hsign, lettersOf_digits hn,
    lettersOf_cons (by decide), lettersOf_digits hd]
  rfl

theorem piApproximation_eq_nil (hletters : lettersOf t ≠ []) (hpi : lettersOf t ≠ "pi") :
    piApproximation t = [] := by
  refine List.eq_nil_iff_forall_not_mem.2 fun m hm => ?_
  obtain ⟨p, -, hp, -⟩ := mem_piApproximation.1 hm
  obtain ⟨hterm, h⟩ := piReading?_sound hp
  rw [ht.trim_eq] at h
  rcases lettersOf_piTerm hterm with hnil | hname
  · exact hletters (h ▸ hnil)
  · exact hpi (h ▸ hname)

/-- A text with letters implies what the rules on coefficients and on π give. -/
theorem mem_variants_of_letters (hletters : lettersOf t ≠ []) (hm : m ∈ variants t) :
    m ∈ fractionalCoefficient t ∨ m ∈ piApproximation t ∨ m = t := by
  rcases ht.mem_variants hm with hm | hm
  · simp only [numberVariants, List.mem_append, leadingZero_eq_nil ht hletters,
      fractionDecimal_eq_nil ht hletters, List.not_mem_nil, false_or] at hm
    rcases hm with hm | hm
    · exact Or.inl hm
    · exact Or.inr (Or.inl hm)
  · exact Or.inr (Or.inr hm)

end

def spellings (c : Coefficient) (r : Ratio) : List Text :=
  c.fractionForms ++ match r.toDecimal? with
    | some decimal => c.decimalForms decimal
    | none => []

theorem mem_spellings {c : Coefficient} {r : Ratio} {m : Text} :
    m ∈ spellings c r ↔
      m ∈ c.fractionForms ∨
        ∃ decimal, r.toDecimal? = some decimal ∧ m ∈ c.decimalForms decimal := by
  rw [spellings, List.mem_append]
  cases r.toDecimal? with
  | none => simp
  | some decimal => simp

/-- What stands before the letters in a spelling with a decimal. -/
theorem mem_decimalForms {c : Coefficient} {decimal m : Text} :
    m ∈ c.decimalForms decimal ↔ ∃ front, m = c.sign ++ front ++ c.letters ∧
      (decimal = "1" ∧ front = [] ∨
        decimal ≠ "1" ∧ (front = decimal ∨ decimal = '0' :: front)) := by
  simp only [Coefficient.decimalForms]
  split_ifs with hone
  · simp [hone]
  · constructor
    · intro hm
      rcases List.mem_cons.1 hm with rfl | hm
      · exact ⟨decimal, rfl, Or.inr ⟨hone, Or.inl rfl⟩⟩
      · split at hm
        · exact ⟨_, List.mem_singleton.1 hm, Or.inr ⟨hone, Or.inr rfl⟩⟩
        · simp at hm
    · rintro ⟨front, rfl, ⟨hdecimal, -⟩ | ⟨-, rfl | rfl⟩⟩
      · exact absurd hdecimal hone
      · exact List.mem_cons_self
      · exact List.mem_cons_of_mem _ List.mem_cons_self

theorem length_fractionForms_le (c : Coefficient) : c.fractionForms.length ≤ 4 := by
  simp only [Coefficient.fractionForms]
  split_ifs <;> simp

theorem length_spellings_le (c : Coefficient) (r : Ratio) : (spellings c r).length ≤ 6 := by
  have hforms := length_fractionForms_le c
  have hdecimals : ∀ decimal, (c.decimalForms decimal).length ≤ 2 := by
    intro decimal
    simp only [Coefficient.decimalForms]
    split_ifs
    · simp
    · split <;> simp
  rw [spellings, List.length_append]
  split
  · next decimal _ =>
    have := hdecimals decimal
    omega
  · simp only [List.length_nil]
    omega

section

variable {c : Coefficient} {r : Ratio} {t m : Text} (hc : WellFormed c)
include hc

theorem tight_fractionForm (ht : t ∈ c.fractionForms) : Tight t := by
  have hn : ∀ d ∈ c.numerator, isTight d = true := fun d hd => by
    simp [isTight, (isDigits_iff.1 hc.numerator).2 d hd]
  have hd : ∀ d ∈ c.denominator, isTight d = true := fun d hd => by
    simp [isTight, (isDigits_iff.1 hc.denominator).2 d hd]
  have hl : ∀ d ∈ c.letters, isTight d = true := fun d hd => by
    simp [isTight, (isLetters_iff.1 hc.letters).2 d hd]
  have hmark : ∀ d ∈ ['/', '(', ')'], isTight d = true := forall_mem_of_all (by decide)
  rcases mem_fractionForms.1 ht with rfl | rfl | rfl | ⟨-, rfl⟩
  · refine ⟨c.sign, '(' :: (c.numerator ++ '/' :: (c.denominator ++ ')' :: c.letters)), hc.sign,
      ?_, by simp⟩
    simp only [List.forall_mem_cons, List.forall_mem_append]
    exact ⟨hmark _ (by decide), hn, hmark _ (by decide), hd, hmark _ (by decide), hl⟩
  · refine ⟨c.sign, c.numerator ++ '/' :: (c.denominator ++ c.letters), hc.sign, ?_, by simp⟩
    simp only [List.forall_mem_cons, List.forall_mem_append]
    exact ⟨hn, hmark _ (by decide), hd, hl⟩
  · refine ⟨c.sign, c.numerator ++ (c.letters ++ '/' :: c.denominator), hc.sign, ?_, by simp⟩
    simp only [List.forall_mem_cons, List.forall_mem_append]
    exact ⟨hn, hl, hmark _ (by decide), hd⟩
  · refine ⟨c.sign, c.letters ++ '/' :: c.denominator, hc.sign, ?_, by simp⟩
    simp only [List.forall_mem_cons, List.forall_mem_append]
    exact ⟨hl, hmark _ (by decide), hd⟩

theorem lettersOf_fractionForm (ht : t ∈ c.fractionForms) : lettersOf t = c.letters := by
  have hmark : ∀ d ∈ ['/', '(', ')'], isPlainLetter d = false := forall_mem_of_all (by decide)
  have hslash := lettersOf_cons (hmark '/' (by decide))
  have hopen := lettersOf_cons (hmark '(' (by decide))
  have hclose := lettersOf_cons (hmark ')' (by decide))
  rcases mem_fractionForms.1 ht with rfl | rfl | rfl | ⟨-, rfl⟩
  all_goals
    simp only [lettersOf_append, hslash, hopen, hclose, lettersOf_sign hc.sign,
      lettersOf_digits hc.numerator, lettersOf_digits hc.denominator,
      lettersOf_eq_self hc.letters, List.nil_append, List.append_nil]

omit hc in
theorem slash_mem_fractionForm (ht : t ∈ c.fractionForms) : '/' ∈ t := by
  rcases mem_fractionForms.1 ht with rfl | rfl | rfl | ⟨-, rfl⟩ <;> simp

omit hc in
/-- The front of a spelling with a decimal has digits and points. -/
theorem front_chars {decimal front : Text} (hdecimal : r.toDecimal? = some decimal)
    (hfront : decimal = "1" ∧ front = [] ∨
      decimal ≠ "1" ∧ (front = decimal ∨ decimal = '0' :: front)) :
    ∀ d ∈ front, isPlainDigit d = true ∨ d = '.' := by
  have hchars := toDecimal?_chars hdecimal
  rcases hfront with ⟨-, rfl⟩ | ⟨-, rfl | rfl⟩
  · simp
  · exact hchars
  · exact fun d hd => hchars d (List.mem_cons_of_mem _ hd)

theorem tight_decimalForm {decimal : Text} (hdecimal : r.toDecimal? = some decimal)
    (ht : t ∈ c.decimalForms decimal) : Tight t ∧ lettersOf t = c.letters ∧ '/' ∉ t := by
  obtain ⟨front, rfl, hfront⟩ := mem_decimalForms.1 ht
  have hchars : ∀ d ∈ front, isDigit d = true ∨ d = '.' := fun d hd =>
    (front_chars hdecimal hfront d hd).imp isDigit_of_isPlainDigit id
  have hl := (isLetters_iff.1 hc.letters).2
  refine ⟨⟨c.sign, front ++ c.letters, hc.sign, fun d hd => ?_, by simp⟩, ?_, fun hslash => ?_⟩
  · rcases List.mem_append.1 hd with hd | hd
    · rcases hchars d hd with hd | rfl
      · simp [isTight, hd]
      · decide
    · simp [isTight, hl d hd]
  · have hfront : lettersOf front = [] := lettersOf_eq_nil fun d hd => by
      rcases hchars d hd with hd | rfl
      · exact isPlainLetter_of_isDigit hd
      · decide
    rw [lettersOf_append, lettersOf_append, lettersOf_sign hc.sign, hfront,
      lettersOf_eq_self hc.letters]
    rfl
  · rcases List.mem_append.1 hslash with hslash | hslash
    · rcases List.mem_append.1 hslash with hslash | hslash
      · exact absurd (eq_of_mem_sign hc.sign hslash) (by decide)
      · rcases hchars _ hslash with hd | hd
        · exact absurd hd (by decide)
        · exact absurd hd (by decide)
    · exact absurd (hl _ hslash) (by decide)

theorem tight_spelling (ht : t ∈ spellings c r) : Tight t ∧ lettersOf t = c.letters := by
  rcases mem_spellings.1 ht with ht | ⟨decimal, hdecimal, ht⟩
  · exact ⟨tight_fractionForm hc ht, lettersOf_fractionForm hc ht⟩
  · obtain ⟨htight, hletters, -⟩ := tight_decimalForm hc hdecimal ht
    exact ⟨htight, hletters⟩

/-- From any of its spellings, the rule on coefficients gives only spellings of the same
coefficient. -/
theorem fractionalCoefficient_spelling (hr : Ratio.ofDigits? c.numerator c.denominator = some r)
    (ht : t ∈ spellings c r) (hm : m ∈ fractionalCoefficient t) : m ∈ spellings c r := by
  obtain ⟨c', r', hread, hr', hm⟩ := mem_fractionalCoefficient.1 hm
  rw [(tight_spelling hc ht).1.trim_eq] at hread
  rcases mem_spellings.1 ht with ht | ⟨decimal, hdecimal, ht⟩
  · rw [coefficient?_complete hc ht, Option.some.injEq] at hread
    subst hread
    rw [hr, Option.some.injEq] at hr'
    subst hr'
    exact mem_spellings.2 hm
  · exact absurd (slash_mem_fractionForm (coefficient?_sound hread).2)
      (tight_decimalForm hc hdecimal ht).2.2

theorem spelling_mem_fractionalCoefficient
    (hr : Ratio.ofDigits? c.numerator c.denominator = some r)
    (ht : t ∈ c.fractionForms) (hm : m ∈ spellings c r) : m ∈ fractionalCoefficient t := by
  refine mem_fractionalCoefficient.2 ⟨c, r, ?_, hr, mem_spellings.1 hm⟩
  rw [(tight_fractionForm hc ht).trim_eq]
  exact coefficient?_complete hc ht

/-- The class of a spelling with a fraction, if the letters are not the name of π. -/
theorem mem_expand_coefficient (hr : Ratio.ofDigits? c.numerator c.denominator = some r)
    (hpi : c.letters ≠ "pi") (ht : t ∈ c.fractionForms) :
    m ∈ expand t ↔ m ∈ spellings c r := by
  have hne := (isLetters_iff.1 hc.letters).1
  refine mem_expand_of_list (mem_spellings.2 (Or.inl ht)) ?_ ?_
    ((length_spellings_le c r).trans (by decide))
  · intro u hu m hm _
    obtain ⟨htight, hletters⟩ := tight_spelling hc hu
    rw [← hletters] at hne hpi
    rcases mem_variants_of_letters htight hne hm with hm | hm | rfl
    · exact fractionalCoefficient_spelling hc hr hu hm
    · rw [piApproximation_eq_nil htight hne hpi] at hm
      simp at hm
    · exact hu
  · intro u hu
    have hne' : u ≠ [] := by
      rintro rfl
      exact hne (tight_spelling hc hu).2.symm
    have hvariant : u ∈ variants t := NumberRules.mem_variants.2 (Or.inl (by
      simp only [numberVariants, List.mem_append]
      exact Or.inl (Or.inr (spelling_mem_fractionalCoefficient hc hr ht hu))))
    exact closed_closure t t (mem_closure_self t) u hvariant hne'

end

end AssessmentItems.CoefficientClasses
