import AssessmentItems.Proofs.LegalCharacters
import AssessmentItems.Proofs.RelationClasses
import AssessmentItems.Scoring

/-!
Legal characters in the spellings of an answer. What a rule adds to a value are digits, marks,
letters and single spaces, and the rest of a spelling is taken from the value. So a class is
legal as a whole or not at all, and the values that count as correct are legal exactly if the
declared ones are.
-/
namespace AssessmentItems.LegalSpellings

open Text AnswerRules AnswerClass OperatorSpacing TextClasses FormulaLayout ImplicitProducts
  Readings PiReadings NumberRules Relations RelationClasses AnswerClosure DecimalNumerals
  LegalCharacters

theorem legal_compact {t : Text} (h : Legal t) : Legal (compact t) :=
  h.of_subset fun _ hc => (mem_compact.1 hc).1

theorem legal_trim {t : Text} (h : Legal t) : Legal (trim t) := by
  obtain ⟨before, after, -, -, ht⟩ := exists_trim t
  rw [ht] at h
  simp only [legal_append] at h
  exact h.1.2

theorem legal_spaced {t : Text} (h : Legal t) : Legal (spaced t) := by
  have hlayout : ∀ ss : List Symbol, Legal (ss.flatMap Symbol.text) → Legal (layout ss) := by
    intro ss hss
    induction ss with
    | nil => exact legal_nil
    | cons s rest ih =>
      rw [List.flatMap_cons, legal_append] at hss
      rw [layout_cons, legal_append, legal_append]
      refine ⟨hss.1, ?_, ih hss.2⟩
      rcases gap_eq_or s rest with hgap | hgap <;> rw [hgap] <;> decide
  refine hlayout _ ?_
  rw [flatMap_symbols]
  exact legal_compact h

theorem legal_sign {sign : Text} (h : IsSign sign) : Legal sign := by
  rcases h with rfl | rfl <;> decide

theorem legal_digits {t : Text} (h : isDigits t = true) : Legal t :=
  fun c hc => isXmlChar_of_isDigit ((isDigits_iff.1 h).2 c hc)

theorem legal_letters {t : Text} (h : isLetters t = true) : Legal t :=
  fun c hc => isXmlChar_of_isPlainLetter ((isLetters_iff.1 h).2 c hc)

theorem legal_decimal {r : Ratio} {t : Text} (h : r.toDecimal? = some t) : Legal t := by
  intro c hc
  rcases toDecimal?_chars h c hc with hdigit | rfl
  · exact isXmlChar_of_isDigit (isDigit_of_isPlainDigit hdigit)
  · decide

theorem legal_leadingZero {value m : Text} (hm : m ∈ leadingZero value) : Legal m := by
  obtain ⟨sign, digits, hsign, hdigits, h⟩ := mem_leadingZero.1 hm
  have hsign := legal_sign hsign
  have hdigits := legal_digits hdigits
  rcases h with ⟨-, rfl⟩ | ⟨-, rfl⟩ <;> simp +decide [hsign, hdigits]

theorem legal_fractionDecimal {value m : Text} (hm : m ∈ fractionDecimal value) : Legal m := by
  obtain ⟨sign, n, d, ratio, decimal, hsign, -, -, -, -, hdecimal, rfl⟩ :=
    mem_fractionDecimal.1 hm
  exact legal_append.2 ⟨legal_sign hsign, legal_decimal hdecimal⟩

theorem legal_fractionalCoefficient {value m : Text} (hm : m ∈ fractionalCoefficient value) :
    Legal m := by
  obtain ⟨c, ratio, hc, -, h⟩ := mem_fractionalCoefficient.1 hm
  have hwell := (coefficient?_sound hc).1
  have hsign := legal_sign hwell.sign
  have hnumerator := legal_digits hwell.numerator
  have hdenominator := legal_digits hwell.denominator
  have hletters := legal_letters hwell.letters
  rcases h with h | ⟨decimal, hdecimal, h⟩
  · rcases mem_fractionForms.1 h with rfl | rfl | rfl | ⟨-, rfl⟩ <;>
      simp +decide [hsign, hnumerator, hdenominator, hletters]
  · have hdecimal := legal_decimal hdecimal
    unfold Coefficient.decimalForms at h
    split_ifs at h
    · obtain rfl := List.mem_singleton.1 h
      simp [hsign, hletters]
    · rcases List.mem_cons.1 h with rfl | h
      · simp [hsign, hdecimal, hletters]
      · split at h
        · obtain rfl := List.mem_singleton.1 h
          simp [hsign, (legal_cons.1 hdecimal).2, hletters]
        · simp at h

theorem legal_piApproximation {value m : Text} (hvalue : Legal value)
    (hm : m ∈ piApproximation value) : Legal m := by
  obtain ⟨p, ratio, hp, -, h⟩ := mem_piApproximation.1 hm
  obtain ⟨hterm, htrim⟩ := piReading?_sound hp
  have hparts := legal_trim hvalue
  rw [htrim] at hparts
  simp only [legal_append] at hparts
  rcases h with rfl | ⟨decimal, hdecimal, rfl⟩
  · have hsymbol : Legal (otherPi p.symbol) := by
      unfold otherPi
      split_ifs <;> decide
    simp [respelled, hparts, hsymbol]
  · exact legal_append.2 ⟨legal_sign hterm.sign, legal_decimal hdecimal⟩

theorem legal_relation {value m : Text} (hvalue : Legal value)
    (hm : m ∈ inequality value ∨ m ∈ equationSides value) : Legal m := by
  obtain ⟨left, sign, right, hrelates⟩ := exists_relates hm
  obtain ⟨s, -, hcompact⟩ := hrelates.reads
  have hsides := legal_compact hvalue
  rw [hcompact] at hsides
  simp only [legal_append] at hsides
  have hspelling : ∀ sign : Sign, ∀ s ∈ sign.spellings, Legal s := by
    intro sign
    cases sign with
    | equal => decide
    | comparison op => cases op <;> decide
  obtain ⟨t, ht, h⟩ := mem_forms.1 ((mem_rules hrelates).1 hm)
  have hreading : Legal t := by
    rcases mem_readings.1 ht with ⟨s, hs, rfl⟩ | ⟨s, hs, rfl⟩
    · simp [hsides, hspelling _ s hs]
    · simp [hsides, hspelling _ s hs]
  rcases h with rfl | rfl
  · exact hreading
  · exact legal_spaced hreading

/-- No rule brings in a character that is not allowed. -/
theorem legal_variants {value m : Text} (hvalue : Legal value) (hm : m ∈ variants value) :
    Legal m := by
  rcases mem_variants.1 hm with hnumber | hspacing | hproduct | hrelation
  · simp only [numberVariants, List.mem_append] at hnumber
    rcases hnumber with ((hm | hm) | hm) | hm
    · exact legal_leadingZero hm
    · exact legal_fractionDecimal hm
    · exact legal_fractionalCoefficient hm
    · exact legal_piApproximation hvalue hm
  · rcases mem_algebraicSpacing hspacing with rfl | rfl
    · exact legal_compact hvalue
    · exact legal_spaced hvalue
  · obtain ⟨rfl, -⟩ := mem_implicitMultiplication.1 hproduct
    exact hvalue.of_subset fun _ => mem_of_mem_implicitProducts
  · exact legal_relation hvalue hrelation

theorem sound_expand (value : Text) : Sound value (expand value) := by
  rcases finds_expand value with hdone | hfull
  · exact (visits_invariant hdone).1
  · exact (visits_invariant hfull).1

/-- A class is legal exactly if the value is from which it is expanded. -/
theorem legal_expand {value : Text} : (∀ m ∈ expand value, Legal m) ↔ Legal value := by
  constructor
  · exact fun h => h value (sound_expand value).start
  · intro h m hm
    have hclosed : Closed {t | Legal t} := fun t ht m hm _ => legal_variants ht hm
    exact closure_subset h hclosed ((sound_expand value).derived m hm)

open Scoring

theorem mem_distinct {t : Text} {values : List Text} : t ∈ distinct values ↔ t ∈ values := by
  induction values using List.reverseRecOn with
  | nil => rfl
  | append_singleton values value ih =>
    have hconcat : distinct (values ++ [value]) =
        if value ∈ distinct values then distinct values else distinct values ++ [value] := by
      rw [distinct, List.foldl_append]
      rfl
    rw [hconcat]
    split_ifs with hmem
    · rw [List.mem_append, List.mem_singleton, ← ih]
      exact (or_iff_left_of_imp fun heq => heq ▸ hmem).symm
    · rw [List.mem_append, List.mem_append, ih]

theorem legal_accepted {d : ResponseDeclaration} :
    (∀ value ∈ accepted d, Legal value) ↔ ∀ value ∈ d.values, Legal value := by
  unfold accepted
  split_ifs
  · rfl
  · simp only [List.forall_mem_append, mem_distinct, and_iff_left_iff_imp]
    intro h value hvalue
    have hspelling := mem_ascending.1 (List.mem_of_mem_filter hvalue)
    obtain ⟨declared, hdeclared, hvalue⟩ := List.mem_flatMap.1 hspelling
    exact legal_expand.2 (h declared hdeclared) value hvalue

end AssessmentItems.LegalSpellings
