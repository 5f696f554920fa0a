import AssessmentItems.Proofs.CoefficientValues
import AssessmentItems.Proofs.PiSpellings
import AssessmentItems.Proofs.PiValues

/-!
Terms in π in other forms. Spacing a term sets white space around its star and changes nothing
else. A fraction times the name of π is a term if the name stands before the slash, with the same
sign and the same number; and each of its spellings with a decimal is a term as well.
-/
namespace AssessmentItems.PiTerms

open Text OperatorSpacing AnswerRules TextClasses FormulaLayout Readings PiReadings PiSpellings
  NumberRules TightTexts DecimalNumerals CoefficientClasses PiValues

theorem tight_symbol {symbol : Text} (h : IsSymbol symbol) : ∀ c ∈ symbol, isTight c = true := by
  rcases h with rfl | rfl <;> exact forall_mem_of_all (by decide)

theorem tight_isDecimal {k whole fraction : Text} (h : IsDecimal k whole fraction) :
    ∀ c ∈ k, isTight c = true := by
  intro c hc
  rcases h.chars c hc with hc | rfl
  · simp [isTight, hc]
  · decide

theorem tight_isCoefficient {k whole fraction : Text} (h : IsCoefficient k whole fraction) :
    ∀ c ∈ k, isTight c = true := by
  cases h with
  | one => simp
  | decimal h => exact tight_isDecimal h

theorem tight_isDivision {after divisor : Text} (h : IsDivision after divisor) :
    ∀ c ∈ compact after, isTight c = true := by
  cases h with
  | one => simp
  | slash hgap hdivisor =>
    rw [compact_append, hgap, List.forall_mem_append]
    refine ⟨forall_mem_of_all (by decide), fun c hc => ?_⟩
    simp [isTight, (isDigits_iff.1 hdivisor).2 c (mem_compact.1 hc).1]

/-- Spacing sets white space around the star of a term and nowhere else. -/
theorem written_spaced {p : PiTerm} (h : Written p) :
    ∃ before after, Written { p with before := before, after := after } ∧
      spaced (p.before ++ p.symbol ++ p.after) = before ++ p.symbol ++ after := by
  cases h with
  | @front sign k gap symbol after whole fraction divisor hsign hk hgap hsymbol hdivision =>
    have hdivision' := isDivision_compact hdivision
    have hfront := tight_isCoefficient hk
    have hbehind : ∀ c ∈ symbol ++ compact after, isTight c = true := by
      rw [List.forall_mem_append]
      exact ⟨tight_symbol hsymbol, tight_isDivision hdivision⟩
    have hsame : spaced (sign ++ k ++ gap ++ symbol ++ after) =
        spaced (sign ++ k ++ compact gap ++ (symbol ++ compact after)) :=
      spaced_congr (by simp)
    rcases hgap with hgap | hgap
    · refine ⟨sign ++ k ++ [], compact after, .front hsign hk (Or.inl rfl) hsymbol hdivision', ?_⟩
      have htight : Tight (sign ++ k ++ [] ++ (symbol ++ compact after)) :=
        ⟨sign, k ++ (symbol ++ compact after), hsign, List.forall_mem_append.2 ⟨hfront, hbehind⟩,
          by simp⟩
      rw [hsame, hgap, htight.spaced_eq, List.append_assoc _ symbol]
    · obtain ⟨gap', hgap', hspaced⟩ := Tight.spaced_star ⟨sign, k, hsign, hfront, rfl⟩ hbehind
      refine ⟨sign ++ k ++ gap', compact after,
        .front hsign hk (Or.inr hgap') hsymbol hdivision', ?_⟩
      rw [hsame, hgap, List.append_assoc _ ['*'], List.singleton_append, hspaced,
        List.append_assoc _ symbol]
  | @behind sign symbol gap k whole fraction hsign hsymbol hgap hk =>
    have hstar := compact_cons_of_not_isSpace (c := '*') (t := k) (by decide)
    have hsame : spaced (sign ++ symbol ++ (gap ++ k)) = spaced (sign ++ symbol ++ '*' :: k) :=
      spaced_congr (by simp [hgap, hstar])
    obtain ⟨gap', hgap', hspaced⟩ :=
      Tight.spaced_star ⟨sign, symbol, hsign, tight_symbol hsymbol, rfl⟩ (tight_isDecimal hk)
    refine ⟨sign, gap' ++ k, .behind hsign hsymbol hgap' hk, ?_⟩
    rw [hsame, hspaced, List.append_assoc _ gap']

/-- A spaced term is read with the same numbers. -/
theorem exists_reading_spaced {t : Text} {p : PiTerm} (h : piReading? (trim t) = some p) :
    ∃ before after, piReading? (trim (spaced t)) =
      some { p with before := before, after := after } := by
  obtain ⟨hp, ht⟩ := piReading?_eq_some.1 h
  obtain ⟨before, after, hp', hspaced⟩ := written_spaced hp
  refine ⟨before, after, ?_⟩
  rw [trim_spaced, ← spaced_congr (compact_trim t), ht, hspaced]
  exact piReading?_eq_some.2 ⟨hp', rfl⟩

theorem slash_not_mem_before {p : PiTerm} (h : Written p) : '/' ∉ p.before := by
  intro hslash
  have hsign : ∀ {sign : Text}, IsSign sign → '/' ∉ sign := fun hsign hc =>
    absurd (eq_of_mem_sign hsign hc) (by decide)
  cases h with
  | @front sign k gap symbol after whole fraction divisor hs hk hgap hsymbol hdivision =>
    simp only [List.mem_append] at hslash
    rcases hslash with (hslash | hslash) | hslash
    · exact hsign hs hslash
    · cases hk with
      | one => simp at hslash
      | decimal hk =>
        rcases hk.chars _ hslash with hc | hc
        · exact absurd hc (by decide)
        · exact absurd hc (by decide)
    · have hmem : '/' ∈ compact gap := mem_compact.2 ⟨hslash, by decide⟩
      rcases hgap with hgap | hgap
      · simp [hgap] at hmem
      · simp [hgap] at hmem
  | behind hs => exact hsign hs hslash

/-- If a fraction times the name of π is read as a term, it has the same sign and the same number
as that. -/
theorem reading_of_fractionForm {c : Coefficient} {t : Text} {p : PiTerm} (hc : WellFormed c)
    (hpi : c.letters = "pi") (ht : t ∈ c.fractionForms) (hp : piReading? t = some p) :
    p.sign = c.sign ∧ number p = digitsValue c.numerator / digitsValue c.denominator := by
  obtain ⟨sign, n, d, letters⟩ := c
  obtain ⟨hsign, hn, hd, -⟩ := hc
  obtain rfl : letters = ['p', 'i'] := hpi
  obtain ⟨hterm, htext⟩ := piReading?_eq_some.1 hp
  have hread : ∀ {k whole : Text}, IsCoefficient k whole [] →
      t = sign ++ k ++ ['p', 'i'] ++ '/' :: d →
        p.sign = sign ∧ number p = digitsValue whole / digitsValue d := by
    intro k whole hk ht
    have hreading : piReading? t =
        some ⟨sign, sign ++ k ++ [], ['p', 'i'], ['/'] ++ d, whole, [], d⟩ :=
      piReading?_eq_some.2
        ⟨.front hsign hk (Or.inl rfl) (Or.inr rfl) (.slash rfl hd), by simp [ht]⟩
    obtain rfl := Option.some.inj (hp.symm.trans hreading)
    exact ⟨rfl, by simp [number]⟩
  rcases mem_fractionForms.1 ht with ht | ht | ht | ⟨hone, ht⟩
  · have hparen : '(' ∈ p.before ++ p.symbol ++ p.after := by
      rw [← htext, ht]
      simp
    exact absurd (piTerm_chars hterm.isPiTerm hparen) (by decide)
  · have hbefore : ∀ c ∈ sign ++ n ++ '/' :: d, isSide c = true := by
      simp only [List.forall_mem_append, List.forall_mem_cons]
      exact ⟨⟨isSide_of_isSign hsign, fun c hc => isSide_of_isDigit ((isDigits_iff.1 hn).2 c hc)⟩,
        by decide, fun c hc => isSide_of_isDigit ((isDigits_iff.1 hd).2 c hc)⟩
    have hsymbol : HasSymbol t (sign ++ n ++ '/' :: d) ['p', 'i'] [] :=
      ⟨by simp [ht], Or.inr rfl, hbefore, by simp⟩
    obtain ⟨hfront, -⟩ := hsymbol.unique (HasSymbol.of_reading hp)
    exact absurd (hfront ▸ by simp) (slash_not_mem_before hterm)
  · exact hread (.decimal (.digits hn)) ht
  · obtain rfl : n = ['1'] := hone
    exact hread .one (by simpa using ht)

/-- What stands before the letters in a spelling with a decimal is a coefficient of that value,
unless the decimal is zero. -/
theorem exists_coefficient_of_decimalForm {c : Coefficient} {r : Ratio} {decimal m : Text}
    (hdecimal : r.toDecimal? = some decimal) (hm : m ∈ c.decimalForms decimal)
    (hr : ratioValue r ≠ 0) :
    ∃ k whole fraction, IsCoefficient k whole fraction ∧ m = c.sign ++ k ++ c.letters ∧
      (digitsValue (whole ++ fraction) : ℚ) / 10 ^ fraction.length = ratioValue r := by
  obtain ⟨k, rfl, hk⟩ := mem_decimalForms.1 hm
  have hread : decimal? k = some (ratioValue r) →
      ∃ whole fraction, IsCoefficient k whole fraction ∧
        (digitsValue (whole ++ fraction) : ℚ) / 10 ^ fraction.length = ratioValue r := by
    intro hvalue
    obtain ⟨whole, fraction, hk, hvalue⟩ := exists_isDecimal_of_decimal? hvalue
    exact ⟨whole, fraction, .decimal hk, hvalue⟩
  have hvalue := decimal?_toDecimal? hdecimal
  obtain ⟨whole, fraction, hcoefficient, hvalue⟩ : ∃ whole fraction,
      IsCoefficient k whole fraction ∧
        (digitsValue (whole ++ fraction) : ℚ) / 10 ^ fraction.length = ratioValue r := by
    rcases hk with ⟨rfl, rfl⟩ | ⟨-, rfl | rfl⟩
    · refine ⟨['1'], [], .one, ?_⟩
      have hone : decimal? "1" = some ((1 : ℕ) : ℚ) := decimal?_digits (by decide)
      have hdigit : digitsValue (['1'] ++ []) = 1 := by decide
      rw [hone, Option.some.injEq] at hvalue
      rw [hdigit, ← hvalue]
      simp
    · exact hread hvalue
    · rcases toDecimal?_cons_zero hdecimal with ⟨-, hzero⟩ | ⟨-, hbare⟩
      · exact absurd hzero hr
      · exact hread hbare
  exact ⟨k, whole, fraction, hcoefficient, rfl, hvalue⟩

end AssessmentItems.PiTerms
