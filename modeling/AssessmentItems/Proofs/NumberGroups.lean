import AssessmentItems.Proofs.CoefficientClasses
import AssessmentItems.Proofs.PiSpellings

/-!
Groups of numbers that the rules keep together. A decimal implies itself with or without
its leading zero, and nothing else. All other variants of a number are other spellings
of it, and decimals; a group that holds those spellings is closed once the decimals of
its members are added.
-/
namespace AssessmentItems.NumberGroups

open Text OperatorSpacing AnswerRules TextClasses FormulaLayout ImplicitProducts Readings
  PiReadings PiSpellings NumberRules Relations TightTexts DecimalNumerals CoefficientClasses

def Numeric (t : Text) : Prop :=
  ∃ sign body, IsSign sign ∧ (∀ c ∈ body, isDigit c = true ∨ c = '.') ∧ t = sign ++ body

theorem Numeric.tight {t : Text} (h : Numeric t) : Tight t := by
  obtain ⟨sign, body, hsign, hbody, rfl⟩ := h
  refine ⟨sign, body, hsign, fun c hc => ?_, rfl⟩
  rcases hbody c hc with hc | rfl
  · simp [isTight, hc]
  · decide

/-- No mark but a sign and a point is in a decimal, and no letter. -/
theorem Numeric.not_mem {t : Text} (h : Numeric t) :
    ∀ c, isDigit c = false → c ≠ '-' → c ≠ '.' → c ∉ t := by
  obtain ⟨sign, body, hsign, hbody, rfl⟩ := h
  intro c hdigit hminus hpoint hc
  rcases List.mem_append.1 hc with hc | hc
  · exact hminus (eq_of_mem_sign hsign hc)
  · rcases hbody c hc with hc | hc
    · simp [hc] at hdigit
    · exact hpoint hc

theorem numeric_of_mem_leadingZero {t m : Text} (h : m ∈ leadingZero t) : Numeric m := by
  obtain ⟨sign, digits, hsign, hdigits, h⟩ := mem_leadingZero.1 h
  have hall : ∀ c ∈ digits, isDigit c = true ∨ c = '.' := fun c hc =>
    Or.inl ((isDigits_iff.1 hdigits).2 c hc)
  rcases h with ⟨-, rfl⟩ | ⟨-, rfl⟩
  · exact ⟨sign, _, hsign, List.forall_mem_cons.2 ⟨Or.inr rfl, hall⟩, rfl⟩
  · exact ⟨sign, _, hsign, List.forall_mem_cons.2
      ⟨Or.inl (by decide), List.forall_mem_cons.2 ⟨Or.inr rfl, hall⟩⟩, rfl⟩

/-- What the rule on leading zeros reads is a decimal already. -/
theorem numeric_trim_of_mem_leadingZero {t m : Text} (h : m ∈ leadingZero t) : Numeric (trim t) := by
  obtain ⟨sign, digits, hsign, hdigits, h⟩ := mem_leadingZero.1 h
  have hpoint : ∀ c ∈ '.' :: digits, isDigit c = true ∨ c = '.' :=
    List.forall_mem_cons.2 ⟨Or.inr rfl, fun c hc => Or.inl ((isDigits_iff.1 hdigits).2 c hc)⟩
  rcases h with ⟨ht, -⟩ | ⟨ht, -⟩
  · exact ⟨sign, '0' :: '.' :: digits, hsign,
      List.forall_mem_cons.2 ⟨Or.inl (by decide), hpoint⟩, ht⟩
  · exact ⟨sign, '.' :: digits, hsign, hpoint, ht⟩

/-- Of the rules, only the one on leading zeros sees a decimal. -/
theorem Numeric.mem_variants {t m : Text} (h : Numeric t) (hm : m ∈ variants t) :
    m = t ∨ m ∈ leadingZero t := by
  have hslash := h.not_mem '/' (by decide) (by decide) (by decide)
  rcases h.tight.mem_variants hm with hm | hm
  · simp only [numberVariants, List.mem_append] at hm
    rcases hm with ((hm | hm) | hm) | hm
    · exact Or.inr hm
    · obtain ⟨sign, n, d, -, -, -, -, -, ht, -⟩ := mem_fractionDecimal.1 hm
      rw [h.tight.trim_eq] at ht
      exact absurd (ht ▸ by simp) hslash
    · obtain ⟨c, -, hc, -⟩ := mem_fractionalCoefficient.1 hm
      rw [h.tight.trim_eq] at hc
      exact absurd (slash_mem_fractionForm (coefficient?_sound hc).2) hslash
    · rcases h.tight.symbol_mem hm with hmem | hmem
      · exact absurd hmem (h.not_mem _ (by decide) (by decide) (by decide))
      · exact absurd hmem (h.not_mem _ (by decide) (by decide) (by decide))
  · exact Or.inl hm

/-- Adding and leaving out a leading zero undo one another. -/
theorem leadingZero_undo {t m u : Text} (hm : m ∈ leadingZero t) (hu : u ∈ leadingZero m) :
    u = trim t := by
  rw [mem_leadingZero, (numeric_of_mem_leadingZero hm).tight.trim_eq] at hu
  obtain ⟨sign, digits, hsign, -, h⟩ := mem_leadingZero.1 hm
  obtain ⟨sign', digits', hsign', -, h'⟩ := hu
  rcases h with ⟨ht, rfl⟩ | ⟨ht, rfl⟩
  · rcases h' with ⟨hm', -⟩ | ⟨hm', rfl⟩
    · obtain ⟨-, hbody⟩ := sign_unique hsign hsign' (by simp) (by simp) hm'
      simp at hbody
    · obtain ⟨rfl, hbody⟩ := sign_unique hsign hsign' (by simp) (by simp) hm'
      cases hbody
      exact ht.symm
  · rcases h' with ⟨hm', rfl⟩ | ⟨hm', -⟩
    · obtain ⟨rfl, hbody⟩ := sign_unique hsign hsign' (by simp) (by simp) hm'
      cases hbody
      exact ht.symm
    · obtain ⟨-, hbody⟩ := sign_unique hsign hsign' (by simp) (by simp) hm'
      simp at hbody

/-- A decimal, and what it is with or without its leading zero. -/
def numericClass (t : Text) : List Text := t :: leadingZero t

theorem numericClass_closed {t : Text} (h : Numeric t) :
    ∀ u ∈ numericClass t, ∀ m ∈ variants u, m ∈ numericClass t := by
  intro u hu m hm
  rcases List.mem_cons.1 hu with rfl | hu
  · rcases h.mem_variants hm with rfl | hm
    · exact List.mem_cons_self
    · exact List.mem_cons_of_mem _ hm
  · rcases (numeric_of_mem_leadingZero hu).mem_variants hm with rfl | hm
    · exact List.mem_cons_of_mem _ hu
    · rw [leadingZero_undo hu hm, h.tight.trim_eq]
      exact List.mem_cons_self

theorem length_numericClass_le (t : Text) : (numericClass t).length ≤ 2 := by
  have h := length_leadingZero_le t
  rw [numericClass, List.length_cons]
  omega

def piDecimals (t : Text) : List Text :=
  match piReading? (trim t) with
  | some p => ((p.value?.bind Ratio.toDecimal?).map (p.sign ++ ·)).toList
  | none => []

def decimals (t : Text) : List Text := leadingZero t ++ fractionDecimal t ++ piDecimals t

theorem numeric_of_toDecimal? {r : Ratio} {sign decimal : Text} (hsign : IsSign sign)
    (h : r.toDecimal? = some decimal) : Numeric (sign ++ decimal) :=
  ⟨sign, decimal, hsign, fun c hc =>
    (toDecimal?_chars h c hc).imp isDigit_of_isPlainDigit id, rfl⟩

theorem numeric_of_mem_decimals {t m : Text} (h : m ∈ decimals t) : Numeric m := by
  simp only [decimals, List.mem_append] at h
  rcases h with (h | h) | h
  · exact numeric_of_mem_leadingZero h
  · obtain ⟨sign, _, _, r, decimal, hsign, -, -, -, -, hdecimal, rfl⟩ := mem_fractionDecimal.1 h
    exact numeric_of_toDecimal? hsign hdecimal
  · simp only [piDecimals] at h
    split at h
    · next p hp =>
      simp only [Option.mem_toList, Option.map_eq_some_iff, Option.bind_eq_some_iff] at h
      obtain ⟨decimal, ⟨r, -, hdecimal⟩, rfl⟩ := h
      exact numeric_of_toDecimal? (piReading?_sound hp).1.sign hdecimal
    · simp at h

theorem length_decimals_le (t : Text) : (decimals t).length ≤ 3 := by
  have hzero := length_leadingZero_le t
  have hfraction := length_fractionDecimal_le t
  have hpi : (piDecimals t).length ≤ 1 := by
    simp only [piDecimals]
    split
    · next p _ => cases p.value?.bind Ratio.toDecimal? <;> simp
    · simp
  simp only [decimals, List.length_append]
  omega

theorem mem_piApproximation_cases {t m : Text} (h : m ∈ piApproximation t) :
    m ∈ respellings t ∨ m ∈ decimals t := by
  obtain ⟨p, r, hp, hr, rfl | ⟨decimal, hdecimal, rfl⟩⟩ := mem_piApproximation.1 h
  · exact Or.inl (by simp [respellings, hp])
  · refine Or.inr (List.mem_append_right _ ?_)
    simp [piDecimals, hp, hr, hdecimal]

/-- A group that the rules lead out of to decimals only. -/
def Stable (group : List Text) : Prop :=
  ∀ t ∈ group, ∀ m ∈ variants t, m ∈ group ∨ m ∈ decimals t

def withDecimals (group : List Text) : List Text :=
  group ++ (group.flatMap decimals).flatMap numericClass

theorem withDecimals_closed {group : List Text} (h : Stable group) :
    ∀ t ∈ withDecimals group, ∀ m ∈ variants t, m ∈ withDecimals group := by
  intro t ht m hm
  rcases List.mem_append.1 ht with ht | ht
  · rcases h t ht m hm with hm | hm
    · exact List.mem_append_left _ hm
    · refine List.mem_append_right _ (List.mem_flatMap.2 ⟨m, ?_, List.mem_cons_self⟩)
      exact List.mem_flatMap.2 ⟨t, ht, hm⟩
  · obtain ⟨d, hd, ht⟩ := List.mem_flatMap.1 ht
    obtain ⟨u, -, hdecimal⟩ := List.mem_flatMap.1 hd
    refine List.mem_append_right _ (List.mem_flatMap.2 ⟨d, hd, ?_⟩)
    exact numericClass_closed (numeric_of_mem_decimals hdecimal) t ht m hm

theorem length_flatMap_le {f : Text → List Text} {n : ℕ} (h : ∀ t, (f t).length ≤ n)
    (ts : List Text) : (ts.flatMap f).length ≤ n * ts.length := by
  induction ts with
  | nil => simp
  | cons t ts ih =>
    have ht := h t
    rw [List.flatMap_cons, List.length_append, List.length_cons, Nat.mul_succ]
    omega

/-- Each member has three decimals at most, and each decimal one other spelling. -/
theorem length_withDecimals_le (group : List Text) :
    (withDecimals group).length ≤ 7 * group.length := by
  have hdecimals := length_flatMap_le length_decimals_le group
  have hclasses := length_flatMap_le length_numericClass_le (group.flatMap decimals)
  rw [withDecimals, List.length_append]
  omega

theorem Stable.flatMap {f : Text → List Text} (h : ∀ t, Stable (f t)) (ts : List Text) :
    Stable (ts.flatMap f) := by
  intro u hu m hm
  obtain ⟨t, ht, hu⟩ := List.mem_flatMap.1 hu
  exact (h t u hu m hm).imp (fun hm => List.mem_flatMap.2 ⟨t, ht, hm⟩) id

/-- The spellings of a coefficient, and those in which its letters are written as π. -/
def coefficientGroup (t : Text) : List Text :=
  fractionalCoefficient t ++ (fractionalCoefficient t).flatMap respellings

/-- What the rule on coefficients gives are all spellings of one coefficient. -/
theorem exists_coefficient {t m : Text} (h : m ∈ fractionalCoefficient t) :
    ∃ c r, WellFormed c ∧ Ratio.ofDigits? c.numerator c.denominator = some r ∧
      trim t ∈ c.fractionForms ∧ fractionalCoefficient t = spellings c r := by
  obtain ⟨c, r, hc, hr, -⟩ := mem_fractionalCoefficient.1 h
  obtain ⟨hwell, hform⟩ := coefficient?_sound hc
  refine ⟨c, r, hwell, hr, hform, ?_⟩
  cases hdecimal : r.toDecimal? with
  | none => simp only [fractionalCoefficient, hc, hr, spellings, hdecimal]
  | some decimal => simp only [fractionalCoefficient, hc, hr, spellings, hdecimal]

theorem length_coefficientGroup_le (t : Text) : (coefficientGroup t).length ≤ 12 := by
  have hlength : (fractionalCoefficient t).length ≤ 6 := by
    rcases List.eq_nil_or_concat (fractionalCoefficient t) with h | ⟨_, m, h⟩
    · simp [h]
    · obtain ⟨c, r, -, -, -, heq⟩ := exists_coefficient (t := t) (m := m) (by simp [h])
      rw [heq]
      exact length_spellings_le c r
  have hrespellings := length_flatMap_le length_respellings_le (fractionalCoefficient t)
  rw [coefficientGroup, List.length_append]
  omega

/-- White space does not decide which coefficient is read. -/
theorem mem_coefficientGroup_compact {t m : Text} (h : m ∈ fractionalCoefficient t) :
    m ∈ coefficientGroup (compact t) := by
  obtain ⟨c, r, hc, -, hform, -⟩ := exists_coefficient h
  have htight := tight_fractionForm hc hform
  have htrim := trim_compact_of_tight htight
  refine List.mem_append_left _ ?_
  rwa [fractionalCoefficient, htrim]

/-- A respelled tight text is tight. -/
theorem tight_respelled {t m : Text} (ht : Tight t) (h : Respells t m) : Tight m := by
  obtain ⟨b, s, a, hsymbol, rfl⟩ := h
  rw [ht.trim_eq] at hsymbol
  obtain ⟨sign, body, hsign, hbody, rfl⟩ := ht
  have hother : ∀ c ∈ otherPi s, isTight c = true := by
    rcases isSymbol_otherPi s with h | h <;> rw [h] <;> exact forall_mem_of_all (by decide)
  obtain ⟨b', rfl, hb, ha⟩ : ∃ b', b = sign ++ b' ∧ (∀ c ∈ b', isTight c = true) ∧
      ∀ c ∈ a, isTight c = true := by
    have heq := hsymbol.eq
    rcases hsign with rfl | rfl
    · rw [List.nil_append] at heq
      rw [heq] at hbody
      exact ⟨b, rfl, fun c hc => hbody c (by simp [hc]), fun c hc => hbody c (by simp [hc])⟩
    · cases b with
      | nil =>
        have hhead : '-' ∈ (s ++ a).head? := by
          rw [← List.nil_append s, ← heq]
          rfl
        have hmem := mem_of_mem_head?_append (symbol_ne_nil hsymbol.symbol) hhead
        exact absurd (symbol_chars hsymbol.symbol _ hmem).1 (by decide)
      | cons d b =>
        simp only [List.cons_append, List.cons.injEq] at heq
        obtain ⟨rfl, rfl⟩ := heq
        exact ⟨b, rfl, fun c hc => hbody c (by simp [hc]), fun c hc => hbody c (by simp [hc])⟩
  refine ⟨sign, b' ++ otherPi s ++ a, hsign, ?_, by simp⟩
  simp only [List.forall_mem_append]
  exact ⟨⟨hb, hother⟩, ha⟩

/-- The letters of a coefficient that can be respelled are the name of π, and the
respelled text has none. -/
theorem lettersOf_respelled {t m : Text} (ht : Tight t) (hletters : lettersOf t ≠ [])
    (h : Respells t m) : lettersOf m = [] := by
  obtain ⟨b, s, a, hsymbol, rfl⟩ := h
  rw [ht.trim_eq] at hsymbol
  rw [hsymbol.eq, lettersOf_append, lettersOf_append, lettersOf_side hsymbol.before,
    lettersOf_side hsymbol.after] at hletters
  rw [lettersOf_append, lettersOf_append, lettersOf_side hsymbol.before,
    lettersOf_side hsymbol.after]
  rcases hsymbol.symbol with rfl | rfl
  · exact absurd rfl hletters
  · rfl

theorem stable_coefficientGroup (t : Text) : Stable (coefficientGroup t) := by
  intro u hu m hm
  rcases List.mem_append.1 hu with hu | hu
  · obtain ⟨c, r, hc, hr, -, heq⟩ := exists_coefficient hu
    rw [heq] at hu
    obtain ⟨htight, hletters⟩ := tight_spelling hc hu
    have hne : lettersOf u ≠ [] := hletters ▸ (isLetters_iff.1 hc.letters).1
    rcases mem_variants_of_letters htight hne hm with hm | hm | rfl
    · left
      rw [coefficientGroup, heq]
      exact List.mem_append_left _ (fractionalCoefficient_spelling hc hr hu hm)
    · refine (mem_piApproximation_cases hm).imp (fun hm => ?_) id
      rw [coefficientGroup, heq]
      exact List.mem_append_right _ (List.mem_flatMap.2 ⟨u, hu, hm⟩)
    · left
      rw [coefficientGroup, heq]
      exact List.mem_append_left _ hu
  · obtain ⟨x, hx, hux⟩ := List.mem_flatMap.1 hu
    obtain ⟨c, r, hc, -, -, heq⟩ := exists_coefficient hx
    obtain ⟨hxtight, hxletters⟩ := tight_spelling hc (heq ▸ hx)
    have hrespells := respells_of_mem hux
    have htight := tight_respelled hxtight hrespells
    have hnone := lettersOf_respelled hxtight (hxletters ▸ (isLetters_iff.1 hc.letters).1) hrespells
    rcases htight.mem_variants hm with hm | rfl
    · simp only [numberVariants, List.mem_append] at hm
      rcases hm with ((hm | hm) | hm) | hm
      · exact Or.inr (by simp [decimals, hm])
      · exact Or.inr (by simp [decimals, hm])
      · obtain ⟨c', -, hc', -, hform, -⟩ := exists_coefficient hm
        rw [htight.trim_eq] at hform
        rw [lettersOf_fractionForm hc' hform] at hnone
        exact absurd hnone (isLetters_iff.1 hc'.letters).1
      · refine (mem_piApproximation_cases hm).imp (fun hm => ?_) id
        rw [hrespells.undo (respells_of_mem hm), hxtight.trim_eq]
        exact List.mem_append_left _ hx
    · exact Or.inl (List.mem_append_right _ hu)

structure Plain (t : Text) : Prop where
  sign : ∀ c ∈ t, isRelationSign c = false
  star : implicitProducts t = t

/-- Being plain does not depend on white space. -/
theorem Plain.of_compact {t u : Text} (h : Plain t) (heq : compact u = compact t) : Plain u where
  sign := fun c hc => by
    by_contra hsign
    have hsign : isRelationSign c = true := by simpa using hsign
    have hmem : c ∈ compact u := mem_compact.2 ⟨hc, (relationSign_barrier hsign).2.1⟩
    rw [heq] at hmem
    rw [h.sign c (mem_compact.1 hmem).1] at hsign
    contradiction
  star := by
    rw [← implicitProducts_compact_eq, heq, implicitProducts_compact_eq]
    exact h.star

/-- Beside its layouts, a plain text implies spellings of a number. -/
theorem Plain.mem_variants {t m : Text} (h : Plain t) (hm : m ∈ variants t) :
    m = compact t ∨ m = spaced t ∨ m ∈ respellings t ∨ m ∈ coefficientGroup (compact t) ∨
      m ∈ decimals t := by
  obtain ⟨hinequality, hequation⟩ := relation_rules_eq_nil h.sign
  rw [NumberRules.mem_variants, hinequality, hequation] at hm
  rcases hm with hm | hm | hm | hm | hm
  · simp only [numberVariants, List.mem_append] at hm
    rcases hm with ((hm | hm) | hm) | hm
    · exact Or.inr (Or.inr (Or.inr (Or.inr (by simp [decimals, hm]))))
    · exact Or.inr (Or.inr (Or.inr (Or.inr (by simp [decimals, hm]))))
    · exact Or.inr (Or.inr (Or.inr (Or.inl (mem_coefficientGroup_compact hm))))
    · rcases mem_piApproximation_cases hm with hm | hm
      · exact Or.inr (Or.inr (Or.inl hm))
      · exact Or.inr (Or.inr (Or.inr (Or.inr hm)))
  · exact (mem_algebraicSpacing hm).imp id Or.inl
  · exact absurd h.star (mem_implicitMultiplication.1 hm).2
  · simp at hm
  · simp at hm

end AssessmentItems.NumberGroups
