import AssessmentItems.Proofs.CoefficientClasses

/-!
The number by which a spelling multiplies its letters. It is read without the rules: a
sign, then nothing for one, a decimal or a fraction before the letters, or a whole number
before them and a divisor after them. The class of a fraction times letters keeps this
number, but for the fraction zero: its decimal loses the zero that it consists of, and
what is left are the letters alone.
-/
namespace AssessmentItems.CoefficientValues

open Text AnswerRules AnswerClass TextClasses Readings NumberRules DecimalNumerals
  CoefficientClasses

def quotient? (t : Text) : Option ℚ :=
  match t.dropWhile (· ≠ '/') with
  | [] => none
  | _ :: denominator => do
    let n ← toNat? (t.takeWhile (· ≠ '/'))
    let d ← toNat? denominator
    if d = 0 then none else some ((n : ℚ) / d)

def multiplier? : Text → Option ℚ
  | [] => some 1
  | '(' :: inner => if inner.getLast? = some ')' then quotient? inner.dropLast else none
  | c :: t => if '/' ∈ c :: t then quotient? (c :: t) else decimal? (c :: t)

def signed (sign : Text) (q : ℚ) : ℚ := if sign = [] then q else -q

def around? (front : Text) : Text → Option ℚ
  | [] => multiplier? front
  | '/' :: denominator => quotient? ((if front = [] then ['1'] else front) ++ '/' :: denominator)
  | _ => none

/-- The number by which a text multiplies the letters that it is about. -/
def coefficientOf? (letters t : Text) : Option ℚ :=
  let (sign, body) := splitSign t
  let rest := after? letters (body.dropWhile (!isPlainLetter ·))
  (rest.bind (around? (body.takeWhile (!isPlainLetter ·)))).map (signed sign)

theorem after?_append (start t : Text) : after? start (start ++ t) = some t := by
  induction start with
  | nil => rfl
  | cons c start ih => simp [after?, ih]

/-- The parts of a text around its letters. -/
theorem coefficientOf?_append {sign front letters : Text} (hsign : IsSign sign)
    (hfront : ∀ c ∈ front, isPlainLetter c = false ∧ c ≠ '-') (hletters : isLetters letters = true)
    (rest : Text) :
    coefficientOf? letters (sign ++ (front ++ (letters ++ rest))) =
      (around? front rest).map (signed sign) := by
  obtain ⟨hne, hall⟩ := isLetters_iff.1 hletters
  have hhead : ∀ c ∈ (front ++ (letters ++ rest)).head?, c ≠ '-' := by
    intro c hc
    cases front with
    | nil => exact ne_of_isPlainLetter (hall c (mem_of_mem_head?_append hne hc)) (by decide)
    | cons d front => exact (hfront c (List.mem_of_mem_head? hc)).2
  have hrun : ∀ c ∈ front, (!isPlainLetter c) = true := fun c hc => by simp [(hfront c hc).1]
  have hstop : ∀ c ∈ (letters ++ rest).head?, (!isPlainLetter c) = false := fun c hc => by
    simp [hall c (mem_of_mem_head?_append hne hc)]
  simp only [coefficientOf?, splitSign_append hsign hhead, takeWhile_run hrun hstop,
    dropWhile_run hrun hstop, after?_append, Option.bind_some]

theorem quotient?_append {n d : Text} {p q : ℕ} (hn : toNat? n = some p) (hd : toNat? d = some q)
    (hq : q ≠ 0) : quotient? (n ++ '/' :: d) = some ((p : ℚ) / q) := by
  have hrun : ∀ c ∈ n, decide (c ≠ '/') = true := fun c hc => by
    have hdigit := (toNat?_eq_some.1 hn).2.1 c hc
    rw [decide_eq_true_eq]
    rintro rfl
    exact absurd hdigit (by decide)
  have hstop : ∀ c ∈ ('/' :: d).head?, decide (c ≠ '/') = false := by
    rintro _ ⟨⟩
    rfl
  simp only [quotient?, takeWhile_run hrun hstop, dropWhile_run hrun hstop, hn, hd, bind,
    Option.bind_some]
  rw [if_neg hq]

/-- A numeral before the letters is read as a decimal. -/
theorem multiplier?_decimal {t : Text} (hne : t ≠ [])
    (hchars : ∀ c ∈ t, isPlainDigit c = true ∨ c = '.') : multiplier? t = decimal? t := by
  have hno : ∀ d, isPlainDigit d = false → d ≠ '.' → d ∉ t := fun d hdigit hpoint hd => by
    rcases hchars d hd with hd | hd
    · simp [hd] at hdigit
    · exact hpoint hd
  have hslash := hno '/' (by decide) (by decide)
  have hparen := hno '(' (by decide) (by decide)
  rw [multiplier?.eq_def]
  split
  · contradiction
  · exact absurd List.mem_cons_self hparen
  · rw [if_neg hslash]

theorem multiplier?_fraction {n d : Text} {p q : ℕ} (hn : toNat? n = some p)
    (hd : toNat? d = some q) (hq : q ≠ 0) :
    multiplier? (n ++ '/' :: d) = some ((p : ℚ) / q) ∧
      multiplier? ('(' :: (n ++ '/' :: (d ++ [')']))) = some ((p : ℚ) / q) := by
  obtain ⟨hne, hdigits, -⟩ := toNat?_eq_some.1 hn
  constructor
  · have hmem : '/' ∈ n ++ '/' :: d := by simp
    rw [← quotient?_append hn hd hq, multiplier?.eq_def]
    split
    · next h => simp at h
    · next inner h =>
      cases n with
      | nil => contradiction
      | cons c n =>
        obtain rfl := (List.cons.inj h).1
        exact absurd (hdigits _ List.mem_cons_self) (by decide)
    · next h => rw [h] at hmem ⊢; rw [if_pos hmem]
  · have hinner : n ++ '/' :: (d ++ [')']) = (n ++ '/' :: d) ++ [')'] := by simp
    rw [hinner, multiplier?, List.getLast?_concat, if_pos rfl, List.dropLast_concat,
      quotient?_append hn hd hq]

/-- A digit is neither one of the letters nor the sign. -/
theorem unlettered_digit {d : Char} (h : isPlainDigit d = true) :
    isPlainLetter d = false ∧ d ≠ '-' :=
  ⟨isPlainLetter_of_isDigit (isDigit_of_isPlainDigit h),
    ne_of_isDigit (isDigit_of_isPlainDigit h) (by decide)⟩

theorem isDigits_of_toNat? {t : Text} {k : ℕ} (h : toNat? t = some k) : isDigits t = true := by
  obtain ⟨hne, hall, -⟩ := toNat?_eq_some.1 h
  exact isDigits_iff.2 ⟨hne, fun c hc => isDigit_of_isPlainDigit (hall c hc)⟩

section

variable {c : Coefficient} {r : Ratio} {p q : ℕ} {t : Text}

theorem coefficientOf?_fractionForm (hc : WellFormed c) (hn : toNat? c.numerator = some p)
    (hd : toNat? c.denominator = some q) (hq : q ≠ 0) (ht : t ∈ c.fractionForms) :
    coefficientOf? c.letters t = some (signed c.sign (p / q)) := by
  obtain ⟨hnne, hndigits, -⟩ := toNat?_eq_some.1 hn
  have hnum : ∀ d ∈ c.numerator, isPlainLetter d = false ∧ d ≠ '-' := fun d hd =>
    unlettered_digit (hndigits d hd)
  have hden : ∀ e ∈ c.denominator, isPlainLetter e = false ∧ e ≠ '-' := fun e he =>
    unlettered_digit ((toNat?_eq_some.1 hd).2.1 e he)
  have hmark : ∀ d ∈ ['/', '(', ')'], isPlainLetter d = false ∧ d ≠ '-' :=
    forall_mem_of_all (by decide)
  obtain ⟨hfraction, hparens⟩ := multiplier?_fraction hn hd hq
  rcases mem_fractionForms.1 ht with rfl | rfl | rfl | ⟨hone, rfl⟩
  · have hfront : ∀ d ∈ '(' :: (c.numerator ++ '/' :: (c.denominator ++ [')'])),
        isPlainLetter d = false ∧ d ≠ '-' := by
      simp only [List.forall_mem_cons, List.forall_mem_append]
      exact ⟨hmark _ (by decide), hnum, hmark _ (by decide), hden, hmark _ (by decide), by simp⟩
    have h := coefficientOf?_append hc.sign hfront hc.letters []
    rw [around?, hparens] at h
    simpa using h
  · have hfront : ∀ d ∈ c.numerator ++ '/' :: c.denominator,
        isPlainLetter d = false ∧ d ≠ '-' := by
      simp only [List.forall_mem_cons, List.forall_mem_append]
      exact ⟨hnum, hmark _ (by decide), hden⟩
    have h := coefficientOf?_append hc.sign hfront hc.letters []
    rw [around?, hfraction] at h
    simpa using h
  · have h := coefficientOf?_append hc.sign hnum hc.letters ('/' :: c.denominator)
    rw [around?, if_neg hnne, quotient?_append hn hd hq] at h
    simpa using h
  · have hnil : ∀ d ∈ ([] : Text), isPlainLetter d = false ∧ d ≠ '-' := by simp
    have h := coefficientOf?_append hc.sign hnil hc.letters ('/' :: c.denominator)
    rw [around?, if_pos rfl, ← hone, quotient?_append hn hd hq] at h
    simpa using h

/-- A spelling with a decimal keeps the value, unless the decimal is the zero that its
spelling leaves out. -/
theorem coefficientOf?_decimalForm (hc : WellFormed c) {decimal : Text}
    (hdecimal : r.toDecimal? = some decimal) (ht : t ∈ c.decimalForms decimal) :
    coefficientOf? c.letters t = some (signed c.sign (ratioValue r)) ∨
      ratioValue r = 0 ∧ t = c.sign ++ c.letters := by
  obtain ⟨front, rfl, hfront⟩ := mem_decimalForms.1 ht
  have hchars := front_chars hdecimal hfront
  have hvalue := decimal?_toDecimal? hdecimal
  have hread : coefficientOf? c.letters (c.sign ++ front ++ c.letters) =
      (multiplier? front).map (signed c.sign) := by
    have hplain : ∀ d ∈ front, isPlainLetter d = false ∧ d ≠ '-' := fun d hd => by
      rcases hchars d hd with hd | rfl
      · exact unlettered_digit hd
      · decide
    have h := coefficientOf?_append hc.sign hplain hc.letters []
    simpa [around?] using h
  rw [hread]
  rcases hfront with ⟨rfl, rfl⟩ | ⟨-, rfl | rfl⟩
  · have hone : decimal? ['1'] = some ((1 : ℕ) : ℚ) := decimal?_digits (by decide)
    rw [show ("1" : Text) = ['1'] from rfl, hone, Option.some.injEq] at hvalue
    rw [← hvalue, Nat.cast_one]
    exact Or.inl rfl
  · have hne : front ≠ [] := by
      rintro rfl
      simp [decimal?, toNat?] at hvalue
    rw [multiplier?_decimal hne hchars, hvalue]
    exact Or.inl rfl
  · rcases toDecimal?_cons_zero hdecimal with ⟨rfl, hzero⟩ | ⟨hne, hbare⟩
    · exact Or.inr ⟨hzero, by simp⟩
    · rw [multiplier?_decimal hne hchars, hbare]
      exact Or.inl rfl

end

theorem ofDigits?_value {n d : Text} {p q : ℕ} (hn : toNat? n = some p) (hp : p < 2 ^ 128)
    (hd : toNat? d = some q) (hq : q < 2 ^ 128) (hne : q ≠ 0) :
    ∃ r, Ratio.ofDigits? n d = some r ∧ ratioValue r = p / q ∧ (p = 0 → r = ⟨0, 1⟩) := by
  have hmake : Ratio.make? p q = some ⟨p / Nat.gcd p q, q / Nat.gcd p q⟩ := if_neg hne
  have hbounded : ∀ {k : ℕ}, k < 2 ^ 128 → bounded k = some k := fun hk => if_pos hk
  refine ⟨_, ?_, (make?_value hmake).2, ?_⟩
  · simp only [Ratio.ofDigits?, boundedNumber?_of_toNat? hn, boundedNumber?_of_toNat? hd,
      Option.bind_some, hbounded hp, hbounded hq, bind, hmake]
  · rintro rfl
    rw [Nat.gcd_zero_left, Nat.zero_div, Nat.div_self (Nat.pos_of_ne_zero hne)]

/-- Two numbers have a fraction only if both fit and the second is not zero. -/
theorem fits_of_ofDigits? {n d : Text} {p q : ℕ} {r : Ratio} (hn : toNat? n = some p)
    (hd : toNat? d = some q) (h : Ratio.ofDigits? n d = some r) :
    p < 2 ^ 128 ∧ q < 2 ^ 128 ∧ q ≠ 0 := by
  simp only [Ratio.ofDigits?, boundedNumber?_of_toNat? hn, boundedNumber?_of_toNat? hd, bind,
    Option.bind_eq_some_iff, bounded, Option.ite_none_right_eq_some, Option.some.injEq] at h
  obtain ⟨_, ⟨hp, rfl⟩, _, ⟨hq, rfl⟩, hmake⟩ := h
  exact ⟨hp, hq, (make?_value hmake).1⟩

theorem plus_not_mem_of_isDigits {t : Text} (h : isDigits t = true) : '+' ∉ t := fun hmem =>
  absurd ((isDigits_iff.1 h).2 '+' hmem) (by decide)

theorem ratioValue_ofDigits? {n d : Text} {r : Ratio} (hn : isDigits n = true)
    (hd : isDigits d = true) (h : Ratio.ofDigits? n d = some r) :
    ratioValue r = digitsValue n / digitsValue d := by
  have hread : ∀ {t : Text} {k : ℕ}, isDigits t = true → boundedNumber? t = some k →
      k = digitsValue t := by
    intro t k ht hk
    rw [boundedNumber?, withoutPlus_eq_self (plus_not_mem_of_isDigits ht)] at hk
    obtain ⟨m, hm, hbounded⟩ := Option.bind_eq_some_iff.1 hk
    rw [bounded_eq_some hbounded, (toNat?_eq_some.1 hm).2.2]
  simp only [Ratio.ofDigits?, bind, Option.bind_eq_some_iff] at h
  obtain ⟨p, hp, q, hq, hmake⟩ := h
  rw [(make?_value hmake).2, hread hn hp, hread hd hq]

theorem toDecimal?_zero : Ratio.toDecimal? ⟨0, 1⟩ = some ['0'] := by
  have hfactor : ∀ k, Ratio.withoutFactor k 1 = (1, 0) := fun k => by
    rw [Ratio.withoutFactor, if_neg]
    rintro ⟨hk, -, hmod⟩
    rw [Nat.mod_eq_of_lt hk] at hmod
    contradiction
  simp only [Ratio.toDecimal?, hfactor]
  rfl

/-- Letters alone are taken once. -/
theorem coefficientOf?_letters {sign letters : Text} (hsign : IsSign sign)
    (hletters : isLetters letters = true) :
    coefficientOf? letters (sign ++ letters) = some (signed sign 1) := by
  have hnil : ∀ d ∈ ([] : Text), isPlainLetter d = false ∧ d ≠ '-' := by simp
  have h := coefficientOf?_append hsign hnil hletters []
  simpa [around?, multiplier?] using h

/-- The decimal of zero loses its only digit, so the letters alone are in the class. -/
theorem letters_mem_expand {c : Coefficient} (hc : WellFormed c)
    (hr : Ratio.ofDigits? c.numerator c.denominator = some ⟨0, 1⟩) (hpi : c.letters ≠ "pi")
    {t : Text} (ht : t ∈ c.fractionForms) : c.sign ++ c.letters ∈ expand t := by
  have hform : c.sign ++ c.letters ∈ c.decimalForms ['0'] :=
    mem_decimalForms.2 ⟨[], by simp, Or.inr ⟨by decide, Or.inr rfl⟩⟩
  exact (mem_expand_coefficient hc hr hpi ht).2
    (mem_spellings.2 (Or.inr ⟨['0'], toDecimal?_zero, hform⟩))

/-- The class of a fraction times letters keeps the value of the fraction if it is not zero;
the letters alone are what is wrong in the class of zero. -/
theorem coefficient_kept_iff (sign n d letters form : Text) (p q : ℕ) (hsign : IsSign sign)
    (hn : toNat? n = some p) (hp : p < 2 ^ 128) (hd : toNat? d = some q) (hq : q < 2 ^ 128)
    (hne : q ≠ 0) (hletters : isLetters letters = true) (hpi : letters ≠ "pi")
    (hform : form = sign ++ '(' :: n ++ '/' :: d ++ ')' :: letters ∨
      form = sign ++ n ++ '/' :: d ++ letters ∨ form = sign ++ n ++ letters ++ '/' :: d) :
    ((∀ m ∈ expand form, coefficientOf? letters m = some (signed sign (p / q))) ↔ p ≠ 0) ∧
      ∀ m ∈ expand form, m ≠ sign ++ letters →
        coefficientOf? letters m = some (signed sign (p / q)) := by
  obtain ⟨r, hr, hvalue, hzero⟩ := ofDigits?_value hn hp hd hq hne
  let c : Coefficient := ⟨sign, n, d, letters⟩
  have hc : WellFormed c := ⟨hsign, isDigits_of_toNat? hn, isDigits_of_toNat? hd, hletters⟩
  have hform : form ∈ c.fractionForms :=
    mem_fractionForms.2 (hform.imp_right (Or.imp_right Or.inl))
  have hread : ∀ m ∈ expand form, coefficientOf? letters m = some (signed sign (p / q)) ∨
      p = 0 ∧ m = sign ++ letters := by
    intro m hm
    rcases mem_spellings.1 ((mem_expand_coefficient hc hr hpi hform).1 hm) with
      hm | ⟨decimal, hdecimal, hm⟩
    · exact Or.inl (coefficientOf?_fractionForm hc hn hd hne hm)
    · rw [← hvalue]
      refine (coefficientOf?_decimalForm hc hdecimal hm).imp id fun ⟨hr0, hm⟩ => ⟨?_, hm⟩
      rw [hvalue, div_eq_zero_iff] at hr0
      rcases hr0 with hr0 | hr0
      · exact_mod_cast hr0
      · exact absurd hr0 (Nat.cast_ne_zero.2 hne)
  refine ⟨⟨fun hall hp0 => ?_, fun hp0 m hm => ?_⟩, fun m hm hmne => ?_⟩
  · have hbare : sign ++ letters ∈ expand form :=
      letters_mem_expand hc (hr.trans (congrArg some (hzero hp0))) hpi hform
    have hvalues := hall _ hbare
    rw [coefficientOf?_letters hsign hletters, hp0, Option.some.injEq] at hvalues
    rcases hsign with rfl | rfl
    · simp [signed] at hvalues
    · simp [signed] at hvalues
  · exact (hread m hm).resolve_right fun h => hp0 h.1
  · exact (hread m hm).resolve_right fun h => hmne h.2

theorem coefficient_kept_three_fourths :
    toNat? "3" = some 3 ∧ toNat? "4" = some 4 ∧
      ∀ m ∈ expand "3/4x", coefficientOf? "x" m = some (signed [] ((3 : ℕ) / (4 : ℕ))) :=
  ⟨by decide, by decide, (coefficient_kept_iff [] "3" "4" "x" "3/4x" 3 4 (Or.inl rfl) (by decide)
    (by decide) (by decide) (by decide) (by decide) (by decide) (by decide)
    (Or.inr (Or.inl rfl))).1.2 (by decide)⟩

/-- The letters alone are in the class of zero times them. -/
theorem coefficient_lost_zero :
    ¬ ∀ m ∈ expand "0/5x", coefficientOf? "x" m = some (signed [] ((0 : ℕ) / (5 : ℕ))) := by
  intro hall
  have hc : WellFormed ⟨[], "0", "5", "x"⟩ :=
    ⟨Or.inl rfl, by decide, by decide, by decide⟩
  obtain ⟨r, hr, -, hzero⟩ := ofDigits?_value (n := "0") (d := "5") (p := 0) (q := 5) (by decide)
    (by decide) (by decide) (by decide) (by decide)
  rw [hzero rfl] at hr
  have hmem : ("x" : Text) ∈ expand "0/5x" :=
    letters_mem_expand hc hr (by decide) (by simp [Coefficient.fractionForms])
  have hvalue : coefficientOf? "x" ([] ++ ("x" : Text)) = some (signed [] 1) :=
    coefficientOf?_letters (Or.inl rfl) (by decide)
  have hboth := (hall _ hmem).symm.trans hvalue
  simp [signed] at hboth

end AssessmentItems.CoefficientValues
