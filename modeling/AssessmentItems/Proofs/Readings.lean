import AssessmentItems.AnswerRules
import AssessmentItems.Proofs.TextClasses
import Mathlib.Tactic.Tauto

/-!
What the rules on numbers read. A text is read as signs, runs of digits and letters, and
the marks between them; each reading is described by the pieces it puts together, and
pieces of the right form are read back. A rule on numbers has nothing to say of a text
with any other character.
-/
namespace AssessmentItems.Readings

open Text AnswerRules TextClasses

def IsSign (s : Text) : Prop := s = [] ∨ s = ['-']

theorem splitSign_spec (t : Text) :
    IsSign (splitSign t).1 ∧ t = (splitSign t).1 ++ (splitSign t).2 := by
  rw [splitSign.eq_def]
  split
  · exact ⟨Or.inr rfl, rfl⟩
  · exact ⟨Or.inl rfl, rfl⟩

theorem splitSign_append {sign : Text} (hsign : IsSign sign) {body : Text}
    (hbody : ∀ c ∈ body.head?, c ≠ '-') : splitSign (sign ++ body) = (sign, body) := by
  rcases hsign with rfl | rfl
  · rw [List.nil_append, splitSign.eq_def]
    split
    · exact absurd rfl (hbody _ rfl)
    · rfl
  · rfl

theorem sign_unique {sign sign' body body' : Text} (hsign : IsSign sign) (hsign' : IsSign sign')
    (hbody : ∀ c ∈ body.head?, c ≠ '-') (hbody' : ∀ c ∈ body'.head?, c ≠ '-')
    (h : sign ++ body = sign' ++ body') : sign = sign' ∧ body = body' := by
  have hsplit := congrArg splitSign h
  rw [splitSign_append hsign hbody, splitSign_append hsign' hbody'] at hsplit
  exact Prod.mk.inj hsplit

theorem isDigits_iff {t : Text} : isDigits t = true ↔ t ≠ [] ∧ ∀ c ∈ t, isDigit c = true := by
  simp [isDigits]

theorem isLetters_iff {t : Text} :
    isLetters t = true ↔ t ≠ [] ∧ ∀ c ∈ t, isPlainLetter c = true := by
  simp [isLetters]

theorem mem_of_mem_head?_append {c : Char} {front rest : Text} (hne : front ≠ [])
    (h : c ∈ (front ++ rest).head?) : c ∈ front := by
  rw [List.head?_append_of_ne_nil _ hne] at h
  exact List.mem_of_mem_head? h

/-- A run of characters of a class, and a rest that does not go on with it. -/
theorem takeWhile_run {p : Char → Bool} {run rest : Text} (hrun : ∀ c ∈ run, p c = true)
    (hrest : ∀ c ∈ rest.head?, p c = false) : (run ++ rest).takeWhile p = run := by
  rw [List.takeWhile_append_of_pos hrun]
  cases rest with
  | nil => simp
  | cons c rest => simp [hrest c rfl]

theorem dropWhile_run {p : Char → Bool} {run rest : Text} (hrun : ∀ c ∈ run, p c = true)
    (hrest : ∀ c ∈ rest.head?, p c = false) : (run ++ rest).dropWhile p = rest := by
  rw [List.dropWhile_append_of_pos hrun]
  cases rest with
  | nil => rfl
  | cons c rest => simp [hrest c rfl]

theorem head?_dropWhile_false {p : Char → Bool} {t : Text} :
    ∀ c ∈ (t.dropWhile p).head?, p c = false := by
  intro c hc
  have := List.head?_dropWhile_not p t
  rw [hc] at this
  simpa using this

/-- What is left of a text from the first `d` on begins with it. -/
theorem eq_of_dropWhile_ne {c d : Char} {t rest : Text} (h : t.dropWhile (· ≠ d) = c :: rest) :
    c = d := by
  have hhead := head?_dropWhile_false (p := (· ≠ d)) (t := t) c
  rw [h] at hhead
  simpa using hhead rfl

theorem splitDigits_spec (t : Text) :
    t = (splitDigits t).1 ++ (splitDigits t).2 ∧ (∀ c ∈ (splitDigits t).1, isDigit c = true) ∧
      ∀ c ∈ (splitDigits t).2.head?, isDigit c = false :=
  ⟨List.takeWhile_append_dropWhile.symm, fun _ hc => List.mem_takeWhile_imp hc,
    head?_dropWhile_false⟩

theorem splitDigits_append {digits rest : Text} (hdigits : ∀ c ∈ digits, isDigit c = true)
    (hrest : ∀ c ∈ rest.head?, isDigit c = false) :
    splitDigits (digits ++ rest) = (digits, rest) := by
  rw [splitDigits, takeWhile_run hdigits hrest, dropWhile_run hdigits hrest]

theorem not_isDigit_head_letters {letters : Text} (h : isLetters letters = true) (rest : Text) :
    ∀ c ∈ (letters ++ rest).head?, isDigit c = false := by
  obtain ⟨hne, hall⟩ := isLetters_iff.1 h
  exact fun c hc => isDigit_of_isPlainLetter (hall c (mem_of_mem_head?_append hne hc))

/-- A digit or a letter is neither a mark nor white space. -/
theorem ne_of_isDigit {c d : Char} (h : isDigit c = true) (hd : isDigit d = false) : c ≠ d := by
  rintro rfl
  simp [h] at hd

theorem ne_of_isPlainLetter {c d : Char} (h : isPlainLetter c = true)
    (hd : isPlainLetter d = false) : c ≠ d := by
  rintro rfl
  simp [h] at hd

theorem splitFraction?_eq_some {t numerator denominator rest : Text} :
    splitFraction? t = some (numerator, denominator, rest) ↔
      isDigits numerator = true ∧ isDigits denominator = true ∧
        (∀ c ∈ rest.head?, isDigit c = false) ∧
        t = numerator ++ '/' :: (denominator ++ rest) := by
  constructor
  · intro h
    simp only [splitFraction?] at h
    split at h
    · next afterSlash hslash =>
      split_ifs at h with hne
      obtain ⟨ht, hdigits, -⟩ := splitDigits_spec t
      obtain ⟨hd, hdigits', hrest⟩ := splitDigits_spec afterSlash
      cases h
      refine ⟨isDigits_iff.2 ⟨hne.1, hdigits⟩, isDigits_iff.2 ⟨hne.2, hdigits'⟩, hrest, ?_⟩
      rw [← hd, ← hslash]
      exact ht
    · simp at h
  · rintro ⟨hn, hd, hrest, rfl⟩
    obtain ⟨hn, hndigits⟩ := isDigits_iff.1 hn
    obtain ⟨hd, hddigits⟩ := isDigits_iff.1 hd
    have hslash : ∀ c ∈ ('/' :: (denominator ++ rest)).head?, isDigit c = false := by
      intro c hc
      cases hc
      decide
    simp only [splitFraction?, splitDigits_append hndigits hslash,
      splitDigits_append hddigits hrest]
    simp [hn, hd]

/-- The rule on leading zeros relates a decimal below one with and without its zero. -/
theorem mem_leadingZero {m value : Text} :
    m ∈ leadingZero value ↔ ∃ sign digits, IsSign sign ∧ isDigits digits = true ∧
      ((trim value = sign ++ '0' :: '.' :: digits ∧ m = sign ++ '.' :: digits) ∨
        (trim value = sign ++ '.' :: digits ∧ m = sign ++ '0' :: '.' :: digits)) := by
  constructor
  · intro h
    simp only [leadingZero] at h
    obtain ⟨hsign, ht⟩ := splitSign_spec (trim value)
    split at h
    · next digits hbody =>
      split_ifs at h with hdigits
      · rw [List.mem_singleton] at h
        exact ⟨_, digits, hsign, hdigits, Or.inl ⟨hbody ▸ ht, h⟩⟩
      · simp at h
    · next digits hbody =>
      split_ifs at h with hdigits
      · rw [List.mem_singleton] at h
        exact ⟨_, digits, hsign, hdigits, Or.inr ⟨hbody ▸ ht, h⟩⟩
      · simp at h
    · simp at h
  · rintro ⟨sign, digits, hsign, hdigits, ⟨ht, rfl⟩ | ⟨ht, rfl⟩⟩
    · have hsplit : splitSign (sign ++ '0' :: '.' :: digits) = (sign, '0' :: '.' :: digits) :=
        splitSign_append hsign (by simp)
      simp [leadingZero, ht, hsplit, hdigits]
    · have hsplit : splitSign (sign ++ '.' :: digits) = (sign, '.' :: digits) :=
        splitSign_append hsign (by simp)
      simp [leadingZero, ht, hsplit, hdigits]

theorem length_leadingZero_le (value : Text) : (leadingZero value).length ≤ 1 := by
  simp only [leadingZero]
  split
  · split_ifs <;> simp
  · split_ifs <;> simp
  · simp

/-- The rule on fractions writes a fraction as the decimal of its value. -/
theorem mem_fractionDecimal {m value : Text} :
    m ∈ fractionDecimal value ↔ ∃ sign numerator denominator ratio decimal,
      IsSign sign ∧ isDigits numerator = true ∧ isDigits denominator = true ∧
        trim value = sign ++ numerator ++ '/' :: denominator ∧
        Ratio.ofDigits? numerator denominator = some ratio ∧
        ratio.toDecimal? = some decimal ∧ m = sign ++ decimal := by
  constructor
  · intro h
    simp only [fractionDecimal] at h
    obtain ⟨hsign, ht⟩ := splitSign_spec (trim value)
    split at h
    · next numerator denominator hfraction =>
      obtain ⟨hn, hd, -, hbody⟩ := splitFraction?_eq_some.1 hfraction
      split at h
      · next decimal hdecimal =>
        obtain ⟨ratio, hratio, hdec⟩ := Option.bind_eq_some_iff.1 hdecimal
        rw [List.mem_singleton] at h
        refine ⟨_, numerator, denominator, ratio, decimal, hsign, hn, hd, ?_, hratio, hdec, h⟩
        rw [hbody, List.append_nil] at ht
        rw [List.append_assoc, ← ht]
      · simp at h
    · simp at h
  · rintro ⟨sign, numerator, denominator, ratio, decimal, hsign, hn, hd, ht, hratio, hdec, rfl⟩
    have hfraction : splitFraction? (numerator ++ '/' :: denominator) =
        some (numerator, denominator, []) :=
      splitFraction?_eq_some.2 ⟨hn, hd, by simp, by simp⟩
    have hhead : ∀ c ∈ (numerator ++ '/' :: denominator).head?, c ≠ '-' := by
      obtain ⟨hne, hdigits⟩ := isDigits_iff.1 hn
      exact fun c hc =>
        ne_of_isDigit (hdigits c (mem_of_mem_head?_append hne hc)) (by decide)
    rw [List.append_assoc] at ht
    simp [fractionDecimal, ht, splitSign_append hsign hhead, hfraction, hratio, hdec]

theorem length_fractionDecimal_le (value : Text) : (fractionDecimal value).length ≤ 1 := by
  simp only [fractionDecimal]
  split
  · split <;> simp
  · simp

structure WellFormed (c : Coefficient) : Prop where
  sign : IsSign c.sign
  numerator : isDigits c.numerator = true
  denominator : isDigits c.denominator = true
  letters : isLetters c.letters = true

theorem mem_fractionForms {c : Coefficient} {t : Text} :
    t ∈ c.fractionForms ↔
      t = c.sign ++ '(' :: c.numerator ++ '/' :: c.denominator ++ ')' :: c.letters ∨
        t = c.sign ++ c.numerator ++ '/' :: c.denominator ++ c.letters ∨
          t = c.sign ++ c.numerator ++ c.letters ++ '/' :: c.denominator ∨
            c.numerator = ['1'] ∧ t = c.sign ++ c.letters ++ '/' :: c.denominator := by
  rw [Coefficient.fractionForms, List.mem_append, List.mem_ite_nil_right]
  simp only [List.mem_cons, List.not_mem_nil, or_false, or_assoc]

theorem coefficient?_sound {t : Text} {c : Coefficient} (h : coefficient? t = some c) :
    WellFormed c ∧ t ∈ c.fractionForms := by
  obtain ⟨hsign, ht⟩ := splitSign_spec t
  simp only [coefficient?] at h
  split at h
  · next inner fraction hbody =>
    split at h
    · next numerator denominator letters hinner =>
      split_ifs at h with hletters
      obtain ⟨hn, hd, -, hinner⟩ := splitFraction?_eq_some.1 hinner
      cases h
      refine ⟨⟨hsign, hn, hd, hletters⟩, ?_⟩
      rw [hbody, hinner] at ht
      simp [Coefficient.fractionForms, ← ht]
    · simp at h
  · next numerator denominator letters hfraction hparen =>
    split_ifs at h with hletters
    obtain ⟨hn, hd, -, hbody⟩ := splitFraction?_eq_some.1 hfraction
    cases h
    refine ⟨⟨hsign, hn, hd, hletters⟩, ?_⟩
    rw [hbody] at ht
    simp [Coefficient.fractionForms, ← ht]
  · obtain ⟨hbody, hdigits, -⟩ := splitDigits_spec (splitSign t).2
    have hsplit := List.takeWhile_append_dropWhile (p := isPlainLetter)
      (l := (splitDigits (splitSign t).2).2)
    split at h
    · next letters denominator hslash =>
      rw [hslash] at hsplit
      rw [← hsplit] at hbody
      rw [hbody] at ht
      split_ifs at h with hform hnil
      · cases h
        refine ⟨⟨hsign, (by decide : isDigits ['1'] = true), hform.2, hform.1⟩, ?_⟩
        rw [hnil, List.nil_append] at ht
        simp [Coefficient.fractionForms, ← ht]
      · cases h
        refine ⟨⟨hsign, isDigits_iff.2 ⟨hnil, hdigits⟩, hform.2, hform.1⟩, ?_⟩
        simp [Coefficient.fractionForms, ← ht]
    · simp at h

theorem splitFraction?_eq_none {digits letters rest : Text}
    (hdigits : ∀ c ∈ digits, isDigit c = true) (hletters : isLetters letters = true) :
    splitFraction? (digits ++ (letters ++ rest)) = none := by
  have hrest := not_isDigit_head_letters hletters rest
  obtain ⟨hne, hall⟩ := isLetters_iff.1 hletters
  simp only [splitFraction?, splitDigits_append hdigits hrest]
  split
  · next afterSlash hslash =>
    have hhead : '/' ∈ (letters ++ rest).head? := by
      rw [hslash]
      rfl
    exact absurd (hall _ (mem_of_mem_head?_append hne hhead)) (by decide)
  · rfl

def Unmarked (t : Text) : Prop := ∀ c ∈ t.head?, c ≠ '-' ∧ c ≠ '('

theorem unmarked_digits {digits rest : Text} (h : isDigits digits = true) :
    Unmarked (digits ++ rest) := by
  obtain ⟨hne, hall⟩ := isDigits_iff.1 h
  intro c hc
  have hdigit := hall c (mem_of_mem_head?_append hne hc)
  exact ⟨ne_of_isDigit hdigit (by decide), ne_of_isDigit hdigit (by decide)⟩

theorem unmarked_letters {letters rest : Text} (h : isLetters letters = true) :
    Unmarked (letters ++ rest) := by
  obtain ⟨hne, hall⟩ := isLetters_iff.1 h
  intro c hc
  have hletter := hall c (mem_of_mem_head?_append hne hc)
  exact ⟨ne_of_isPlainLetter hletter (by decide), ne_of_isPlainLetter hletter (by decide)⟩

theorem coefficient?_of_fraction {sign body numerator denominator letters : Text}
    (hsign : IsSign sign) (hbody : Unmarked body)
    (hfraction : splitFraction? body = some (numerator, denominator, letters))
    (hletters : isLetters letters = true) :
    coefficient? (sign ++ body) = some ⟨sign, numerator, denominator, letters⟩ := by
  simp only [coefficient?, splitSign_append hsign fun c hc => (hbody c hc).1, hfraction]
  split
  · exact absurd rfl (hbody '(' rfl).2
  · next _ heq =>
    cases heq
    simp [hletters]
  · next _ heq => simp at heq

theorem coefficient?_of_letters {sign body digits denominator letters : Text}
    (hsign : IsSign sign) (hbody : Unmarked body) (hfraction : splitFraction? body = none)
    (hdigits : splitDigits body = (digits, letters ++ '/' :: denominator))
    (hletters : isLetters letters = true) (hd : isDigits denominator = true) :
    coefficient? (sign ++ body) =
      some ⟨sign, if digits = [] then ['1'] else digits, denominator, letters⟩ := by
  have hall := (isLetters_iff.1 hletters).2
  have hslash : ∀ c ∈ ('/' :: denominator).head?, isPlainLetter c = false := by
    rintro _ ⟨⟩
    decide
  simp only [coefficient?, splitSign_append hsign fun c hc => (hbody c hc).1, hfraction, hdigits,
    takeWhile_run hall hslash, dropWhile_run hall hslash]
  split
  · exact absurd rfl (hbody '(' rfl).2
  · next _ heq => simp at heq
  · simp [hletters, hd]

theorem coefficient?_complete {t : Text} {c : Coefficient} (hc : WellFormed c)
    (ht : t ∈ c.fractionForms) : coefficient? t = some c := by
  obtain ⟨sign, numerator, denominator, letters⟩ := c
  obtain ⟨hsign, hn, hd, hletters⟩ : IsSign sign ∧ isDigits numerator = true ∧
    isDigits denominator = true ∧ isLetters letters = true := ⟨hc.1, hc.2, hc.3, hc.4⟩
  obtain ⟨hnne, hndigits⟩ := isDigits_iff.1 hn
  have hhead := not_isDigit_head_letters hletters ('/' :: denominator)
  rcases mem_fractionForms.1 ht with rfl | rfl | rfl | ⟨hone, rfl⟩
  · have hfraction : splitFraction? (numerator ++ '/' :: (denominator ++ ')' :: letters)) =
        some (numerator, denominator, ')' :: letters) :=
      splitFraction?_eq_some.2 ⟨hn, hd, by rintro _ ⟨⟩; decide, rfl⟩
    simp only [List.append_assoc, List.cons_append] at *
    have hsplit : ∀ rest, splitSign (sign ++ '(' :: rest) = (sign, '(' :: rest) := fun rest =>
      splitSign_append hsign (by simp)
    simp only [coefficient?, hsplit, hfraction, hletters, if_true]
  · have hfraction : splitFraction? (numerator ++ '/' :: (denominator ++ letters)) =
        some (numerator, denominator, letters) := by
      have hletter := not_isDigit_head_letters hletters []
      rw [List.append_nil] at hletter
      exact splitFraction?_eq_some.2 ⟨hn, hd, hletter, rfl⟩
    rw [List.append_assoc, List.append_assoc, List.cons_append]
    exact coefficient?_of_fraction hsign (unmarked_digits hn) hfraction hletters
  · rw [List.append_assoc, List.append_assoc, coefficient?_of_letters hsign (unmarked_digits hn)
      (splitFraction?_eq_none hndigits hletters) (splitDigits_append hndigits hhead) hletters hd,
      if_neg hnne]
  · have hnil : ∀ c ∈ ([] : Text), isDigit c = true := by simp
    have hfraction : splitFraction? ([] ++ (letters ++ '/' :: denominator)) = none :=
      splitFraction?_eq_none hnil hletters
    have hdigits : splitDigits ([] ++ (letters ++ '/' :: denominator)) =
        ([], letters ++ '/' :: denominator) := splitDigits_append hnil hhead
    subst hone
    rw [List.append_assoc, coefficient?_of_letters hsign (unmarked_letters hletters) hfraction
      hdigits hletters hd, if_pos rfl]

/-- A text is read as a coefficient if it is one of the coefficient's spellings with a
fraction. -/
theorem coefficient?_eq_some {t : Text} {c : Coefficient} :
    coefficient? t = some c ↔ WellFormed c ∧ t ∈ c.fractionForms :=
  ⟨coefficient?_sound, fun h => coefficient?_complete h.1 h.2⟩

/-- The rule on coefficients gives the spellings with a fraction, and those with a decimal
if the value has one. -/
theorem mem_fractionalCoefficient {m value : Text} :
    m ∈ fractionalCoefficient value ↔ ∃ c ratio, coefficient? (trim value) = some c ∧
      Ratio.ofDigits? c.numerator c.denominator = some ratio ∧ (m ∈ c.fractionForms ∨
        ∃ decimal, ratio.toDecimal? = some decimal ∧ m ∈ c.decimalForms decimal) := by
  constructor
  · intro h
    simp only [fractionalCoefficient] at h
    split at h
    · simp at h
    · next c hc =>
      split at h
      · simp at h
      · next ratio hratio =>
        refine ⟨c, ratio, hc, hratio, ?_⟩
        rcases List.mem_append.1 h with h | h
        · exact Or.inl h
        · split at h
          · next decimal hdecimal => exact Or.inr ⟨decimal, hdecimal, h⟩
          · simp at h
  · rintro ⟨c, ratio, hc, hratio, h⟩
    simp only [fractionalCoefficient, hc, hratio]
    rcases h with h | ⟨decimal, hdecimal, h⟩
    · exact List.mem_append_left _ h
    · simp [hdecimal, h]

end AssessmentItems.Readings
