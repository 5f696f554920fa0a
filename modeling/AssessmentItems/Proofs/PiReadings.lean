import AssessmentItems.Proofs.Readings

/-!
What the rule on π reads. A term in π has a sign, a symbol, a coefficient on one side of it
and a divisor, with white space around its star and its slash; the rule reads the terms that
are written in this way and no others. Around the symbol are digits, marks and white space
and no letter, so a text is a term in one way at most.
-/
namespace AssessmentItems.PiReadings

open Text AnswerRules TextClasses Readings

def IsSymbol (s : Text) : Prop := s = ['π'] ∨ s = ['p', 'i']

def isSide (c : Char) : Bool := isDigit c || isSpace c || c ∈ ['-', '.', '*', '/']

theorem isSide_of_isDigit {c : Char} (h : isDigit c = true) : isSide c = true := by
  simp [isSide, h]

theorem isSide_of_isSpace {c : Char} (h : isSpace c = true) : isSide c = true := by
  simp [isSide, h]

inductive IsDecimal : (t whole fraction : Text) → Prop
  | digits {whole : Text} (hwhole : isDigits whole = true) : IsDecimal whole whole []
  | point {whole fraction : Text} (hwhole : ∀ c ∈ whole, isDigit c = true)
      (hfraction : isDigits fraction = true) : IsDecimal (whole ++ '.' :: fraction) whole fraction

theorem IsDecimal.chars {t whole fraction : Text} (h : IsDecimal t whole fraction) :
    ∀ c ∈ t, isDigit c = true ∨ c = '.' := by
  cases h with
  | digits hwhole => exact fun c hc => Or.inl ((isDigits_iff.1 hwhole).2 c hc)
  | point hwhole hfraction =>
    simp only [List.forall_mem_append, List.forall_mem_cons]
    exact ⟨fun c hc => Or.inl (hwhole c hc), Or.inr trivial,
      fun c hc => Or.inl ((isDigits_iff.1 hfraction).2 c hc)⟩

theorem IsDecimal.digits_mem {t whole fraction : Text} (h : IsDecimal t whole fraction) :
    ∀ c ∈ whole ++ fraction, isDigit c = true := by
  rw [List.forall_mem_append]
  cases h with
  | digits hwhole => exact ⟨(isDigits_iff.1 hwhole).2, List.forall_mem_nil _⟩
  | point hwhole hfraction => exact ⟨hwhole, (isDigits_iff.1 hfraction).2⟩

theorem IsDecimal.ne_nil {t whole fraction : Text} (h : IsDecimal t whole fraction) : t ≠ [] := by
  cases h with
  | digits hwhole => exact (isDigits_iff.1 hwhole).1
  | point => simp

theorem splitDecimal?_sound {t whole fraction rest : Text}
    (h : splitDecimal? t = some (whole, fraction, rest)) :
    ∃ k, IsDecimal k whole fraction ∧ t = k ++ rest := by
  obtain ⟨ht, hdigits, -⟩ := splitDigits_spec t
  simp only [splitDecimal?] at h
  split at h
  · next afterPoint hpoint =>
    obtain ⟨hafter, hdigits', -⟩ := splitDigits_spec afterPoint
    split_ifs at h with hfraction hne
    · cases h
      refine ⟨_, .point hdigits (isDigits_iff.2 ⟨hfraction, hdigits'⟩), ?_⟩
      rw [hpoint] at ht
      rw [List.append_assoc, List.cons_append, ← hafter]
      exact ht
    · cases h
      exact ⟨_, .digits (isDigits_iff.2 ⟨hne, hdigits⟩), ht⟩
  · split_ifs at h with hne
    cases h
    exact ⟨_, .digits (isDigits_iff.2 ⟨hne, hdigits⟩), ht⟩

def EndsDecimal (rest : Text) : Prop := ∀ c ∈ rest.head?, isDigit c = false ∧ c ≠ '.'

theorem splitDecimal?_complete {k whole fraction rest : Text} (h : IsDecimal k whole fraction)
    (hrest : EndsDecimal rest) : splitDecimal? (k ++ rest) = some (whole, fraction, rest) := by
  have hdigit : ∀ c ∈ rest.head?, isDigit c = false := fun c hc => (hrest c hc).1
  cases h with
  | digits hwhole =>
    obtain ⟨hne, hall⟩ := isDigits_iff.1 hwhole
    simp only [splitDecimal?, splitDigits_append hall hdigit]
    split
    · exact absurd rfl (hrest '.' rfl).2
    · rw [if_pos hne]
  | point hwhole hfraction =>
    obtain ⟨hne, hall⟩ := isDigits_iff.1 hfraction
    have hpoint : ∀ c ∈ ('.' :: (fraction ++ rest)).head?, isDigit c = false := by
      rintro _ ⟨⟩
      decide
    rw [List.append_assoc, List.cons_append]
    simp only [splitDecimal?, splitDigits_append hwhole hpoint, splitDigits_append hall hdigit]
    rw [if_pos hne]

theorem splitDecimal?_eq_none {t : Text} (h : EndsDecimal t) : splitDecimal? t = none := by
  have hdigits : splitDigits ([] ++ t) = ([], t) :=
    splitDigits_append (by simp) fun c hc => (h c hc).1
  rw [List.nil_append] at hdigits
  simp only [splitDecimal?, hdigits]
  split
  · exact absurd rfl (h '.' rfl).2
  · simp

/-- Beside white space, the text is one character. -/
theorem exists_of_compact {t : Text} {c : Char} (h : compact t = [c]) :
    ∃ gap gap', (∀ d ∈ gap, isSpace d = true) ∧ (∀ d ∈ gap', isSpace d = true) ∧
      t = gap ++ c :: gap' := by
  obtain ⟨gap, hgap, ht⟩ := exists_dropWhile t
  cases hrest : t.dropWhile isSpace with
  | nil => simp [← compact_dropWhile t, hrest] at h
  | cons d gap' =>
    rw [compact_of_dropWhile hrest, List.cons.injEq] at h
    obtain ⟨rfl, hgap'⟩ := h
    refine ⟨gap, gap', hgap, fun e he => ?_, hrest ▸ ht⟩
    by_contra hspace
    have hmem : e ∈ compact gap' := mem_compact.2 ⟨he, by simpa using hspace⟩
    simp [hgap'] at hmem

theorem compact_around {gap gap' : Text} {c : Char} (hgap : ∀ d ∈ gap, isSpace d = true)
    (hgap' : ∀ d ∈ gap', isSpace d = true) (hc : isSpace c = false) :
    compact (gap ++ c :: gap') = [c] := by
  rw [compact_append, compact_eq_nil hgap, compact_cons_of_not_isSpace hc, compact_eq_nil hgap']
  rfl

def Starts (t : Text) : Prop := ∀ c ∈ t.head?, isSpace c = false

theorem dropWhile_starts {gap t : Text} (hgap : ∀ c ∈ gap, isSpace c = true) (h : Starts t) :
    (gap ++ t).dropWhile isSpace = t := dropWhile_run hgap h

theorem afterSpaced?_sound {sign : Char} {t rest : Text} (hsign : isSpace sign = false)
    (h : afterSpaced? sign t = some rest) : ∃ gap, compact gap = [sign] ∧ t = gap ++ rest := by
  obtain ⟨gap, hgap, ht⟩ := exists_dropWhile t
  simp only [afterSpaced?] at h
  split at h
  · next c afterSign hdrop =>
    split_ifs at h with hc
    cases h
    obtain ⟨gap', hgap', hafter⟩ := exists_dropWhile afterSign
    refine ⟨gap ++ sign :: gap', compact_around hgap hgap' hsign, ?_⟩
    rw [List.append_assoc, List.cons_append, ← hafter, ← hc, ← hdrop]
    exact ht
  · simp at h

theorem afterSpaced?_complete {sign : Char} {gap rest : Text} (hsign : isSpace sign = false)
    (hgap : compact gap = [sign]) (hrest : Starts rest) :
    afterSpaced? sign (gap ++ rest) = some rest := by
  obtain ⟨before, behind, hbefore, hbehind, rfl⟩ := exists_of_compact hgap
  have hdrop : (before ++ sign :: behind ++ rest).dropWhile isSpace = sign :: (behind ++ rest) := by
    rw [List.append_assoc, List.cons_append]
    exact dropWhile_starts hbefore (by rintro _ ⟨⟩; exact hsign)
  simp only [afterSpaced?, hdrop, dropWhile_starts hbehind hrest, if_true]

/-- There is no such sign if only white space stands before another one. -/
theorem afterSpaced?_eq_none {sign : Char} {gap rest : Text} (hgap : ∀ c ∈ gap, isSpace c = true)
    (hrest : Starts rest) (hsign : ∀ c ∈ rest.head?, c ≠ sign) :
    afterSpaced? sign (gap ++ rest) = none := by
  simp only [afterSpaced?, dropWhile_starts hgap hrest]
  split
  · next c rest => rw [if_neg (hsign c rfl)]
  · rfl

theorem splitPi?_sound {t symbol after : Text} (h : splitPi? t = some (symbol, after)) :
    IsSymbol symbol ∧ t = symbol ++ after := by
  rw [splitPi?.eq_def] at h
  split at h
  · cases h
    exact ⟨Or.inl rfl, rfl⟩
  · cases h
    exact ⟨Or.inr rfl, rfl⟩
  · simp at h

theorem splitPi?_complete {symbol : Text} (h : IsSymbol symbol) (after : Text) :
    splitPi? (symbol ++ after) = some (symbol, after) := by
  rcases h with rfl | rfl <;> rfl

/-- The symbol begins with no space, digit or mark. -/
theorem head_of_isSymbol {symbol : Text} (h : IsSymbol symbol) (after : Text) :
    ∀ c ∈ (symbol ++ after).head?, isSpace c = false ∧ isDigit c = false ∧
      c ≠ '.' ∧ c ≠ '*' ∧ c ≠ '-' := by
  rcases h with rfl | rfl <;> rintro _ ⟨⟩ <;> decide

theorem frontOf_append (front rest : Text) : frontOf (front ++ rest) rest = front := by
  simp [frontOf]

/-- A coefficient; where none is written it is one. -/
inductive IsCoefficient : (t whole fraction : Text) → Prop
  | one : IsCoefficient [] ['1'] []
  | decimal {t whole fraction : Text} (h : IsDecimal t whole fraction) :
      IsCoefficient t whole fraction

inductive IsDivision : (t divisor : Text) → Prop
  | one : IsDivision [] ['1']
  | slash {gap divisor : Text} (hgap : compact gap = ['/']) (hdivisor : isDigits divisor = true) :
      IsDivision (gap ++ divisor) divisor

/-- The ways to write a term in π: with the coefficient before the symbol, where star and
divisor may be absent, or with a star and the coefficient behind it. -/
inductive Written : PiTerm → Prop
  | front {sign k gap symbol after whole fraction divisor : Text} (hsign : IsSign sign)
      (hk : IsCoefficient k whole fraction) (hgap : compact gap = [] ∨ compact gap = ['*'])
      (hsymbol : IsSymbol symbol) (hdivision : IsDivision after divisor) :
      Written ⟨sign, sign ++ k ++ gap, symbol, after, whole, fraction, divisor⟩
  | behind {sign symbol gap k whole fraction : Text} (hsign : IsSign sign)
      (hsymbol : IsSymbol symbol) (hgap : compact gap = ['*']) (hk : IsDecimal k whole fraction) :
      Written ⟨sign, sign, symbol, gap ++ k, whole, fraction, ['1']⟩

/-- The numbers of a term are made of digits. -/
theorem Written.digits_mem {p : PiTerm} (h : Written p) :
    (∀ c ∈ p.whole ++ p.fraction, isDigit c = true) ∧ ∀ c ∈ p.divisor, isDigit c = true := by
  have hone : ∀ c ∈ ['1'], isDigit c = true := by simp; decide
  cases h with
  | front _ hk _ _ hdivision =>
    constructor
    · cases hk with
      | one => exact hone
      | decimal hk => exact hk.digits_mem
    · cases hdivision with
      | one => exact hone
      | slash _ hdivisor => exact (isDigits_iff.1 hdivisor).2
  | behind _ _ _ hk => exact ⟨hk.digits_mem, hone⟩

/-- What is between the coefficient and the symbol, and the rest from the symbol on. -/
theorem exists_star (t : Text) :
    ∃ gap, (compact gap = [] ∨ compact gap = ['*']) ∧
      t = gap ++ (afterSpaced? '*' t).getD (t.dropWhile isSpace) := by
  cases h : afterSpaced? '*' t with
  | none =>
    obtain ⟨gap, hgap, ht⟩ := exists_dropWhile t
    exact ⟨gap, Or.inl (compact_eq_nil hgap), ht⟩
  | some rest =>
    obtain ⟨gap, hgap, ht⟩ := afterSpaced?_sound (by decide) h
    exact ⟨gap, Or.inr hgap, ht⟩

theorem star_complete {gap rest : Text} (hgap : compact gap = [] ∨ compact gap = ['*'])
    (hrest : Starts rest) (hstar : ∀ c ∈ rest.head?, c ≠ '*') :
    (afterSpaced? '*' (gap ++ rest)).getD ((gap ++ rest).dropWhile isSpace) = rest := by
  rcases hgap with hgap | hgap
  · have hspace : ∀ c ∈ gap, isSpace c = true := by
      by_contra hno
      simp only [not_forall, Bool.not_eq_true] at hno
      obtain ⟨c, hc, hc'⟩ := hno
      have hmem : c ∈ compact gap := mem_compact.2 ⟨hc, hc'⟩
      simp [hgap] at hmem
    rw [afterSpaced?_eq_none hspace hrest hstar, Option.getD_none, dropWhile_starts hspace hrest]
  · rw [afterSpaced?_complete (by decide) hgap hrest, Option.getD_some]

theorem exists_coefficient_front (body : Text) :
    ∃ k, IsCoefficient k ((splitDecimal? body).getD (['1'], [], body)).1
        ((splitDecimal? body).getD (['1'], [], body)).2.1 ∧
      body = k ++ ((splitDecimal? body).getD (['1'], [], body)).2.2 := by
  cases h : splitDecimal? body with
  | none => exact ⟨[], .one, rfl⟩
  | some d =>
    obtain ⟨k, hk, hbody⟩ := splitDecimal?_sound h
    exact ⟨k, .decimal hk, hbody⟩

theorem coefficient_complete {k whole fraction rest : Text} (hk : IsCoefficient k whole fraction)
    (hrest : EndsDecimal rest) :
    (splitDecimal? (k ++ rest)).getD (['1'], [], k ++ rest) = (whole, fraction, rest) := by
  cases hk with
  | one => rw [List.nil_append, splitDecimal?_eq_none hrest, Option.getD_none]
  | decimal hk => rw [splitDecimal?_complete hk hrest, Option.getD_some]

theorem piTerm?_sound {t : Text} {p : PiTerm} (h : piTerm? t = some p) :
    Written p ∧ t = p.before ++ p.symbol ++ p.after := by
  obtain ⟨hsign, ht⟩ := splitSign_spec t
  obtain ⟨k, hk, hbody⟩ := exists_coefficient_front (splitSign t).2
  simp only [piTerm?, bind, Option.bind_eq_some_iff] at h
  generalize (splitDecimal? (splitSign t).2).getD (['1'], [], (splitSign t).2) = d at h hk hbody
  obtain ⟨gap, hgap, hrest⟩ := exists_star d.2.2
  generalize (afterSpaced? '*' d.2.2).getD (d.2.2.dropWhile isSpace) = rest at h hrest
  obtain ⟨⟨symbol, after⟩, hpi, h⟩ := h
  obtain ⟨hsymbol, hsplit⟩ := splitPi?_sound hpi
  have hwhole : t = ((splitSign t).1 ++ k ++ gap) ++ rest := by
    rw [List.append_assoc, ← hrest, List.append_assoc, ← hbody]
    exact ht
  have hbefore : frontOf t rest = (splitSign t).1 ++ k ++ gap := by
    rw [hwhole, frontOf_append, ← hwhole]
  rw [hbefore] at h
  have htext : t = (splitSign t).1 ++ k ++ gap ++ symbol ++ after := by
    rw [List.append_assoc _ symbol, ← hsplit]
    exact hwhole
  split_ifs at h with hafter
  · cases h
    obtain rfl : after = [] := hafter
    exact ⟨.front hsign hk hgap hsymbol .one, htext⟩
  · obtain ⟨divisor, hdivisor, h⟩ := Option.bind_eq_some_iff.1 h
    split_ifs at h with hdigits
    · cases h
      obtain ⟨slash, hslash, hafter⟩ := afterSpaced?_sound (by decide) hdivisor
      obtain rfl : after = slash ++ divisor := hafter
      exact ⟨.front hsign hk hgap hsymbol (.slash hslash hdigits), htext⟩
    · simp at h

theorem piTimes?_sound {t : Text} {p : PiTerm} (h : piTimes? t = some p) :
    Written p ∧ t = p.before ++ p.symbol ++ p.after := by
  obtain ⟨hsign, ht⟩ := splitSign_spec t
  simp only [piTimes?, bind, Option.bind_eq_some_iff] at h
  obtain ⟨⟨symbol, after⟩, hpi, rest, hstar, h⟩ := h
  obtain ⟨hsymbol, hrest⟩ := splitPi?_sound hpi
  split at h
  · next whole fraction hdecimal =>
    cases h
    obtain ⟨k, hk, hafter⟩ := splitDecimal?_sound hdecimal
    obtain ⟨gap, hgap, hsplit⟩ := afterSpaced?_sound (by decide) hstar
    rw [List.append_nil] at hafter
    obtain rfl : after = gap ++ k := hafter ▸ hsplit
    refine ⟨.behind hsign hsymbol hgap hk, ?_⟩
    rw [List.append_assoc, ← hrest]
    exact ht
  · simp at h

/-- After the coefficient comes neither a digit nor a point nor a sign. -/
theorem head_after_coefficient {gap symbol : Text} (hgap : compact gap = [] ∨ compact gap = ['*'])
    (hsymbol : IsSymbol symbol) (after : Text) :
    ∀ c ∈ (gap ++ (symbol ++ after)).head?, isDigit c = false ∧ c ≠ '.' ∧ c ≠ '-' := by
  intro c hc
  cases gap with
  | nil =>
    obtain ⟨-, hdigit, hpoint, -, hminus⟩ := head_of_isSymbol hsymbol after c hc
    exact ⟨hdigit, hpoint, hminus⟩
  | cons d gap =>
    obtain rfl : d = c := Option.some.inj hc
    cases hspace : isSpace d with
    | true =>
      refine ⟨isDigit_of_isSpace hspace, ?_, ?_⟩
      · rintro rfl
        exact absurd hspace (by decide)
      · rintro rfl
        exact absurd hspace (by decide)
    | false =>
      have hmem : d ∈ compact (d :: gap) := mem_compact.2 ⟨List.mem_cons_self, hspace⟩
      rcases hgap with hgap | hgap
      · rw [hgap] at hmem
        simp at hmem
      · rw [hgap, List.mem_singleton] at hmem
        subst hmem
        decide

theorem head_of_isCoefficient {k whole fraction rest : Text} (hk : IsCoefficient k whole fraction)
    (hrest : ∀ c ∈ rest.head?, c ≠ '-') : ∀ c ∈ (k ++ rest).head?, c ≠ '-' := by
  cases hk with
  | one => exact hrest
  | decimal hk =>
    intro c hc
    rcases hk.chars c (mem_of_mem_head?_append hk.ne_nil hc) with hc | rfl
    · exact ne_of_isDigit hc (by decide)
    · decide

theorem piTerm?_complete {sign k gap symbol after whole fraction divisor : Text}
    (hsign : IsSign sign) (hk : IsCoefficient k whole fraction)
    (hgap : compact gap = [] ∨ compact gap = ['*']) (hsymbol : IsSymbol symbol)
    (hdivision : IsDivision after divisor) :
    piTerm? (sign ++ k ++ gap ++ symbol ++ after) =
      some ⟨sign, sign ++ k ++ gap, symbol, after, whole, fraction, divisor⟩ := by
  have hhead := head_after_coefficient hgap hsymbol after
  have hstart := head_of_isSymbol hsymbol after
  have hbody : sign ++ k ++ gap ++ symbol ++ after =
      sign ++ (k ++ (gap ++ (symbol ++ after))) := by simp
  have hfront : frontOf (sign ++ k ++ gap ++ symbol ++ after) (symbol ++ after) =
      sign ++ k ++ gap := by
    rw [List.append_assoc _ symbol, frontOf_append]
  have hsplit : splitSign (sign ++ k ++ gap ++ symbol ++ after) =
      (sign, k ++ (gap ++ (symbol ++ after))) := by
    rw [hbody]
    exact splitSign_append hsign (head_of_isCoefficient hk fun c hc => (hhead c hc).2.2)
  simp only [piTerm?, hsplit, coefficient_complete hk fun c hc => ⟨(hhead c hc).1, (hhead c hc).2.1⟩,
    star_complete hgap (fun c hc => (hstart c hc).1) fun c hc => (hstart c hc).2.2.2.1,
    splitPi?_complete hsymbol, hfront, bind, Option.bind_some]
  cases hdivision with
  | one => rfl
  | @slash slash divisor hslash hdivisor =>
    obtain ⟨hne, hdigits⟩ := isDigits_iff.1 hdivisor
    have hstarts : Starts divisor := fun c hc =>
      isSpace_of_isDigit (hdigits c (List.mem_of_mem_head? hc))
    rw [if_neg (by simp [hne]), afterSpaced?_complete (by decide) hslash hstarts, Option.bind_some,
      if_pos hdivisor]

theorem piTimes?_complete {sign symbol gap k whole fraction : Text} (hsign : IsSign sign)
    (hsymbol : IsSymbol symbol) (hgap : compact gap = ['*']) (hk : IsDecimal k whole fraction) :
    piTerm? (sign ++ symbol ++ (gap ++ k)) = none ∧ piTimes? (sign ++ symbol ++ (gap ++ k)) =
      some ⟨sign, sign, symbol, gap ++ k, whole, fraction, ['1']⟩ := by
  have hstart := head_of_isSymbol hsymbol (gap ++ k)
  have hsplit : splitSign (sign ++ symbol ++ (gap ++ k)) = (sign, symbol ++ (gap ++ k)) := by
    rw [List.append_assoc]
    exact splitSign_append hsign fun c hc => (hstart c hc).2.2.2.2
  constructor
  · have hends : EndsDecimal (symbol ++ (gap ++ k)) := fun c hc =>
      ⟨(hstart c hc).2.1, (hstart c hc).2.2.1⟩
    have hcoefficient := coefficient_complete .one hends
    have hstarts : Starts (symbol ++ (gap ++ k)) := fun c hc => (hstart c hc).1
    have hstar := star_complete (Or.inl compact_nil) hstarts fun c hc => (hstart c hc).2.2.2.1
    rw [List.nil_append] at hcoefficient hstar
    have hslash : afterSpaced? '/' (gap ++ k) = none := by
      obtain ⟨before, behind, hbefore, -, rfl⟩ := exists_of_compact hgap
      rw [List.append_assoc]
      exact afterSpaced?_eq_none hbefore (by rintro _ ⟨⟩; decide) (by rintro _ ⟨⟩; decide)
    simp only [piTerm?, hsplit, hcoefficient, hstar, splitPi?_complete hsymbol, hslash, bind,
      Option.bind_some, Option.bind_none]
    rw [if_neg (by simp [hk.ne_nil])]
  · have hstarts : Starts k := fun c hc => by
      rcases hk.chars c (List.mem_of_mem_head? hc) with hc | rfl
      · exact isSpace_of_isDigit hc
      · decide
    have hends : EndsDecimal [] := by simp [EndsDecimal]
    have hdecimal := splitDecimal?_complete hk hends
    rw [List.append_nil] at hdecimal
    simp only [piTimes?, hsplit, splitPi?_complete hsymbol, afterSpaced?_complete (by decide) hgap
      hstarts, hdecimal, bind, Option.bind_some]

def piReading? (t : Text) : Option PiTerm := piTerm? t <|> piTimes? t

/-- A text is read as a term if it is the term as it is written. -/
theorem piReading?_eq_some {t : Text} {p : PiTerm} :
    piReading? t = some p ↔ Written p ∧ t = p.before ++ p.symbol ++ p.after := by
  rw [piReading?, Option.orElse_eq_orElse, Option.orElse_eq_or, Option.or_eq_some_iff]
  constructor
  · rintro (h | ⟨-, h⟩)
    · exact piTerm?_sound h
    · exact piTimes?_sound h
  · rintro ⟨hp, rfl⟩
    cases hp with
    | front hsign hk hgap hsymbol hdivision =>
      exact Or.inl (piTerm?_complete hsign hk hgap hsymbol hdivision)
    | behind hsign hsymbol hgap hk => exact Or.inr (piTimes?_complete hsign hsymbol hgap hk)

structure IsPiTerm (p : PiTerm) : Prop where
  sign : IsSign p.sign
  symbol : IsSymbol p.symbol
  before : ∀ c ∈ p.before, isSide c = true
  after : ∀ c ∈ p.after, isSide c = true

theorem isSide_of_isSign {sign : Text} (h : IsSign sign) : ∀ c ∈ sign, isSide c = true := by
  rcases h with rfl | rfl
  · simp
  · exact forall_mem_of_all (by decide)

theorem isSide_of_isDecimal {t whole fraction : Text} (h : IsDecimal t whole fraction) :
    ∀ c ∈ t, isSide c = true := by
  intro c hc
  rcases h.chars c hc with hc | rfl
  · exact isSide_of_isDigit hc
  · decide

/-- White space does not matter for what stands beside the symbol. -/
theorem isSide_of_compact {t : Text} (h : ∀ c ∈ compact t, isSide c = true) :
    ∀ c ∈ t, isSide c = true := by
  intro c hc
  cases hspace : isSpace c with
  | true => exact isSide_of_isSpace hspace
  | false => exact h c (mem_compact.2 ⟨hc, hspace⟩)

theorem isSide_of_mark {gap : Text} {mark : Char} (hmark : isSide mark = true)
    (hgap : compact gap = [mark]) : ∀ c ∈ gap, isSide c = true :=
  isSide_of_compact (by simpa [hgap] using hmark)

theorem Written.isPiTerm {p : PiTerm} (h : Written p) : IsPiTerm p := by
  cases h with
  | front hsign hk hgap hsymbol hdivision =>
    refine ⟨hsign, hsymbol, ?_, ?_⟩
    · simp only [List.forall_mem_append]
      refine ⟨⟨isSide_of_isSign hsign, ?_⟩, ?_⟩
      · cases hk with
        | one => simp
        | decimal hk => exact isSide_of_isDecimal hk
      · rcases hgap with hgap | hgap
        · exact isSide_of_compact (by simp [hgap])
        · exact isSide_of_mark (by decide) hgap
    · cases hdivision with
      | one => simp
      | slash hslash hdivisor =>
        simp only [List.forall_mem_append]
        exact ⟨isSide_of_mark (by decide) hslash,
          fun c hc => isSide_of_isDigit ((isDigits_iff.1 hdivisor).2 c hc)⟩
  | behind hsign hsymbol hgap hk =>
    refine ⟨hsign, hsymbol, isSide_of_isSign hsign, ?_⟩
    simp only [List.forall_mem_append]
    exact ⟨isSide_of_mark (by decide) hgap, isSide_of_isDecimal hk⟩

theorem piReading?_sound {t : Text} {p : PiTerm} (h : piReading? t = some p) :
    IsPiTerm p ∧ t = p.before ++ p.symbol ++ p.after := by
  obtain ⟨hp, ht⟩ := piReading?_eq_some.1 h
  exact ⟨hp.isPiTerm, ht⟩

def respelled (p : PiTerm) : Text := p.before ++ otherPi p.symbol ++ p.after

/-- The rule on π respells the symbol and gives the decimal for the value 3.14 of π. -/
theorem mem_piApproximation {m value : Text} :
    m ∈ piApproximation value ↔ ∃ p ratio, piReading? (trim value) = some p ∧
      p.value? = some ratio ∧ (m = respelled p ∨
        ∃ decimal, ratio.toDecimal? = some decimal ∧ m = p.sign ++ decimal) := by
  constructor
  · intro h
    simp only [piApproximation] at h
    split at h
    · simp at h
    · next p hp =>
      split at h
      · simp at h
      · next ratio hratio =>
        refine ⟨p, ratio, hp, hratio, ?_⟩
        rcases List.mem_cons.1 h with h | h
        · exact Or.inl h
        · split at h
          · next decimal hdecimal =>
            exact Or.inr ⟨decimal, hdecimal, List.mem_singleton.1 h⟩
          · simp at h
  · rintro ⟨p, ratio, hp, hratio, h⟩
    rw [piReading?] at hp
    simp only [piApproximation, hp, hratio]
    rcases h with rfl | ⟨decimal, hdecimal, rfl⟩
    · exact List.mem_cons_self
    · simp [hdecimal]

end AssessmentItems.PiReadings
