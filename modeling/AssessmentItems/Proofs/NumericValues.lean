import AssessmentItems.Proofs.AcceptedValues
import AssessmentItems.Proofs.SpacingClasses

/-!
The numbers that are accepted for a response. The literals of the numeric types have digits,
signs, points and the letter of an exponent, so only two rules see them: the rule on leading
zeros, which keeps the number, and the layout of formulas, which puts white space where no
literal has any. So an integer has no other spelling, and a decimal at most one.
-/
namespace AssessmentItems.NumericValues

open Text AnswerRules AnswerClass Scoring Structure TextClasses ImplicitProducts Readings PiReadings
  NumberRules Relations CoefficientClasses NumberGroups DecimalNumerals AnswerClosure
  LiteralForms WellFormedItems AcceptedValues
open Literals hiding splitSign
open ClassMembers hiding accepted

def isMark (c : Char) : Bool := isPlainDigit c || c ∈ ['.', 'e', 'E', '+', '-']

def Marked (t : Text) : Prop := ∀ c ∈ t, isMark c = true

theorem isMark_cases {c : Char} (h : isMark c = true) :
    isPlainDigit c = true ∨ c ∈ ['.', 'e', 'E', '+', '-'] := by
  simpa [isMark] using h

theorem marked_append {s t : Text} : Marked (s ++ t) ↔ Marked s ∧ Marked t :=
  List.forall_mem_append

theorem marked_cons {c : Char} {t : Text} : Marked (c :: t) ↔ isMark c = true ∧ Marked t :=
  List.forall_mem_cons

theorem marked_digits {t : Text} (h : ∀ c ∈ t, isPlainDigit c = true) : Marked t :=
  fun c hc => by simp [isMark, h c hc]

theorem marked_mark {sign : Text} (h : IsMark sign) : Marked sign := by
  rcases h with rfl | rfl | rfl
  · exact nofun
  · exact List.forall_mem_singleton.2 (by decide)
  · exact List.forall_mem_singleton.2 (by decide)

theorem marked_mantissa {mantissa whole fraction : Text} (h : Mantissa mantissa whole fraction) :
    Marked mantissa := by
  cases h with
  | whole hwhole => exact marked_digits hwhole.2
  | point hdigits =>
    obtain ⟨hwhole, hfraction⟩ := List.forall_mem_append.1 hdigits.2
    exact marked_append.2 ⟨marked_digits hwhole,
      marked_cons.2 ⟨by decide, marked_digits hfraction⟩⟩

theorem marked_power {power : Text} {exponent : ℤ} (h : Power power exponent) : Marked power := by
  cases h with
  | none => exact nofun
  | exponent hc hsign hdigits =>
    refine marked_cons.2 ⟨?_, marked_append.2 ⟨marked_mark hsign, marked_digits hdigits.2⟩⟩
    rcases hc with rfl | rfl <;> decide

theorem marked_of_isFloat {t : Text} (h : IsFloat t) : Marked t := by
  obtain ⟨d, ⟨hsign, hmantissa, hpower⟩, -⟩ := h
  exact marked_append.2 ⟨marked_mark hsign,
    marked_append.2 ⟨marked_mantissa hmantissa, marked_power hpower⟩⟩

theorem marked_of_isInteger {t : Text} (h : IsInteger t) : Marked t := by
  obtain ⟨sign, digits, hsign, hdigits, rfl, -⟩ := h
  exact marked_append.2 ⟨marked_mark hsign, marked_digits hdigits.2⟩

section

variable {v m : Text} (h : Marked v)
include h

theorem Marked.not_mem {c : Char} (hc : isMark c = false) : c ∉ v := by
  intro hmem
  simp [h c hmem] at hc

theorem Marked.isSpace : ∀ c ∈ v, isSpace c = false := by
  intro c hc
  rcases isMark_cases (h c hc) with hdigit | hmark
  · exact isSpace_of_isDigit (isDigit_of_isPlainDigit hdigit)
  · have hall : ∀ d ∈ ['.', 'e', 'E', '+', '-'], Text.isSpace d = false :=
      forall_mem_of_all (by decide)
    exact hall c hmark

theorem Marked.trim_eq : trim v = v := trim_of_compact h.isSpace

/-- Of the rules on numbers, only the one on leading zeros reads a literal: the others look for a
slash or for the symbol for π. -/
theorem Marked.mem_leadingZero (hm : m ∈ numberVariants v) : m ∈ leadingZero v := by
  have hslash : '/' ∉ v := h.not_mem (by decide)
  simp only [numberVariants, List.mem_append] at hm
  rcases hm with ((hm | hm) | hm) | hm
  · exact hm
  · obtain ⟨sign, n, d, -, -, -, -, -, ht, -⟩ := mem_fractionDecimal.1 hm
    rw [h.trim_eq] at ht
    exact absurd (ht ▸ by simp) hslash
  · obtain ⟨c, -, hc, -⟩ := mem_fractionalCoefficient.1 hm
    rw [h.trim_eq] at hc
    exact absurd (slash_mem_fractionForm (coefficient?_sound hc).2) hslash
  · obtain ⟨p, -, hp, -⟩ := mem_piApproximation.1 hm
    obtain ⟨hterm, ht⟩ := piReading?_sound hp
    rw [h.trim_eq] at ht
    rcases hterm.symbol with hs | hs
    · exact absurd (by simp [ht, hs]) (h.not_mem (c := 'π') (by decide))
    · exact absurd (by simp [ht, hs]) (h.not_mem (c := 'p') (by decide))

/-- A rule changes the white space of a literal only, or its leading zero. -/
theorem Marked.compact_of_mem_variants (hm : m ∈ variants v) :
    compact m = v ∨ m ∈ leadingZero v := by
  have hsign : ∀ c ∈ v, isRelationSign c = false := by
    intro c hc
    by_contra hrelation
    have hmark : isMark c = false := by
      rcases relationSign_cases (by simpa using hrelation) with rfl | rfl | rfl | rfl | rfl <;>
        decide
    exact h.not_mem hmark hc
  obtain ⟨hinequality, hequation⟩ := relation_rules_eq_nil hsign
  rw [NumberRules.mem_variants, hinequality, hequation] at hm
  rcases hm with hm | hm | hm | hm | hm
  · exact .inr (h.mem_leadingZero hm)
  · have hcompact : compact v = v := compact_eq_self h.isSpace
    rcases mem_algebraicSpacing hm with rfl | rfl
    · exact .inl (by simp [hcompact])
    · exact .inl (by simp [hcompact])
  · have hstar : '*' ∉ v := h.not_mem (by decide)
    exact absurd (implicitProducts_eq_self (.inl hstar)) (mem_implicitMultiplication.1 hm).2
  · simp at hm
  · simp at hm

/-- Without white space, a literal derives itself and its partner at most. -/
theorem Marked.compact_of_mem_closure (hm : m ∈ closure v) :
    compact m = v ∨ compact m ∈ leadingZero v := by
  have hclosed : Closed {t | compact t = v ∨ compact t ∈ leadingZero v} := by
    intro t ht m hm _
    change compact m = v ∨ compact m ∈ leadingZero v
    rcases SpacingClasses.compact_of_mem_variants hm with heq | hvariant
    · exact heq ▸ ht
    · rcases ht with ht | ht
      · rw [ht] at hvariant
        simpa using h.compact_of_mem_variants hvariant
      · rcases (numeric_of_mem_leadingZero ht).mem_variants hvariant with heq | hback
        · exact .inr (heq ▸ ht)
        · exact .inl ((leadingZero_undo ht hback).trans h.trim_eq)
  exact closure_subset (.inl (compact_eq_self h.isSpace)) hclosed hm

/-- Of the spellings of a literal, those that are literals are itself and its partner. -/
theorem Marked.mem_class (hm : Marked m) :
    m ∈ expand v ↔ m = v ∨ m ∈ leadingZero v := by
  rw [mem_expand]
  constructor
  · intro hclass
    have hcompact := h.compact_of_mem_closure hclass
    rwa [compact_eq_self hm.isSpace] at hcompact
  · rintro (rfl | hzero)
    · exact mem_closure_self m
    · refine mem_closure_of_mem_variants (mem_closure_self v) ?_
      exact NumberRules.mem_variants.2 (.inl (by simp [numberVariants, hzero]))

end

/-- Two spellings of a decimal below one, with its leading zero and without. -/
def Partners (s t : Text) : Prop :=
  ∃ sign digits, IsSign sign ∧ IsDigits digits ∧
    ((s = sign ++ '0' :: '.' :: digits ∧ t = sign ++ '.' :: digits) ∨
      (s = sign ++ '.' :: digits ∧ t = sign ++ '0' :: '.' :: digits))

/-- In a literal, the digits of other scripts do not stand. -/
theorem Marked.isDigits {v digits : Text} (h : Marked v) (hdigits : isDigits digits = true)
    (hsub : digits ⊆ v) : IsDigits digits := by
  obtain ⟨hne, hall⟩ := isDigits_iff.1 hdigits
  refine ⟨hne, fun c hc => (isMark_cases (h c (hsub hc))).resolve_right fun hmark => ?_⟩
  have hother : ∀ d ∈ ['.', 'e', 'E', '+', '-'], isDigit d = false := forall_mem_of_all (by decide)
  exact absurd (hall c hc) (by simp [hother c hmark])

theorem mem_leadingZero_iff {v m : Text} (h : Marked v) : m ∈ leadingZero v ↔ Partners v m := by
  rw [mem_leadingZero, h.trim_eq]
  constructor
  · rintro ⟨sign, digits, hsign, hdigits, hcases⟩
    refine ⟨sign, digits, hsign, h.isDigits hdigits fun c hc => ?_, hcases⟩
    rcases hcases with ⟨rfl, -⟩ | ⟨rfl, -⟩
    · simp [hc]
    · simp [hc]
  · rintro ⟨sign, digits, hsign, hdigits, hcases⟩
    refine ⟨sign, digits, hsign, isDigits_iff.2 ⟨hdigits.1, fun c hc => ?_⟩, hcases⟩
    exact isDigit_of_isPlainDigit (hdigits.2 c hc)

def number? (t : Text) : Option ℚ :=
  (Literals.decimal? t).map fun d => if d.negative then -size d else size d

theorem number?_of_spells {t : Text} {d : Decimal} (h : Spells t d) :
    number? t = some (if d.negative then -size d else size d) := by
  rw [number?, LiteralForms.decimal?_eq_some.2 h, Option.map_some]

theorem isMark_of_isSign {sign : Text} (h : IsSign sign) : IsMark sign := h.imp id .inl

/-- How partners are spelled: their parts differ in the zero before the point only. -/
theorem Partners.spelled {s t : Text} (h : Partners s t) :
    ∃ a b, Spells s a ∧ Spells t b ∧ a.negative = b.negative ∧ size a = size b := by
  obtain ⟨sign, digits, hsign, hdigits, hcases⟩ := h
  have hzero : IsDigits (['0'] ++ digits) :=
    ⟨by simp, List.forall_mem_append.2 ⟨List.forall_mem_singleton.2 (by decide), hdigits.2⟩⟩
  have hpoint : Mantissa ([] ++ '.' :: digits) [] digits := .point hdigits
  have hwith := Spells.literal (isMark_of_isSign hsign) (.point hzero) .none
  have hbare := Spells.literal (isMark_of_isSign hsign) hpoint .none
  have hsize : size ⟨decide (sign = ['-']), ['0'], digits, 0⟩ =
      size ⟨decide (sign = ['-']), [], digits, 0⟩ := by
    have hvalue := digitsValue_append ['0'] digits
    rw [show digitsValue ['0'] = 0 from rfl, Nat.mul_zero, Nat.zero_add] at hvalue
    simp only [size, hvalue, List.nil_append]
  simp only [List.append_nil, List.singleton_append, List.nil_append] at hwith hbare
  rcases hcases with ⟨rfl, rfl⟩ | ⟨rfl, rfl⟩
  · exact ⟨_, _, hwith, hbare, rfl, hsize⟩
  · exact ⟨_, _, hbare, hwith, rfl, hsize.symm⟩

theorem Partners.number {s t : Text} (h : Partners s t) :
    ∃ x, number? s = some x ∧ number? t = some x := by
  obtain ⟨a, b, ha, hb, hnegative, hsize⟩ := h.spelled
  refine ⟨_, number?_of_spells ha, ?_⟩
  rw [number?_of_spells hb, hnegative, hsize]

theorem Partners.isFloat {s t : Text} (h : Partners s t) (hs : IsFloat s) : IsFloat t := by
  obtain ⟨a, b, ha, hb, -, hsize⟩ := h.spelled
  obtain ⟨a', ha', hlt⟩ := hs
  obtain rfl := Option.some.inj
    ((LiteralForms.decimal?_eq_some.2 ha).symm.trans (LiteralForms.decimal?_eq_some.2 ha'))
  exact ⟨b, hb, hsize ▸ hlt⟩

theorem exists_number_of_isFloat {t : Text} (h : IsFloat t) : ∃ x, number? t = some x := by
  obtain ⟨d, hd, -⟩ := h
  exact ⟨_, number?_of_spells hd⟩

theorem exists_number_of_isInteger {t : Text} (h : IsInteger t) : ∃ x, number? t = some x := by
  obtain ⟨sign, digits, hsign, hdigits, rfl, -⟩ := h
  have hspells := Spells.literal hsign (.whole hdigits) .none
  rw [List.append_nil] at hspells
  exact ⟨_, number?_of_spells hspells⟩

/-- An integer has no point, so no rule gives another spelling of it that is an integer. -/
theorem mem_class_integer {v m : Text} (hv : IsInteger v) (hm : IsInteger m) :
    m ∈ expand v ↔ m = v := by
  have hmarked := marked_of_isInteger hv
  rw [hmarked.mem_class (marked_of_isInteger hm), or_iff_left]
  intro hzero
  obtain ⟨_, _, -, -, hcases⟩ := (mem_leadingZero_iff hmarked).1 hzero
  have hpoint : '.' ∈ v := by
    rcases hcases with ⟨rfl, -⟩ | ⟨rfl, -⟩
    · simp
    · simp
  obtain ⟨sign, digits, hsign, hdigits, rfl, -⟩ := hv
  rcases List.mem_append.1 hpoint with hmem | hmem
  · rcases hsign with rfl | rfl | rfl
    · simp at hmem
    · simp at hmem
    · simp at hmem
  · exact absurd (hdigits.2 _ hmem) (by decide)

/-- Of the spellings of a decimal, the literals are itself and its partner. -/
theorem mem_class_float {v m : Text} (hv : IsFloat v) :
    (IsFloat m ∧ m ∈ expand v) ↔ m = v ∨ Partners v m := by
  have hmarked := marked_of_isFloat hv
  constructor
  · rintro ⟨hm, hclass⟩
    rwa [hmarked.mem_class (marked_of_isFloat hm), mem_leadingZero_iff hmarked] at hclass
  · intro h
    have hm : IsFloat m := by
      rcases h with rfl | hpartners
      · exact hv
      · exact hpartners.isFloat hv
    refine ⟨hm, ?_⟩
    rwa [hmarked.mem_class (marked_of_isFloat hm), mem_leadingZero_iff hmarked]

section

variable {d : ResponseDeclaration} (hordered : d.cardinality ≠ .ordered)
include hordered

theorem accepted_integers (htype : d.baseType = .integer)
    (hliterals : ∀ value ∈ d.values, IsInteger value) : accepted d = d.values.eraseDups := by
  rw [accepted_eq hordered (by simp [htype]), List.append_right_eq_self]
  refine List.eq_nil_iff_forall_not_mem.2 fun t ht => ?_
  obtain ⟨⟨value, hvalue, hclass⟩, haccepts, hnew⟩ := mem_others.1 ht
  have hinteger : IsInteger t := by
    rw [htype] at haccepts
    exact accepts_iff.1 haccepts
  obtain rfl := (mem_class_integer (hliterals value hvalue) hinteger).1 hclass
  exact hnew hvalue

theorem mem_accepted_float (htype : d.baseType = .float)
    (hliterals : ∀ value ∈ d.values, IsFloat value) {t : Text} :
    t ∈ accepted d ↔ t ∈ d.values ∨ ∃ value ∈ d.values, Partners value t := by
  have hmem := mem_accepted hordered (by simp [htype]) (t := t) (by rwa [htype])
  rw [htype] at hmem
  rw [hmem]
  constructor
  · rintro ⟨hfloat, value, hvalue, hclass⟩
    rcases (mem_class_float (hliterals value hvalue)).1 ⟨hfloat, hclass⟩ with rfl | hpartners
    · exact .inl hvalue
    · exact .inr ⟨value, hvalue, hpartners⟩
  · rintro (hvalue | ⟨value, hvalue, hpartners⟩)
    · have hself := (mem_class_float (hliterals t hvalue)).2 (.inl rfl)
      exact ⟨hself.1, t, hvalue, hself.2⟩
    · have hpartner := (mem_class_float (hliterals value hvalue)).2 (.inr hpartners)
      exact ⟨hpartner.1, value, hvalue, hpartner.2⟩

end

/-- A response of a numeric type accepts the numbers that are declared and no others: of integers
the declared spellings, each once, and of decimals also those with a leading zero more or less. -/
theorem numbers_kept (d : ResponseDeclaration) (path : Text)
    (hvalid : ofDeclaration path d = none) (hordered : d.cardinality ≠ .ordered) :
    (d.baseType = .integer → accepted d = d.values.eraseDups) ∧
    (d.baseType = .float →
      ∀ t, t ∈ accepted d ↔ t ∈ d.values ∨ ∃ value ∈ d.values, Partners value t) ∧
    (d.baseType = .integer ∨ d.baseType = .float → ∀ t ∈ accepted d,
      ∃ value ∈ d.values, ∃ x, number? value = some x ∧ number? t = some x) := by
  have hliterals := (ofDeclaration_eq_none.1 hvalid).literals
  have hintegers (htype : d.baseType = .integer) : ∀ value ∈ d.values, IsInteger value := by
    rwa [htype] at hliterals
  have hfloats (htype : d.baseType = .float) : ∀ value ∈ d.values, IsFloat value := by
    rwa [htype] at hliterals
  refine ⟨fun htype => accepted_integers hordered htype (hintegers htype), fun htype t =>
    mem_accepted_float hordered htype (hfloats htype), ?_⟩
  rintro (htype | htype) t ht
  · rw [accepted_integers hordered htype (hintegers htype), List.mem_eraseDups] at ht
    obtain ⟨x, hx⟩ := exists_number_of_isInteger (hintegers htype t ht)
    exact ⟨t, ht, x, hx, hx⟩
  · rcases (mem_accepted_float hordered htype (hfloats htype)).1 ht with hvalue | hpartner
    · obtain ⟨x, hx⟩ := exists_number_of_isFloat (hfloats htype t hvalue)
      exact ⟨t, hvalue, x, hx, hx⟩
    · obtain ⟨value, hvalue, hpartners⟩ := hpartner
      exact ⟨value, hvalue, hpartners.number⟩

/-- A decimal below one, and one with an exponent, which may be spaced but then is no literal. -/
def smallDecimals : ResponseDeclaration :=
  ⟨"R", .multiple, .float, .list [.text "-.25", .text "1e-5"]⟩

theorem numbers_kept_small :
    ofDeclaration "responseDeclarations[0]" smallDecimals = none ∧
      smallDecimals.cardinality ≠ .ordered ∧ ("-0.25" : Text) ∈ accepted smallDecimals ∧
      ∀ t ∈ accepted smallDecimals,
        ∃ value ∈ smallDecimals.values, ∃ x, number? value = some x ∧ number? t = some x := by
  have hvalid : ofDeclaration "responseDeclarations[0]" smallDecimals = none := by decide
  have hordered : smallDecimals.cardinality ≠ .ordered := by decide
  have hpartners : Partners "-.25" "-0.25" :=
    ⟨['-'], ['2', '5'], .inr rfl, ⟨by decide, forall_mem_of_all (by decide)⟩, .inr ⟨rfl, rfl⟩⟩
  obtain ⟨-, hfloats, hnumbers⟩ := numbers_kept smallDecimals _ hvalid hordered
  refine ⟨hvalid, hordered, (hfloats rfl _).2 (.inr ⟨"-.25", ?_, hpartners⟩), hnumbers (.inr rfl)⟩
  exact List.mem_cons_self

end AssessmentItems.NumericValues
