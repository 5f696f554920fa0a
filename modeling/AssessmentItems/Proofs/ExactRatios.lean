import AssessmentItems.Proofs.DivisionLoops
import AssessmentItems.Proofs.PiValues

/-!
The arithmetic on fractions, in numbers of 128 bits. An operation gives the exact result in lowest
terms, or nothing, and then something is divided by zero, a numeral is malformed or a number does
not fit. The decimal of a fraction is the one numeral of its value in which nothing could be left
out. Numerals are taken apart at their first point. What is read as one may have a plus sign
before its digits, which coefficients of terms never have.
-/
namespace AssessmentItems.ExactRatios

open Text TextClasses Readings PiReadings DecimalNumerals ShortestNumerals PiValues DivisionLoops

def parts (t : Text) : Text × Text := (t.takeWhile (· ≠ '.'), (t.dropWhile (· ≠ '.')).tail)

/-- Digits, with a point before, among or behind them or without one. -/
structure Numeral (t : Text) : Prop where
  ne_nil : (parts t).1 ++ (parts t).2 ≠ []
  whole : PlainDigits (parts t).1
  fraction : PlainDigits (parts t).2

def value (t : Text) : ℚ :=
  digitsValue (parts t).1 + digitsValue (parts t).2 / 10 ^ (parts t).2.length

/-- The numeral that a text is read as. A plus sign may stand before it. Where nothing stands
before the point, the sign may also stand behind it, and takes a place there as a zero does. -/
inductive ReadAs : (t numeral : Text) → Prop
  | plain (t : Text) : ReadAs t t
  | plus (t : Text) : ReadAs ('+' :: t) t
  | place {fraction : Text} (hne : fraction ≠ []) :
      ReadAs ('.' :: '+' :: fraction) ('.' :: '0' :: fraction)

def ofNumeral? (t : Text) : Option Ratio := Ratio.ofDecimal? (parts t).1 (parts t).2

/-- A numeral in which nothing could be left out: it has digits before the point, the first of
them is no zero unless it is the only one, the last digit behind the point is no zero, and the
point does not stand at the end. -/
structure Canonical (t : Text) : Prop extends Numeral t where
  whole_ne_nil : (parts t).1 ≠ []
  leading : ∀ rest, (parts t).1 = '0' :: rest → rest = []
  trailing : (parts t).2.getLast? ≠ some '0'
  point : t.getLast? ≠ some '.'

theorem parts_cons_ne {c : Char} (h : c ≠ '.') (t : Text) :
    parts (c :: t) = (c :: (parts t).1, (parts t).2) := by
  simp [parts, h]

theorem parts_append {whole rest : Text} (h : '.' ∉ whole) (hrest : ∀ c ∈ rest.head?, c = '.') :
    parts (whole ++ rest) = (whole, rest.tail) := by
  have hrun : ∀ c ∈ whole, decide (c ≠ '.') = true := fun c hc =>
    decide_eq_true fun heq => h (heq ▸ hc)
  have hstop : ∀ c ∈ rest.head?, decide (c ≠ '.') = false := fun c hc =>
    decide_eq_false (not_not.2 (hrest c hc))
  rw [parts, takeWhile_run hrun hstop, dropWhile_run hrun hstop]

theorem parts_point {whole : Text} (h : '.' ∉ whole) (fraction : Text) :
    parts (whole ++ '.' :: fraction) = (whole, fraction) :=
  parts_append h fun _ hc => (Option.some.inj hc).symm

theorem parts_whole {whole : Text} (h : '.' ∉ whole) : parts whole = (whole, []) := by
  have hparts : parts (whole ++ []) = (whole, []) :=
    parts_append h fun _ hc => absurd hc (Option.not_mem_none _)
  rwa [List.append_nil] at hparts

theorem point_not_mem {t : Text} (h : PlainDigits t) : '.' ∉ t := fun hmem =>
  absurd (h _ hmem) (by decide)

theorem parts_withPoint {whole : Text} (h : PlainDigits whole) (fraction : Text) :
    parts (withPoint whole fraction) = (whole, fraction) := by
  rw [withPoint]
  split_ifs with hfraction
  · rw [parts_whole (point_not_mem h), hfraction]
  · exact parts_point (point_not_mem h) fraction

/-- The coefficient of a term is taken apart at its point. -/
theorem parts_of_isDecimal {t whole fraction : Text} (h : IsDecimal t whole fraction) :
    parts t = (whole, fraction) := by
  have hno : ∀ {u : Text}, (∀ c ∈ u, isDigit c = true) → '.' ∉ u := fun hu hmem =>
    absurd (hu _ hmem) (by decide)
  cases h with
  | digits hdigits => exact parts_whole (hno (isDigits_iff.1 hdigits).2)
  | point hwhole hfraction => exact parts_point (hno hwhole) _

/-- A canonical numeral is written from its parts. -/
theorem Canonical.eq_withPoint {t : Text} (h : Canonical t) :
    t = withPoint (parts t).1 (parts t).2 := by
  have hsplit := List.takeWhile_append_dropWhile (p := (· ≠ '.')) (l := t)
  have hpoint := h.point
  rw [withPoint, parts]
  cases hrest : t.dropWhile (· ≠ '.') with
  | nil =>
    rw [hrest, List.append_nil] at hsplit
    exact hsplit.symm
  | cons c fraction =>
    obtain rfl : c = '.' := eq_of_dropWhile_ne hrest
    rw [hrest] at hsplit
    cases fraction with
    | nil =>
      rw [← hsplit, List.getLast?_concat] at hpoint
      contradiction
    | cons d fraction => exact hsplit.symm

/-- Digits that do not begin with a zero, or are one, are the digits of their value. -/
theorem eq_ofNat {t : Text} (hne : t ≠ []) (ht : PlainDigits t)
    (hlead : ∀ rest, t = '0' :: rest → rest = []) : t = ofNat (digitsValue t) := by
  refine (ofNat_shortest hne ht).resolve_right fun hshort => ?_
  cases t with
  | nil => contradiction
  | cons c rest =>
    have hrest : (ofNat (digitsValue (c :: rest))).length ≤ rest.length := Nat.le_of_lt_succ hshort
    have hpos : 0 < rest.length :=
      (List.length_pos_iff.2 (ofNat_ne_nil _)).trans_le hrest
    have hlt : digitsValue (c :: rest) < 10 ^ rest.length :=
      (Nat.length_toDigits_le_iff (by decide) hpos).1 hrest
    obtain ⟨hvalue, hlow, -⟩ := digitsValue_singleton (ht c List.mem_cons_self)
    have happend := digitsValue_append [c] rest
    rw [List.singleton_append, hvalue] at happend
    have hzero : c.toNat - 48 = 0 := by
      by_contra hdigit
      have hle := Nat.le_mul_of_pos_right (10 ^ rest.length) (Nat.pos_of_ne_zero hdigit)
      omega
    obtain rfl : c = '0' := Char.ext (UInt32.toNat_inj.1 (by
      change c.toNat = 48
      omega))
    rw [hlead rest rfl] at hpos
    exact absurd hpos (by decide)

/-- A canonical numeral is the shortest of its value. -/
theorem Canonical.isShortest {t : Text} (h : Canonical t) : IsShortest t (value t) := by
  have hvalue := decimal?_withPoint h.whole_ne_nil h.whole h.fraction
  have heq := h.eq_withPoint
  rw [eq_ofNat h.whole_ne_nil h.whole h.leading] at heq hvalue
  have hshortest := isShortest_withPoint h.fraction h.trailing hvalue
  rw [← heq, digitsValue_ofNat] at hshortest
  exact hshortest

/-- A number has one canonical numeral. -/
theorem Canonical.unique {t u : Text} (ht : Canonical t) (hu : Canonical u)
    (h : value u = value t) : u = t := by
  obtain ⟨htnumeral, htvalue, htleast⟩ := ht.isShortest
  obtain ⟨hunumeral, huvalue, huleast⟩ := hu.isShortest
  rw [h] at huvalue huleast
  refine (htleast u hunumeral huvalue).resolve_right fun hlt => ?_
  rcases huleast t htnumeral htvalue with rfl | hgt
  · exact lt_irrefl _ hlt
  · exact lt_asymm hlt hgt

/-- A printed number, and digits behind it that do not end in a zero. -/
theorem canonical_withPoint {fraction : Text} (n : ℕ) (hf : PlainDigits fraction)
    (hlast : fraction.getLast? ≠ some '0') : Canonical (withPoint (ofNat n) fraction) := by
  have hdigits := plainDigits_ofNat n
  have hparts := parts_withPoint hdigits fraction
  have hend : ∀ {u : Text}, PlainDigits u → u.getLast? ≠ some '.' := fun hu hpoint =>
    point_not_mem hu (List.mem_of_getLast? hpoint)
  refine ⟨⟨?_, ?_, ?_⟩, ?_, ?_, ?_, ?_⟩
  · rw [hparts]
    exact List.append_ne_nil_of_left_ne_nil (ofNat_ne_nil n) _
  · rwa [hparts]
  · rwa [hparts]
  · rw [hparts]
    exact ofNat_ne_nil n
  · intro rest hrest
    rw [hparts] at hrest
    exact (ofNat_cons_zero hrest).2
  · rwa [hparts]
  · rw [withPoint]
    split_ifs with hfraction
    · exact hend hdigits
    · rw [List.getLast?_append_of_ne_nil _ (List.cons_ne_nil _ _),
        List.getLast?_cons_of_ne_nil hfraction]
      exact hend hf

structure IsExact (x : ℚ) (r : Ratio) : Prop where
  denominator_ne_zero : r.denominator ≠ 0
  coprime : Nat.Coprime r.numerator r.denominator
  value : ratioValue r = x
  numerator_fits : r.numerator < 2 ^ 128
  denominator_fits : r.denominator < 2 ^ 128

/-- What an operation gives is exact, and it gives nothing exactly if it has to refuse. -/
structure Computes (outcome : Option Ratio) (x : ℚ) (Refused : Prop) : Prop where
  exact : ∀ r ∈ outcome, IsExact x r
  refused : outcome = none ↔ Refused

theorem computes_none {x : ℚ} {Refused : Prop} (h : Refused) : Computes none x Refused :=
  ⟨fun _ hr => absurd hr (Option.not_mem_none _), iff_of_true rfl h⟩

theorem computes_make? {n d : ℕ} (hn : n < 2 ^ 128) (hd : d < 2 ^ 128) :
    Computes (Ratio.make? n d) (n / d) (d = 0) := by
  constructor
  · intro r h
    obtain ⟨hne, hvalue⟩ := make?_value h
    have hreduced : (⟨n / Nat.gcd n d, d / Nat.gcd n d⟩ : Ratio) = r :=
      Option.some.inj ((if_neg hne).symm.trans h)
    subst hreduced
    exact ⟨reduced_ne_zero n hne,
      Nat.coprime_div_gcd_div_gcd (Nat.gcd_pos_of_pos_right n (Nat.pos_of_ne_zero hne)), hvalue,
      (Nat.div_le_self _ _).trans_lt hn, (Nat.div_le_self _ _).trans_lt hd⟩
  · simp [Ratio.make?]

theorem bounded_eq_none {n : ℕ} (h : 2 ^ 128 ≤ n) : bounded n = none := if_neg (not_lt.2 h)

def checked? (a b : ℕ) : Option Ratio :=
  (bounded a).bind fun n => (bounded b).bind fun d => Ratio.make? n d

theorem computes_checked? (a b : ℕ) :
    Computes (checked? a b) (a / b) (b = 0 ∨ 2 ^ 128 ≤ a ∨ 2 ^ 128 ≤ b) := by
  rw [checked?]
  rcases lt_or_ge a (2 ^ 128) with ha | ha
  · rcases lt_or_ge b (2 ^ 128) with hb | hb
    · obtain ⟨hexact, hnone⟩ := computes_make? ha hb
      rw [bounded_of_lt ha, bounded_of_lt hb]
      refine ⟨hexact, hnone.trans ⟨Or.inl, fun h => ?_⟩⟩
      exact h.resolve_right (not_or.2 ⟨not_le.2 ha, not_le.2 hb⟩)
    · rw [bounded_of_lt ha, bounded_eq_none hb]
      exact computes_none (Or.inr (Or.inr hb))
  · rw [bounded_eq_none ha]
    exact computes_none (Or.inr (Or.inl ha))

theorem computes_mul? (r s : Ratio) :
    Computes (r.mul? s) (ratioValue r * ratioValue s)
      (r.denominator = 0 ∨ s.denominator = 0 ∨ 2 ^ 128 ≤ r.numerator * s.numerator ∨
        2 ^ 128 ≤ r.denominator * s.denominator) := by
  have hvalue : ratioValue r * ratioValue s =
      ((r.numerator * s.numerator : ℕ) : ℚ) / (r.denominator * s.denominator : ℕ) := by
    rw [ratioValue, ratioValue, div_mul_div_comm, Nat.cast_mul, Nat.cast_mul]
  have h := computes_checked? (r.numerator * s.numerator) (r.denominator * s.denominator)
  rw [Nat.mul_eq_zero, or_assoc] at h
  rw [hvalue]
  exact h

theorem computes_divNat? {r : Ratio} (hr : r.numerator < 2 ^ 128) (n : ℕ) :
    Computes (r.divNat? n) (ratioValue r / n)
      (r.denominator = 0 ∨ n = 0 ∨ 2 ^ 128 ≤ r.denominator * n) := by
  have hvalue : ratioValue r / n = (r.numerator : ℚ) / (r.denominator * n : ℕ) := by
    rw [ratioValue, div_div, Nat.cast_mul]
  have h := computes_checked? r.numerator (r.denominator * n)
  rw [Nat.mul_eq_zero, or_assoc, checked?, bounded_of_lt hr, or_iff_right (not_le.2 hr)] at h
  rw [hvalue]
  exact h

/-- A text is a numeral exactly if its digits without the point are read as a number. -/
theorem numeral_iff {t : Text} {n : ℕ} :
    toNat? ((parts t).1 ++ (parts t).2) = some n ↔
      Numeral t ∧ digitsValue ((parts t).1 ++ (parts t).2) = n := by
  rw [toNat?_eq_some]
  constructor
  · rintro ⟨hne, hdigits, hvalue⟩
    exact ⟨⟨hne, fun c hc => hdigits c (List.mem_append_left _ hc),
      fun c hc => hdigits c (List.mem_append_right _ hc)⟩, hvalue⟩
  · rintro ⟨h, hvalue⟩
    exact ⟨h.ne_nil, fun c hc => (List.mem_append.1 hc).elim (h.whole c) (h.fraction c), hvalue⟩

theorem value_eq (t : Text) :
    value t = (digitsValue ((parts t).1 ++ (parts t).2) : ℕ) / (10 ^ (parts t).2.length : ℕ) := by
  have hscale : (10 : ℚ) ^ (parts t).2.length ≠ 0 := pow_ne_zero _ (by norm_num)
  rw [value, digitsValue_append]
  push_cast
  field_simp

theorem ofNumeral?_plus {t : Text} (h : Numeral t) : ofNumeral? ('+' :: t) = ofNumeral? t := by
  have hread : boundedNumber? ('+' :: ((parts t).1 ++ (parts t).2)) =
      boundedNumber? ((parts t).1 ++ (parts t).2) :=
    (boundedNumber?_of_toNat? (numeral_iff.2 ⟨h, rfl⟩)).symm ▸
      congrArg (Option.bind · bounded) (numeral_iff.2 ⟨h, rfl⟩)
  rw [ofNumeral?, ofNumeral?, parts_cons_ne (by decide), Ratio.ofDecimal?, Ratio.ofDecimal?,
    List.cons_append, hread]

/-- A plus sign behind the point is read like a zero in its place. -/
theorem ofNumeral?_place {fraction : Text} (hne : fraction ≠ [])
    (h : Numeral ('.' :: '0' :: fraction)) :
    ofNumeral? ('.' :: '+' :: fraction) = ofNumeral? ('.' :: '0' :: fraction) := by
  have hdigits : PlainDigits fraction := fun c hc => h.fraction c (List.mem_cons_of_mem _ hc)
  have hvalue : digitsValue ('0' :: fraction) = digitsValue fraction :=
    (digitsValue_append ['0'] fraction).trans (Nat.zero_add _)
  have hzero := boundedNumber?_of_toNat? (numeral_iff.2 ⟨h, hvalue⟩)
  have hplus : boundedNumber? ('+' :: fraction) = bounded (digitsValue fraction) :=
    congrArg (Option.bind · bounded) (toNat?_eq_some.2 ⟨hne, hdigits, rfl⟩)
  change Ratio.ofDecimal? [] ('+' :: fraction) = Ratio.ofDecimal? [] ('0' :: fraction)
  rw [Ratio.ofDecimal?, Ratio.ofDecimal?, List.nil_append, List.nil_append, hplus]
  exact congrArg (Option.bind · _) hzero.symm

theorem ofNumeral?_of_readAs {t u : Text} (h : ReadAs t u) (hu : Numeral u) :
    ofNumeral? t = ofNumeral? u := by
  cases h with
  | plain => rfl
  | plus => exact ofNumeral?_plus hu
  | place hne => exact ofNumeral?_place hne hu

theorem computes_ofNumeral? {t u : Text} (h : ReadAs t u) (hu : Numeral u) :
    Computes (ofNumeral? t) (value u) (2 ^ 128 ≤ digitsValue ((parts u).1 ++ (parts u).2) ∨
      2 ^ 128 ≤ 10 ^ (parts u).2.length) := by
  have hread := boundedNumber?_of_toNat? (numeral_iff.2 ⟨hu, rfl⟩)
  have heq : ofNumeral? u =
      checked? (digitsValue ((parts u).1 ++ (parts u).2)) (10 ^ (parts u).2.length) := by
    rw [ofNumeral?, Ratio.ofDecimal?, hread]
    rfl
  have hchecked :=
    computes_checked? (digitsValue ((parts u).1 ++ (parts u).2)) (10 ^ (parts u).2.length)
  rw [or_iff_right (pow_ne_zero _ (by decide)), ← value_eq, ← heq] at hchecked
  rwa [ofNumeral?_of_readAs h hu]

theorem exists_readAs_point {t : Text} {m : ℕ} (h : toNat? (withoutPlus t) = some m) :
    ∃ u, ReadAs ('.' :: t) u ∧ Numeral u := by
  cases t with
  | nil => cases h
  | cons c t =>
    by_cases hsign : c = '+'
    · subst hsign
      obtain ⟨hne, hdigits, -⟩ := toNat?_eq_some.1 h
      refine ⟨_, .place hne, List.cons_ne_nil _ _, List.forall_mem_nil _, ?_⟩
      exact List.forall_mem_cons.2 ⟨by decide, hdigits⟩
    · rw [withoutPlus_cons hsign] at h
      have hnumeral : toNat? ((parts ('.' :: c :: t)).1 ++ (parts ('.' :: c :: t)).2) = some m := h
      exact ⟨_, .plain _, (numeral_iff.1 hnumeral).1⟩

theorem exists_readAs_cons {c : Char} (hpoint : c ≠ '.') {t : Text} {m : ℕ}
    (h : toNat? (withoutPlus (c :: ((parts t).1 ++ (parts t).2))) = some m) :
    ∃ u, ReadAs (c :: t) u ∧ Numeral u := by
  by_cases hsign : c = '+'
  · subst hsign
    exact ⟨_, .plus t, (numeral_iff.1 h).1⟩
  · rw [withoutPlus_cons hsign, ← List.cons_append] at h
    have hnumeral : toNat? ((parts (c :: t)).1 ++ (parts (c :: t)).2) = some m := by
      rw [parts_cons_ne hpoint]
      exact h
    exact ⟨_, .plain _, (numeral_iff.1 hnumeral).1⟩

/-- Only numerals are read. -/
theorem exists_readAs {t : Text} {r : Ratio} (h : ofNumeral? t = some r) :
    ∃ u, ReadAs t u ∧ Numeral u := by
  obtain ⟨n, hread, -⟩ := Option.bind_eq_some_iff.1 h
  obtain ⟨m, hread, -⟩ := Option.bind_eq_some_iff.1 hread
  cases t with
  | nil => cases hread
  | cons c t =>
    by_cases hpoint : c = '.'
    · subst hpoint
      exact exists_readAs_point hread
    · rw [parts_cons_ne hpoint, List.cons_append] at hread
      exact exists_readAs_cons hpoint hread

/-- The coefficient of a term has the value of its numeral. -/
theorem ofDecimal?_of_isDecimal {t whole fraction : Text} (h : IsDecimal t whole fraction) :
    Ratio.ofDecimal? whole fraction = ofNumeral? t := by
  rw [ofNumeral?, parts_of_isDecimal h]

theorem toDecimal?_eq_none {r : Ratio} (hr : r.denominator ≠ 0) :
    r.toDecimal? = none ↔
      (∃ p, p.Prime ∧ p ∣ r.denominator ∧ p ≠ 2 ∧ p ≠ 5) ∨
        2 ^ 128 ≤ 10 ^ places r.denominator ∨
        2 ^ 128 ≤ r.numerator * 10 ^ places r.denominator / r.denominator := by
  have hterminating : Terminating r.denominator ↔
      ¬ ∃ p, p.Prime ∧ p ∣ r.denominator ∧ p ≠ 2 ∧ p ≠ 5 := by
    simp only [Terminating, not_exists, not_and, ne_eq, not_not, or_iff_not_imp_left]
  have hunits : Terminating r.denominator →
      r.numerator * (10 ^ places r.denominator / r.denominator) =
        r.numerator * 10 ^ places r.denominator / r.denominator := fun h =>
    (Nat.mul_div_assoc _ (dvd_ten_pow_places hr h)).symm
  rw [← not_iff_not, ← ne_eq, Option.ne_none_iff_exists', not_or, not_or, ← hterminating, not_le,
    not_le]
  constructor
  · rintro ⟨t, ht⟩
    obtain ⟨hfactors, hscale, hscaled, -⟩ := (toDecimal?_iff hr).1 ht
    exact ⟨hfactors, hscale, hunits hfactors ▸ hscaled⟩
  · rintro ⟨hfactors, hscale, hscaled⟩
    exact ⟨_, (toDecimal?_iff hr).2 ⟨hfactors, hscale, (hunits hfactors).symm ▸ hscaled, rfl⟩⟩

theorem toDecimal?_canonical {r : Ratio} {t : Text} (h : r.toDecimal? = some t) :
    Canonical t ∧ value t = ratioValue r := by
  obtain ⟨units, places, rfl, -, -⟩ := toDecimal?_eq_some h
  obtain ⟨n, fraction, heq, hf, hlast⟩ := exists_withPoint_decimalNumeral units places
  have hcanonical : Canonical (Ratio.decimalNumeral units places) :=
    heq ▸ canonical_withPoint n hf hlast
  refine ⟨hcanonical, ?_⟩
  exact Option.some.inj (hcanonical.isShortest.2.1.symm.trans (decimal?_toDecimal? h))

/-- The decimal of a fraction: when there is none, and that it is the one canonical numeral of
the same value. -/
structure Prints (r : Ratio) : Prop where
  refused : r.toDecimal? = none ↔
    (∃ p, p.Prime ∧ p ∣ r.denominator ∧ p ≠ 2 ∧ p ≠ 5) ∨
      2 ^ 128 ≤ 10 ^ places r.denominator ∨
      2 ^ 128 ≤ r.numerator * 10 ^ places r.denominator / r.denominator
  exact : ∀ t, r.toDecimal? = some t → Canonical t ∧ value t = ratioValue r ∧
    ∀ u, Canonical u → value u = ratioValue r → u = t

theorem prints {r : Ratio} (hr : r.denominator ≠ 0) : Prints r where
  refused := toDecimal?_eq_none hr
  exact t h := by
    obtain ⟨hcanonical, hvalue⟩ := toDecimal?_canonical h
    exact ⟨hcanonical, hvalue, fun u hu heq => hcanonical.unique hu (heq.trans hvalue.symm)⟩

/-- The loops of printing end, the second one where the first one has left off. -/
theorem ends_printing {q : ℕ} (hq : q ≠ 0) (h : q < 2 ^ 128) :
    Ends (divisionRound? 2) CountFits (q, 0) (Ratio.withoutFactor 2 q) ∧
      Ends (divisionRound? 5) CountFits ((Ratio.withoutFactor 2 q).1, 0)
        (Ratio.withoutFactor 5 (Ratio.withoutFactor 2 q).1) := by
  have hodd : (Ratio.withoutFactor 2 q).1 ≠ 0 := withoutFactor_ne_zero hq
  have hle : (Ratio.withoutFactor 2 q).1 ≤ q :=
    Nat.le_of_dvd (Nat.pos_of_ne_zero hq) (Dvd.intro _ (withoutFactor_spec 2 q))
  exact ⟨ends_withoutFactor (by decide) hq h,
    ends_withoutFactor (by decide) hodd (hle.trans_lt h)⟩

/-- The arithmetic is exact. Each operation gives the fraction in lowest terms whose value is the
exact result, or nothing, and nothing only if it divides by zero, reads no numeral or forms a
number that does not fit. A fraction is printed unless its expansion does not end or a number
does not fit, as its one canonical numeral, and the loops on the way end within their bounds. -/
theorem arithmetic_exact :
    (∀ n d, n < 2 ^ 128 → d < 2 ^ 128 →
      Ends euclidRound? PairFits (n, d) (Nat.gcd n d, 0) ∧
        Computes (Ratio.make? n d) (n / d) (d = 0)) ∧
    (∀ t, (∀ u, ReadAs t u → Numeral u → Computes (ofNumeral? t) (value u)
        (2 ^ 128 ≤ digitsValue ((parts u).1 ++ (parts u).2) ∨
          2 ^ 128 ≤ 10 ^ (parts u).2.length)) ∧
      ((∀ u, ReadAs t u → ¬ Numeral u) → ofNumeral? t = none)) ∧
    (∀ t whole fraction, IsDecimal t whole fraction →
      Ratio.ofDecimal? whole fraction = ofNumeral? t) ∧
    (∀ r s, Computes (r.mul? s) (ratioValue r * ratioValue s)
      (r.denominator = 0 ∨ s.denominator = 0 ∨ 2 ^ 128 ≤ r.numerator * s.numerator ∨
        2 ^ 128 ≤ r.denominator * s.denominator)) ∧
    (∀ (r : Ratio) n, r.numerator < 2 ^ 128 → Computes (r.divNat? n) (ratioValue r / n)
      (r.denominator = 0 ∨ n = 0 ∨ 2 ^ 128 ≤ r.denominator * n)) ∧
    ∀ r : Ratio, r.denominator ≠ 0 → r.denominator < 2 ^ 128 →
      Ends (divisionRound? 2) CountFits (r.denominator, 0) (Ratio.withoutFactor 2 r.denominator) ∧
      Ends (divisionRound? 5) CountFits ((Ratio.withoutFactor 2 r.denominator).1, 0)
        (Ratio.withoutFactor 5 (Ratio.withoutFactor 2 r.denominator).1) ∧
      Prints r := by
  refine ⟨?_, ?_, ?_, computes_mul?, ?_, ?_⟩
  · intro n d hn hd
    exact ⟨ends_gcd hn hd, computes_make? hn hd⟩
  · intro t
    refine ⟨fun u h hu => computes_ofNumeral? h hu, fun h => ?_⟩
    refine Option.eq_none_iff_forall_ne_some.2 fun r hr => ?_
    obtain ⟨u, hread, hu⟩ := exists_readAs hr
    exact h u hread hu
  · intro t whole fraction h
    exact ofDecimal?_of_isDecimal h
  · intro r n hr
    exact computes_divNat? hr n
  · intro r hr hfits
    obtain ⟨htwo, hfive⟩ := ends_printing hr hfits
    exact ⟨htwo, hfive, prints hr⟩

theorem arithmetic_exact_fortieth :
    (Ends euclidRound? PairFits (10, 4) (2, 0) ∧
      Computes (Ratio.make? 10 4) ((10 : ℕ) / (4 : ℕ)) (4 = 0)) ∧
    (ofNumeral? "+2.5" = some ⟨5, 2⟩ ∧ IsExact (value "2.5") ⟨5, 2⟩) ∧
    (ofNumeral? ".+5" = some ⟨1, 20⟩ ∧ IsExact (value ".05") ⟨1, 20⟩) ∧
    ofNumeral? "+." = none ∧
    Ratio.ofDecimal? [] ['5'] = ofNumeral? ['.', '5'] ∧
    Computes (Ratio.divNat? ⟨1, 2⟩ 20) (ratioValue ⟨1, 2⟩ / (20 : ℕ))
      (2 = 0 ∨ 20 = 0 ∨ 2 ^ 128 ≤ 2 * 20) ∧
    Ends (divisionRound? 2) CountFits (40, 0) (5, 3) ∧
    Ends (divisionRound? 5) CountFits (5, 0) (1, 1) ∧
    Ratio.toDecimal? ⟨1, 40⟩ = some ("0.025" : Text) ∧
    ∀ u, Canonical u → value u = ratioValue ⟨1, 40⟩ → u = "0.025" := by
  have htwo : Ratio.withoutFactor 2 40 = (5, 3) := by simp [Ratio.withoutFactor]
  have hfive : Ratio.withoutFactor 5 5 = (1, 1) := by simp [Ratio.withoutFactor]
  have hprinted : Ratio.toDecimal? ⟨1, 40⟩ = some ("0.025" : Text) := by
    simp only [Ratio.toDecimal?, htwo, hfive]
    decide
  have hcoefficient : IsDecimal ([] ++ '.' :: ['5']) [] ['5'] :=
    .point (fun c hc => absurd hc List.not_mem_nil) (by decide)
  have hsigned : Numeral "2.5" := ⟨by decide, forall_mem_of_all (by decide),
    forall_mem_of_all (by decide)⟩
  have hplaced : Numeral ".05" := ⟨by decide, forall_mem_of_all (by decide),
    forall_mem_of_all (by decide)⟩
  have hplus : ofNumeral? "+2.5" = some ⟨5, 2⟩ := by decide
  have hplace : ofNumeral? ".+5" = some ⟨1, 20⟩ := by decide
  obtain ⟨hreduce, hnumerals, hread, -, hdivide, hprint⟩ := arithmetic_exact
  obtain ⟨htwos, hfives, hprints⟩ := hprint ⟨1, 40⟩ (by decide) (by decide)
  rw [htwo] at htwos hfives
  rw [hfive] at hfives
  exact ⟨hreduce 10 4 (by decide) (by decide),
    ⟨hplus, ((hnumerals _).1 _ (.plus _) hsigned).exact _ hplus⟩,
    ⟨hplace, ((hnumerals _).1 _ (.place (by decide)) hplaced).exact _ hplace⟩, by decide,
    hread _ _ _ hcoefficient,
    hdivide ⟨1, 2⟩ 20 (by decide), htwos, hfives, hprinted, (hprints.exact _ hprinted).2.2⟩

end AssessmentItems.ExactRatios
