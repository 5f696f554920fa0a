import AssessmentItems.Ratio
import AssessmentItems.Proofs.TextClasses
import Mathlib.Algebra.Order.Field.Rat
import Mathlib.Data.List.TakeWhile
import Mathlib.Data.Nat.Cast.Field
import Mathlib.Data.Rat.Cast.CharZero
import Mathlib.Tactic.FieldSimp
import Mathlib.Tactic.Ring

/-!
The decimal numerals as rational numbers. A numeral is read by its digits before and after
the point, apart from the arithmetic that prints it, and the numeral of a fraction is read
as the fraction. It begins with a zero only before the point or as the zero itself.
-/
namespace AssessmentItems.DecimalNumerals

open Text TextClasses

def digitsValue (t : Text) : ℕ := Nat.ofDigitChars 10 t 0

theorem digitsValue_append (t u : Text) :
    digitsValue (t ++ u) = 10 ^ u.length * digitsValue t + digitsValue u := by
  rw [digitsValue, Nat.ofDigitChars_append, Nat.ofDigitChars_eq_ofDigitChars_zero]
  rfl

@[simp] theorem digitsValue_zeros (n : ℕ) : digitsValue (List.replicate n '0') = 0 := by
  simp [digitsValue]

@[simp] theorem digitsValue_ofNat (n : ℕ) : digitsValue (ofNat n) = n :=
  Nat.ofDigitChars_ten_toDigits

theorem isPlainDigit_of_mem_ofNat {n : ℕ} {c : Char} (h : c ∈ ofNat n) :
    isPlainDigit c = true := by
  have hdigit := Nat.isDigit_of_mem_toDigits (by decide) (by decide) h
  simpa [isPlainDigit, Char.isDigit, Char.le_def, UInt32.le_iff_toNat_le] using hdigit

theorem ofNat_ne_nil (n : ℕ) : ofNat n ≠ [] := Nat.toDigits_ne_nil

theorem toNat?_eq_some {t : Text} {n : ℕ} :
    toNat? t = some n ↔ t ≠ [] ∧ (∀ c ∈ t, isPlainDigit c = true) ∧ digitsValue t = n := by
  simp only [toNat?]
  split_ifs with h
  · have hall := List.all_eq_true.1 h.2
    simp only [Option.some.injEq, digitsValue]
    exact ⟨fun hn => ⟨h.1, hall, hn⟩, fun hn => hn.2.2⟩
  · constructor
    · intro hn
      cases hn
    · exact fun hn => absurd ⟨hn.1, List.all_eq_true.2 hn.2.1⟩ h

theorem withoutPlus_cons {c : Char} (h : c ≠ '+') (t : Text) : withoutPlus (c :: t) = c :: t := by
  unfold withoutPlus
  split
  · next heq => exact absurd (List.cons.inj heq).1 h
  · rfl

theorem withoutPlus_eq_self {t : Text} (h : '+' ∉ t) : withoutPlus t = t := by
  cases t with
  | nil => rfl
  | cons c t => exact withoutPlus_cons (fun hc => h (hc ▸ List.mem_cons_self)) t

theorem boundedNumber?_of_toNat? {t : Text} {n : ℕ} (h : toNat? t = some n) :
    boundedNumber? t = bounded n := by
  have hplus : '+' ∉ t := fun hmem => absurd ((toNat?_eq_some.1 h).2.1 '+' hmem) (by decide)
  rw [boundedNumber?, withoutPlus_eq_self hplus, h, Option.bind_some]

theorem digitsValue_lt {t : Text} (h : ∀ c ∈ t, isPlainDigit c = true) :
    digitsValue t < 10 ^ t.length := by
  induction t with
  | nil => decide
  | cons c t ih =>
    have hc : c.toNat ≤ 57 := by
      have := h c List.mem_cons_self
      simp only [isPlainDigit, Bool.and_eq_true, decide_eq_true_eq] at this
      exact this.2
    have ht := ih fun d hd => h d (List.mem_cons_of_mem _ hd)
    have hvalue := digitsValue_append [c] t
    have hdigit : digitsValue [c] = c.toNat - 48 := by simp [digitsValue, Nat.ofDigitChars_cons]
    rw [List.singleton_append, hdigit] at hvalue
    rw [hvalue, List.length_cons, Nat.pow_succ]
    have hle : 10 ^ t.length * (c.toNat - 48) ≤ 10 ^ t.length * 9 :=
      Nat.mul_le_mul_left _ (by omega)
    omega

/-- A numeral begins with a zero only if it is the numeral of zero. -/
theorem ofNat_cons_zero {n : ℕ} {rest : Text} (h : ofNat n = '0' :: rest) :
    n = 0 ∧ rest = [] := by
  have hrest : ∀ c ∈ rest, isPlainDigit c = true := fun c hc =>
    isPlainDigit_of_mem_ofNat (n := n) (h ▸ List.mem_cons_of_mem _ hc)
  have hvalue : digitsValue rest = n := by
    have happend := digitsValue_append ['0'] rest
    rw [List.singleton_append, ← h, digitsValue_ofNat] at happend
    simpa [digitsValue, Nat.ofDigitChars_cons] using happend.symm
  have hlt := digitsValue_lt hrest
  rw [hvalue] at hlt
  cases rest with
  | nil => exact ⟨by simpa using hlt, rfl⟩
  | cons c rest =>
    have hlength : (ofNat n).length ≤ (c :: rest).length :=
      (Nat.length_toDigits_le_iff (by decide) (by simp)).2 hlt
    rw [h] at hlength
    simp at hlength

/-- The value of digits with or without a point; there are digits after a point. -/
def decimal? (t : Text) : Option ℚ :=
  match t.dropWhile (· ≠ '.') with
  | [] => (toNat? t).map fun n : ℕ => (n : ℚ)
  | _ :: fraction =>
    let whole := t.takeWhile (· ≠ '.')
    if whole.all isPlainDigit then
      (toNat? fraction).map fun n : ℕ => (digitsValue whole : ℚ) + n / 10 ^ fraction.length
    else none

theorem ne_point {t : Text} (h : ∀ c ∈ t, isPlainDigit c = true) :
    ∀ c ∈ t, decide (c ≠ '.') = true := by
  rintro c hc
  rw [decide_eq_true_eq]
  rintro rfl
  exact absurd (h _ hc) (by decide)

theorem decimal?_digits {t : Text} {n : ℕ} (h : toNat? t = some n) :
    decimal? t = some (n : ℚ) := by
  have hall := (toNat?_eq_some.1 h).2.1
  have hdrop : t.dropWhile (· ≠ '.') = [] := by
    rw [List.dropWhile_eq_nil_iff]
    exact ne_point hall
  simp only [decimal?, hdrop, h, Option.map_some]

theorem decimal?_point {whole fraction : Text} {n : ℕ}
    (hwhole : ∀ c ∈ whole, isPlainDigit c = true) (hfraction : toNat? fraction = some n) :
    decimal? (whole ++ '.' :: fraction) =
      some ((digitsValue whole : ℚ) + n / 10 ^ fraction.length) := by
  have hdrop : (whole ++ '.' :: fraction).dropWhile (· ≠ '.') = '.' :: fraction := by
    rw [List.dropWhile_append_of_pos (ne_point hwhole)]
    rfl
  have htake : (whole ++ '.' :: fraction).takeWhile (· ≠ '.') = whole := by
    rw [List.takeWhile_append_of_pos (ne_point hwhole)]
    simp
  simp only [decimal?, hdrop, htake]
  rw [if_pos (List.all_eq_true.2 hwhole), hfraction, Option.map_some]

/-- What is cut off from the end of the digits is zeros. -/
theorem exists_zeros (t : Text) :
    ∃ zeros, t = (t.reverse.dropWhile (· = '0')).reverse ++ List.replicate zeros '0' := by
  have hzeros : ∀ c ∈ t.reverse.takeWhile (· = '0'), c = '0' := fun c hc => by
    simpa using List.mem_takeWhile_imp hc
  refine ⟨(t.reverse.takeWhile (· = '0')).length, ?_⟩
  have hsplit := congrArg List.reverse
    (List.takeWhile_append_dropWhile (p := (· = '0')) (l := t.reverse))
  rw [List.reverse_append, List.reverse_reverse] at hsplit
  rw [← List.reverse_replicate, ← List.eq_replicate_of_mem hzeros]
  exact hsplit.symm

theorem digitsValue_leftpad (n : ℕ) (t : Text) : digitsValue (t.leftpad n '0') = digitsValue t := by
  rw [List.leftpad, digitsValue_append, digitsValue_zeros]
  simp

/-- The two shapes of a printed decimal: without a rest there is no point, and otherwise
the digits after the point are the rest without the zeros at its end. -/
theorem decimalNumeral_cases (n places : ℕ) :
    (n % 10 ^ places = 0 ∧ Ratio.decimalNumeral n places = ofNat (n / 10 ^ places)) ∨
    ∃ fraction zeros, toNat? fraction = some (digitsValue fraction) ∧
      Ratio.decimalNumeral n places = ofNat (n / 10 ^ places) ++ '.' :: fraction ∧
      fraction.length + zeros = places ∧
      10 ^ zeros * digitsValue fraction = n % 10 ^ places := by
  by_cases hrest : n % 10 ^ places = 0
  · exact Or.inl ⟨hrest, by simp [Ratio.decimalNumeral, hrest]⟩
  · right
    have hlt : n % 10 ^ places < 10 ^ places := Nat.mod_lt _ (Nat.pow_pos (by decide))
    have hplaces : 0 < places := by
      rcases Nat.eq_zero_or_pos places with rfl | hpos
      · exact absurd (Nat.mod_one n) hrest
      · exact hpos
    have hlength : (ofNat (n % 10 ^ places)).length ≤ places :=
      (Nat.length_toDigits_le_iff (by decide) hplaces).2 hlt
    obtain ⟨zeros, hzeros⟩ := exists_zeros ((ofNat (n % 10 ^ places)).leftpad places '0')
    have hvalue := digitsValue_leftpad places (ofNat (n % 10 ^ places))
    have hpadded : ((ofNat (n % 10 ^ places)).leftpad places '0').length = places := by
      rw [List.length_leftpad]
      omega
    have hdigits : ∀ c ∈ (ofNat (n % 10 ^ places)).leftpad places '0', isPlainDigit c = true := by
      intro c hc
      rcases List.mem_append.1 hc with hc | hc
      · rw [List.eq_of_mem_replicate hc]
        decide
      · exact isPlainDigit_of_mem_ofNat hc
    have hnumeral : Ratio.decimalNumeral n places = ofNat (n / 10 ^ places) ++ '.' ::
        (((ofNat (n % 10 ^ places)).leftpad places '0').reverse.dropWhile (· = '0')).reverse := by
      simp [Ratio.decimalNumeral, hrest]
    generalize ((ofNat (n % 10 ^ places)).leftpad places '0') = digits at *
    generalize (digits.reverse.dropWhile (· = '0')).reverse = fraction at *
    rw [hzeros, digitsValue_append, digitsValue_zeros, digitsValue_ofNat, List.length_replicate,
      Nat.add_zero] at hvalue
    refine ⟨fraction, zeros, toNat?_eq_some.2 ⟨?_, ?_, rfl⟩, hnumeral, ?_, hvalue⟩
    · rintro rfl
      exact hrest (by simpa [digitsValue] using hvalue.symm)
    · exact fun c hc => hdigits c (hzeros ▸ List.mem_append_left _ hc)
    · rw [hzeros] at hpadded
      simpa using hpadded

theorem decimal?_decimalNumeral (n places : ℕ) :
    decimal? (Ratio.decimalNumeral n places) = some ((n : ℚ) / 10 ^ places) := by
  have hwhole : ∀ c ∈ ofNat (n / 10 ^ places), isPlainDigit c = true :=
    fun c hc => isPlainDigit_of_mem_ofNat hc
  have hscale : (10 : ℚ) ^ places ≠ 0 := pow_ne_zero _ (by norm_num)
  have hdivmod : (n : ℚ) = 10 ^ places * (n / 10 ^ places : ℕ) + (n % 10 ^ places : ℕ) := by
    exact_mod_cast (Nat.div_add_mod n (10 ^ places)).symm
  rcases decimalNumeral_cases n places with ⟨hrest, h⟩ | ⟨fraction, zeros, hfraction, h, hlen, hv⟩
  · have hdigits := toNat?_eq_some.2 ⟨ofNat_ne_nil (n / 10 ^ places), hwhole, digitsValue_ofNat _⟩
    rw [h, decimal?_digits hdigits, hdivmod, hrest]
    field_simp
    simp
  · rw [h, decimal?_point hwhole hfraction, digitsValue_ofNat, hdivmod, ← hv,
      Nat.cast_mul, Nat.cast_pow]
    generalize ((n / 10 ^ places : ℕ) : ℚ) = whole
    generalize (digitsValue fraction : ℚ) = rest
    have hfactor : (10 : ℚ) ^ places * whole + (10 : ℕ) ^ zeros * rest =
        (10 ^ fraction.length * whole + rest) * 10 ^ zeros := by
      rw [← hlen]
      push_cast
      ring
    rw [hfactor, ← hlen, pow_add,
      mul_div_mul_right _ _ (pow_ne_zero _ (by norm_num)), add_div,
      mul_div_cancel_left₀ _ (pow_ne_zero _ (by norm_num))]

theorem withoutFactor_spec (p n : ℕ) :
    (Ratio.withoutFactor p n).1 * p ^ (Ratio.withoutFactor p n).2 = n := by
  fun_induction Ratio.withoutFactor p n with
  | case1 n h rest count heq ih =>
    rw [heq] at ih
    simp only at ih ⊢
    rw [Nat.pow_succ, ← Nat.mul_assoc, ih]
    exact Nat.div_mul_cancel (Nat.dvd_of_mod_eq_zero h.2.2)
  | case2 n h => simp

theorem withoutFactor_ne_zero {p n : ℕ} (hn : n ≠ 0) : (Ratio.withoutFactor p n).1 ≠ 0 := by
  intro hzero
  have hspec := withoutFactor_spec p n
  rw [hzero, Nat.zero_mul] at hspec
  exact hn hspec.symm

theorem bounded_eq_some {n m : ℕ} (h : bounded n = some m) : m = n := by
  simp only [bounded] at h
  split_ifs at h
  exact (Option.some.inj h).symm

/-- The printed numeral has as many places as the larger exponent of 2 and 5, and its
units are a whole number because the denominator has no other factor. -/
theorem toDecimal?_eq_some {r : Ratio} {t : Text} (h : r.toDecimal? = some t) :
    ∃ units places, t = Ratio.decimalNumeral units places ∧ r.denominator ≠ 0 ∧
      units * r.denominator = r.numerator * 10 ^ places := by
  simp only [Ratio.toDecimal?] at h
  have htwos := withoutFactor_spec 2 r.denominator
  have hfives := withoutFactor_spec 5 (Ratio.withoutFactor 2 r.denominator).1
  generalize Ratio.withoutFactor 2 r.denominator = odd at *
  generalize Ratio.withoutFactor 5 odd.1 = rest at *
  split_ifs at h with hrest
  simp only [bind, Option.bind_eq_some_iff, Option.some.injEq] at h
  obtain ⟨scale, hscale, units, hunits, rfl⟩ := h
  have hscale := bounded_eq_some hscale
  have hunits := bounded_eq_some hunits
  have hrest : rest.1 = 1 := of_not_not hrest
  rw [hrest, Nat.one_mul] at hfives
  rw [← hfives] at htwos
  have hdvd : r.denominator ∣ 10 ^ max odd.2 rest.2 := by
    rw [← htwos, show 10 = 5 * 2 from rfl, Nat.mul_pow]
    exact Nat.mul_dvd_mul (Nat.pow_dvd_pow 5 (Nat.le_max_right _ _))
      (Nat.pow_dvd_pow 2 (Nat.le_max_left _ _))
  refine ⟨units, max odd.2 rest.2, rfl, ?_, ?_⟩
  · rw [← htwos]
    exact Nat.mul_ne_zero (Nat.pow_pos (by decide)).ne' (Nat.pow_pos (by decide)).ne'
  · rw [hunits, hscale, Nat.mul_assoc]
    exact congrArg _ (Nat.div_mul_cancel hdvd)

def ratioValue (r : Ratio) : ℚ := r.numerator / r.denominator

/-- The printed numeral denotes the fraction. -/
theorem decimal?_toDecimal? {r : Ratio} {t : Text} (h : r.toDecimal? = some t) :
    decimal? t = some (ratioValue r) := by
  obtain ⟨units, places, rfl, hne, hunits⟩ := toDecimal?_eq_some h
  have hden : (r.denominator : ℚ) ≠ 0 := Nat.cast_ne_zero.2 hne
  have hscale : (10 : ℚ) ^ places ≠ 0 := pow_ne_zero _ (by norm_num)
  rw [decimal?_decimalNumeral, ratioValue, Option.some.injEq, div_eq_div_iff hscale hden]
  exact_mod_cast hunits

theorem make?_value {n d : ℕ} {r : Ratio} (h : Ratio.make? n d = some r) :
    d ≠ 0 ∧ ratioValue r = n / d := by
  simp only [Ratio.make?] at h
  split_ifs at h with hd
  cases h
  exact ⟨hd, Nat.cast_div_div_div_cancel_right (Nat.gcd_dvd_right n d) (Nat.gcd_dvd_left n d)⟩

/-- The shape of a printed numeral: digits, or digits, a point and digits. -/
theorem toDecimal?_shape {r : Ratio} {t : Text} (h : r.toDecimal? = some t) :
    ∃ whole, t = ofNat whole ∨
      ∃ fraction, toNat? fraction = some (digitsValue fraction) ∧
        t = ofNat whole ++ '.' :: fraction := by
  obtain ⟨units, places, rfl, -, -⟩ := toDecimal?_eq_some h
  rcases decimalNumeral_cases units places with ⟨-, h⟩ | ⟨fraction, -, hfraction, h, -⟩
  · exact ⟨_, Or.inl h⟩
  · exact ⟨_, Or.inr ⟨fraction, hfraction, h⟩⟩

theorem toDecimal?_chars {r : Ratio} {t : Text} (h : r.toDecimal? = some t) :
    ∀ c ∈ t, isPlainDigit c = true ∨ c = '.' := by
  intro c hc
  obtain ⟨whole, rfl | ⟨fraction, hfraction, rfl⟩⟩ := toDecimal?_shape h
  · exact Or.inl (isPlainDigit_of_mem_ofNat hc)
  · rcases List.mem_append.1 hc with hc | hc
    · exact Or.inl (isPlainDigit_of_mem_ofNat hc)
    · rcases List.mem_cons.1 hc with rfl | hc
      · exact Or.inr rfl
      · exact Or.inl ((toNat?_eq_some.1 hfraction).2.1 c hc)

/-- A printed numeral that begins with a zero is the zero, or keeps its value without
that zero. -/
theorem toDecimal?_cons_zero {r : Ratio} {bare : Text} (h : r.toDecimal? = some ('0' :: bare)) :
    (bare = [] ∧ ratioValue r = 0) ∨ (bare ≠ [] ∧ decimal? bare = some (ratioValue r)) := by
  have hvalue := decimal?_toDecimal? h
  obtain ⟨whole, ht | ⟨fraction, hfraction, ht⟩⟩ := toDecimal?_shape h
  · obtain ⟨-, rfl⟩ := ofNat_cons_zero ht.symm
    have hzero : decimal? ['0'] = some ((0 : ℕ) : ℚ) := decimal?_digits (by decide)
    rw [hzero, Option.some.injEq] at hvalue
    exact Or.inl ⟨rfl, by rw [← hvalue, Nat.cast_zero]⟩
  · cases hwhole : ofNat whole with
    | nil => exact absurd hwhole (ofNat_ne_nil whole)
    | cons c rest =>
      rw [hwhole, List.cons_append, List.cons.injEq] at ht
      obtain ⟨rfl, rfl⟩ := ht
      obtain ⟨-, rfl⟩ := ofNat_cons_zero hwhole
      refine Or.inr ⟨by simp, ?_⟩
      rw [← hvalue]
      have hnil : ∀ c ∈ ([] : Text), isPlainDigit c = true := by simp
      have hzero : ∀ c ∈ ['0'], isPlainDigit c = true := forall_mem_of_all (by decide)
      have hbare := decimal?_point hnil hfraction
      have hfull := decimal?_point hzero hfraction
      rw [List.nil_append] at hbare ⊢
      rw [hbare, show '0' :: '.' :: fraction = ['0'] ++ '.' :: fraction from rfl, hfull]
      rfl

end AssessmentItems.DecimalNumerals
