import AssessmentItems.Proofs.FractionClasses

/-!
The class of a mixed number. Only the rule on the layout of formulas sees the text, because
of its slash, and it leaves out the space: the whole number is joined to the numerator. The
rest of the class is the class of the joined fraction, whose value is the one of the mixed
number only by chance.
-/
namespace AssessmentItems.MixedNumbers

open Text OperatorSpacing AnswerRules AnswerClass TextClasses ImplicitProducts Readings
  NumberRules Relations TightTexts DecimalNumerals CoefficientValues FractionClasses
  ShortestNumerals AnswerClosure

def mixed (w n d : Text) : Text := w ++ ' ' :: (n ++ '/' :: d)

section

variable {w n d : Text} (hw : isDigits w = true) (hn : isDigits n = true) (hd : isDigits d = true)
include hw hn hd

theorem mixed_chars : ∀ c ∈ mixed w n d, isDigit c = true ∨ c = ' ' ∨ c = '/' := by
  simp only [mixed, List.forall_mem_append, List.forall_mem_cons]
  refine ⟨fun c hc => ?_, by simp, fun c hc => ?_, by simp, fun c hc => ?_⟩
  · exact Or.inl ((isDigits_iff.1 hw).2 c hc)
  · exact Or.inl ((isDigits_iff.1 hn).2 c hc)
  · exact Or.inl ((isDigits_iff.1 hd).2 c hc)

/-- The digits on both sides of the space are joined. -/
theorem compact_mixed : compact (mixed w n d) = [] ++ (w ++ n) ++ '/' :: d := by
  have hdigits : ∀ {t : Text}, isDigits t = true → compact t = t := fun ht =>
    compact_eq_self fun c hc => isSpace_of_isDigit ((isDigits_iff.1 ht).2 c hc)
  rw [mixed, compact_append, compact_cons_of_isSpace (by decide), compact_append,
    compact_cons_of_not_isSpace (by decide), hdigits hw, hdigits hn, hdigits hd]
  simp

omit hd in
theorem isDigits_joined : isDigits (w ++ n) = true := by
  obtain ⟨hne, hall⟩ := isDigits_iff.1 hw
  refine isDigits_iff.2 ⟨by simp [hne], ?_⟩
  rw [List.forall_mem_append]
  exact ⟨hall, (isDigits_iff.1 hn).2⟩

omit hn in
theorem trim_mixed : trim (mixed w n d) = mixed w n d := by
  obtain ⟨hwne, hwall⟩ := isDigits_iff.1 hw
  obtain ⟨hdne, hdall⟩ := isDigits_iff.1 hd
  refine trim_eq_self (fun c hc => ?_) (fun c hc => ?_)
  · exact isSpace_of_isDigit (hwall c (mem_of_mem_head?_append hwne hc))
  · have hlast : (mixed w n d).getLast? = d.getLast? := by
      have hsplit : mixed w n d = (w ++ ' ' :: n ++ ['/']) ++ d := by simp [mixed]
      rw [hsplit, List.getLast?_append_of_ne_nil _ hdne]
    exact isSpace_of_isDigit (hdall c (List.mem_of_getLast? (hlast ▸ hc)))

/-- No rule on numbers reads a text with a space between digits. -/
theorem numberVariants_mixed : numberVariants (mixed w n d) = [] := by
  refine List.eq_nil_iff_forall_not_mem.2 fun m hm => ?_
  have hspace : ' ' ∈ mixed w n d := by simp [mixed]
  have htrim := trim_mixed (n := n) hw hd
  rcases numberVariants_cases hm with hall | ⟨k, hk, ht⟩ | ⟨p, hp, ht⟩
  · rw [htrim] at hall
    rcases hall ' ' hspace with h | h
    · exact absurd h (by decide)
    · exact absurd h (by decide)
  · rw [htrim] at ht
    rcases coefficient_chars hk ht hspace with h | h | h
    · exact absurd h (by decide)
    · exact absurd h (by decide)
    · exact absurd h (by decide)
  · rw [htrim] at ht
    have hsymbol : ∃ c ∈ mixed w n d, c = 'π' ∨ c = 'p' := by
      rcases hp.symbol with hs | hs
      · exact ⟨'π', by simp [ht, hs], Or.inl rfl⟩
      · exact ⟨'p', by simp [ht, hs], Or.inr rfl⟩
    obtain ⟨c, hc, hsymbol⟩ := hsymbol
    have hchar := mixed_chars hw hn hd c hc
    rcases hsymbol with rfl | rfl
    · exact absurd hchar (by decide)
    · exact absurd hchar (by decide)

/-- A mixed number implies the joined fraction and nothing else. -/
theorem mem_variants_mixed {m : Text} :
    m ∈ variants (mixed w n d) ↔ m = compact (mixed w n d) := by
  have hchars := mixed_chars hw hn hd
  have hsign : ∀ c ∈ mixed w n d, isRelationSign c = false := by
    intro c hc
    by_contra hsign
    have hchar := hchars c hc
    rcases relationSign_cases (by simpa using hsign) with rfl | rfl | rfl | rfl | rfl <;>
      exact absurd hchar (by decide)
  have hstar : '*' ∉ mixed w n d := fun h => absurd (hchars _ h) (by decide)
  have hspaced : spaced (mixed w n d) = compact (mixed w n d) := by
    rw [← FormulaLayout.spaced_compact, compact_mixed hw hn hd]
    exact (tight_fraction (Or.inl rfl) (isDigits_joined hw hn) hd).spaced_eq
  have hslash : (mixed w n d).any (· ∈ ("()=+-*/^" : Text)) = true :=
    List.any_eq_true.2 ⟨'/', by simp [mixed], by decide⟩
  obtain ⟨hinequality, hequation⟩ := relation_rules_eq_nil hsign
  rw [NumberRules.mem_variants, numberVariants_mixed hw hn hd, hinequality, hequation,
    algebraicSpacing, if_pos hslash, hspaced, mem_implicitMultiplication,
    implicitProducts_eq_self (Or.inl hstar)]
  simp

/-- Beside the mixed number itself, its class is the one of the joined fraction. -/
theorem mem_expand_mixed {m : Text} : m ∈ expand (mixed w n d) ↔
    m = mixed w n d ∨ m ∈ fractionClass ([] ++ (w ++ n) ++ '/' :: d) := by
  have hjoined := isDigits_joined hw hn
  have hcompact := compact_mixed hw hn hd
  rw [← List.mem_cons]
  refine mem_expand_of_list List.mem_cons_self ?_ ?_ ?_
  · intro u hu m hm _
    rcases List.mem_cons.1 hu with rfl | hu
    · rw [(mem_variants_mixed hw hn hd).1 hm, hcompact]
      exact List.mem_cons_of_mem _ List.mem_cons_self
    · exact List.mem_cons_of_mem _ (fractionClass_closed (Or.inl rfl) hjoined hd u hu m hm)
  · intro u hu
    rcases List.mem_cons.1 hu with rfl | hu
    · exact mem_closure_self _
    · have hstep : [] ++ (w ++ n) ++ '/' :: d ∈ closure (mixed w n d) :=
        closed_closure _ _ (mem_closure_self _) _
          ((mem_variants_mixed hw hn hd).2 hcompact.symm) (by simp)
      exact closure_mono hstep (fractionClass_derived _ u hu)
  · have hlength := length_fractionClass_le ([] ++ (w ++ n) ++ '/' :: d)
    rw [List.length_cons]
    exact (Nat.succ_le_succ hlength).trans (by decide)

end

section

variable {w n d : Text} {a b c : ℕ} (hw : toNat? w = some a) (hn : toNat? n = some b)
  (hd : toNat? d = some c)
include hw hn hd

omit hd in
/-- A mixed number is neither a decimal nor a fraction. -/
theorem numberOf?_mixed : numberOf? (mixed w n d) = none := by
  have hrun : ∀ e ∈ w ++ ' ' :: n, decide (e ≠ '/') = true := by
    simp only [List.forall_mem_append, List.forall_mem_cons]
    refine ⟨fun e he => ?_, by decide, fun e he => ?_⟩
    · have hdigit := isDigit_of_isPlainDigit ((toNat?_eq_some.1 hw).2.1 e he)
      exact decide_eq_true (ne_of_isDigit hdigit (by decide))
    · have hdigit := isDigit_of_isPlainDigit ((toNat?_eq_some.1 hn).2.1 e he)
      exact decide_eq_true (ne_of_isDigit hdigit (by decide))
  have hstop : ∀ e ∈ ('/' :: d).head?, decide (e ≠ '/') = false := by
    rintro _ ⟨⟩
    rfl
  have hsplit : mixed w n d = w ++ ' ' :: n ++ '/' :: d := by simp [mixed]
  have hhead : ∀ e ∈ (mixed w n d).head?, e ≠ '-' := fun e he =>
    (unmarked_digits (isDigits_of_toNat? hw) e he).1
  have hspace : toNat? (w ++ ' ' :: n) = none := by
    rw [Option.eq_none_iff_forall_ne_some]
    intro k hk
    exact absurd ((toNat?_eq_some.1 hk).2.1 ' ' (by simp)) (by decide)
  have hquotient : quotient? (mixed w n d) = none := by
    simp only [quotient?, hsplit, takeWhile_run hrun hstop, dropWhile_run hrun hstop, hspace, bind,
      Option.bind_none]
  have hnumber := numberOf?_append (Or.inl rfl) hhead
  rw [List.nil_append, if_pos (by simp [mixed]), hquotient, Option.map_none] at hnumber
  exact hnumber

omit hd in
theorem toNat?_joined : toNat? (w ++ n) = some (10 ^ n.length * a + b) := by
  obtain ⟨hne, hwall, hwvalue⟩ := toNat?_eq_some.1 hw
  obtain ⟨-, hnall, hnvalue⟩ := toNat?_eq_some.1 hn
  refine toNat?_eq_some.2 ⟨by simp [hne], ?_, by rw [digitsValue_append, hwvalue, hnvalue]⟩
  rw [List.forall_mem_append]
  exact ⟨hwall, hnall⟩

/-- Every number in the class has the value of the joined fraction, which is there. -/
theorem numbers_of_mixed (hc : c ≠ 0) :
    (∀ m ∈ expand (mixed w n d), ∀ x, numberOf? m = some x →
      x = ((10 ^ n.length * a + b : ℕ) : ℚ) / c) ∧
    ∃ m ∈ expand (mixed w n d), numberOf? m = some (((10 ^ n.length * a + b : ℕ) : ℚ) / c) := by
  have hclass : ∀ m, m ∈ expand (mixed w n d) ↔
      m = mixed w n d ∨ m ∈ fractionClass ([] ++ (w ++ n) ++ '/' :: d) := fun m =>
    mem_expand_mixed (isDigits_of_toNat? hw) (isDigits_of_toNat? hn) (isDigits_of_toNat? hd)
  have hvalue : ∀ m ∈ fractionClass ([] ++ (w ++ n) ++ '/' :: d),
      numberOf? m = some (((10 ^ n.length * a + b : ℕ) : ℚ) / c) := fun m hm =>
    numberOf?_fractionClass (Or.inl rfl) (toNat?_joined hw hn) hd hc hm
  constructor
  · intro m hm x hx
    rcases (hclass m).1 hm with rfl | hm
    · rw [numberOf?_mixed hw hn] at hx
      cases hx
    · rw [hvalue m hm, Option.some.injEq] at hx
      exact hx.symm
  · exact ⟨_, (hclass _).2 (Or.inr List.mem_cons_self), hvalue _ List.mem_cons_self⟩

omit hw hn hd in
/-- When joining a whole number to the numerator keeps the value. -/
theorem joined_value_iff {scale : ℕ} (hc : c ≠ 0) :
    ((scale * a + b : ℕ) : ℚ) / c = a + b / c ↔ a = 0 ∨ c = scale := by
  have hne : (c : ℚ) ≠ 0 := Nat.cast_ne_zero.2 hc
  have hsum : (a : ℚ) + b / c = ((c * a + b : ℕ) : ℚ) / c := by
    push_cast
    field_simp
  rw [hsum, div_left_inj' hne, Nat.cast_inj, Nat.add_right_cancel_iff]
  constructor
  · intro h
    rcases Nat.eq_zero_or_pos a with hzero | hpos
    · exact Or.inl hzero
    · exact Or.inr (Nat.eq_of_mul_eq_mul_right hpos h).symm
  · rintro (rfl | rfl)
    · simp
    · rfl

end

/-- The numbers in the class of a mixed number have its value exactly if its whole number is
zero, or the denominator is the power of ten that the joined digits are shifted by. -/
theorem mixed_kept_iff (w n d : Text) (a b c : ℕ) (hw : toNat? w = some a) (hn : toNat? n = some b)
    (hd : toNat? d = some c) (hc : c ≠ 0) :
    (∀ m ∈ expand (w ++ ' ' :: (n ++ '/' :: d)), ∀ x, numberOf? m = some x → x = a + b / c) ↔
      a = 0 ∨ c = 10 ^ n.length := by
  obtain ⟨hall, m, hm, hvalue⟩ := numbers_of_mixed hw hn hd hc
  rw [← joined_value_iff hc]
  constructor
  · exact fun hkept => hkept m hm _ hvalue
  · intro heq m hm x hx
    rw [← heq]
    exact hall m hm x hx

theorem mixed_kept_five_tenths :
    toNat? "1" = some 1 ∧ toNat? "5" = some 5 ∧ toNat? "10" = some 10 ∧
      ∀ m ∈ expand "1 5/10", ∀ x, numberOf? m = some x → x = (1 : ℕ) + (5 : ℕ) / (10 : ℕ) :=
  ⟨by decide, by decide, by decide, (mixed_kept_iff "1" "5" "10" 1 5 10 (by decide) (by decide)
    (by decide) (by decide)).2 (Or.inr rfl)⟩

/-- One and a half becomes eleven halves. -/
theorem mixed_lost_one_half :
    ¬ ∀ m ∈ expand "1 1/2", ∀ x, numberOf? m = some x → x = (1 : ℕ) + (1 : ℕ) / (2 : ℕ) := by
  intro hkept
  obtain ⟨-, m, hm, hvalue⟩ := numbers_of_mixed (w := "1") (n := "1") (d := "2") (a := 1) (b := 1)
    (c := 2) (by decide) (by decide) (by decide) (by decide)
  rcases (joined_value_iff (by decide)).1 (hkept m hm _ hvalue) with h | h
  · exact absurd h (by decide)
  · exact absurd h (by decide)

end AssessmentItems.MixedNumbers
