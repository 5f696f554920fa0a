import AssessmentItems.Proofs.AnswerClosure
import AssessmentItems.Proofs.Relations

/-!
The class of a relation. A formula with one sign of equality or comparison is accepted
from both sides, in both spellings of the sign, tight or spaced, and with or without the
stars of its products; nothing else joins its class. The rules on numbers never fire,
since no number has such a sign.
-/
namespace AssessmentItems.RelationClasses

open Text OperatorSpacing AnswerRules AnswerClass TextClasses FormulaLayout ImplicitProducts
  NumberRules Relations AnswerClosure

/-- A relation and the same relation seen from its other side, in every spelling. -/
def readings (left : Text) (sign : Sign) (right : Text) : List Text :=
  sign.spellings.map (left ++ · ++ right) ++ sign.flip.spellings.map (right ++ · ++ left)

def forms (left : Text) (sign : Sign) (right : Text) : List Text :=
  sign.spellings.flatMap (relationForms left · right) ++
    sign.flip.spellings.flatMap (relationForms right · left)

theorem mem_readings {m left right : Text} {sign : Sign} :
    m ∈ readings left sign right ↔ (∃ s ∈ sign.spellings, m = left ++ s ++ right) ∨
      ∃ s ∈ sign.flip.spellings, m = right ++ s ++ left := by
  simp only [readings, List.mem_append, List.mem_map, eq_comm]

theorem mem_forms {m left right : Text} {sign : Sign} :
    m ∈ forms left sign right ↔ ∃ t ∈ readings left sign right, m = t ∨ m = spaced t := by
  simp only [forms, relationForms, List.mem_append, List.mem_flatMap, List.mem_cons,
    List.not_mem_nil, or_false, mem_readings]
  constructor
  · rintro (⟨s, hs, hm⟩ | ⟨s, hs, hm⟩)
    · exact ⟨_, Or.inl ⟨s, hs, rfl⟩, hm⟩
    · exact ⟨_, Or.inr ⟨s, hs, rfl⟩, hm⟩
  · rintro ⟨t, ⟨s, hs, rfl⟩ | ⟨s, hs, rfl⟩, hm⟩
    · exact Or.inl ⟨s, hs, hm⟩
    · exact Or.inr ⟨s, hs, hm⟩

theorem mem_forms_flip {m left right : Text} {sign : Sign} :
    m ∈ forms right sign.flip left ↔ m ∈ forms left sign right := by
  simp only [mem_forms, mem_readings, Sign.flip_flip, or_comm]

theorem length_spellings_le (sign : Sign) : sign.spellings.length ≤ 2 := by
  cases sign with
  | equal => decide
  | comparison op => cases op <;> decide

theorem length_forms_le (left : Text) (sign : Sign) (right : Text) :
    (forms left sign right).length ≤ 8 := by
  have h := length_spellings_le sign
  have hflip := length_spellings_le sign.flip
  have hmap : ∀ (a b : Text) (ss : List Text),
      (ss.flatMap (relationForms a · b)).length = 2 * ss.length := by
    intro a b ss
    induction ss with
    | nil => rfl
    | cons s ss ih =>
      have hlen : (relationForms a s b).length = 2 := rfl
      rw [List.flatMap_cons, List.length_append, ih, hlen, List.length_cons]
      omega
  rw [forms, List.length_append, hmap, hmap]
  omega

section

variable {t left right : Text} {sign : Sign}

theorem mem_readings_implicitProducts {m : Text} :
    m ∈ readings (implicitProducts left) sign (implicitProducts right) ↔
      ∃ r ∈ readings left sign right, m = implicitProducts r := by
  simp only [mem_readings]
  constructor
  · rintro (⟨s, hs, rfl⟩ | ⟨s, hs, rfl⟩)
    · exact ⟨_, Or.inl ⟨s, hs, rfl⟩, (implicitProducts_relation hs _ _).symm⟩
    · exact ⟨_, Or.inr ⟨s, hs, rfl⟩, (implicitProducts_relation hs _ _).symm⟩
  · rintro ⟨_, ⟨s, hs, rfl⟩ | ⟨s, hs, rfl⟩, rfl⟩
    · exact Or.inl ⟨s, hs, implicitProducts_relation hs _ _⟩
    · exact Or.inr ⟨s, hs, implicitProducts_relation hs _ _⟩

theorem implicitProducts_mem_forms (h : t ∈ forms left sign right) :
    implicitProducts t ∈ forms (implicitProducts left) sign (implicitProducts right) := by
  obtain ⟨r, hr, ht⟩ := mem_forms.1 h
  refine mem_forms.2 ⟨implicitProducts r, ?_, ?_⟩
  · rcases mem_readings.1 hr with ⟨s, hs, rfl⟩ | ⟨s, hs, rfl⟩
    · exact mem_readings.2 (Or.inl ⟨s, hs, implicitProducts_relation hs _ _⟩)
    · exact mem_readings.2 (Or.inr ⟨s, hs, implicitProducts_relation hs _ _⟩)
  · rcases ht with rfl | rfl
    · exact Or.inl rfl
    · exact Or.inr (implicitProducts_spaced r)

theorem compact_mem_readings (h : Relates t left sign right) :
    compact t ∈ readings left sign right := by
  obtain ⟨-, -, s, hs, ht⟩ := h
  exact mem_readings.2 (Or.inl ⟨s, hs, ht⟩)

/-- A reading has no white space. -/
theorem compact_of_mem_readings (h : Relates t left sign right) {r : Text}
    (hr : r ∈ readings left sign right) : compact r = r := by
  obtain ⟨hleft, hright⟩ := h.compact_sides
  rcases mem_readings.1 hr with ⟨s, hs, rfl⟩ | ⟨s, hs, rfl⟩
  · rw [compact_append, compact_append, hleft, compact_spelling hs, hright]
  · rw [compact_append, compact_append, hleft, compact_spelling hs, hright]

/-- Each form of a relation is that relation, from one side or the other. -/
theorem relates_of_mem_forms (h : Relates t left sign right) {m : Text}
    (hm : m ∈ forms left sign right) :
    Relates m left sign right ∨ Relates m right sign.flip left := by
  obtain ⟨r, hread, hmr⟩ := mem_forms.1 hm
  have hcompact : compact m = r := by
    rcases hmr with rfl | rfl
    · exact compact_of_mem_readings h hread
    · rw [compact_spaced, compact_of_mem_readings h hread]
  rcases mem_readings.1 hread with ⟨s, hs, rfl⟩ | ⟨s, hs, rfl⟩
  · exact Or.inl ⟨h.left_side, h.right_side, s, hs, hcompact⟩
  · exact Or.inr ⟨h.right_side, h.left_side, s, hs, hcompact⟩

/-- An equation is turned round by the rule on equations, and by no other. -/
theorem rules_of_equation (h : Relates t left .equal right) :
    inequality t = [] ∧ equationSides t = forms left .equal right := by
  obtain ⟨hleft, hright, s, hs, ht⟩ := h
  rw [List.mem_singleton.1 hs, List.append_assoc] at ht
  have hnone : ∀ c ∈ left ++ '=' :: right, isComparisonSign c = false := by
    intro c hc
    rcases List.mem_append.1 hc with hc | hc
    · exact hleft.not_comparison c hc
    · rcases List.mem_cons.1 hc with rfl | hc
      · decide
      · exact hright.not_comparison c hc
  have hsplit : splitComparison? (left ++ '=' :: right) = none := by
    have h := splitComparison?_append hnone []
    simpa [splitComparison?] using h
  have hrun : ∀ c ∈ left, decide (c ≠ '=') = true := fun c hc => by
    simpa using hleft.ne_equal c hc
  have hstop : ∀ c ∈ ('=' :: right).head?, decide (c ≠ '=') = false := by
    rintro _ ⟨⟩
    rfl
  constructor
  · rw [inequality, show compact t = left ++ '=' :: right from ht, hsplit]
  · have hno : ¬ (left ++ '=' :: right).any isComparisonSign = true := by
      rw [List.any_eq_true]
      rintro ⟨c, hc, hsign⟩
      rw [hnone c hc] at hsign
      contradiction
    have hright' : '=' ∉ right := fun hc => hright.ne_equal _ hc rfl
    simp only [equationSides, show compact t = left ++ '=' :: right from ht,
      Readings.takeWhile_run hrun hstop, Readings.dropWhile_run hrun hstop]
    rw [if_neg (by simp [hno, hright', hleft.1, hright.1])]
    rfl

/-- A comparison is respelled and turned round by the rule on inequalities, and by no
other. -/
theorem rules_of_comparison {op : Comparison} (h : Relates t left (.comparison op) right) :
    inequality t = forms left (.comparison op) right ∧ equationSides t = [] := by
  obtain ⟨hleft, hright, s, hs, ht⟩ := h
  have hsplit : splitComparison? (left ++ s ++ right) = some (left, op, right) := by
    rw [List.append_assoc, splitComparison?_append hleft.not_comparison,
      splitComparison?_spelling hs fun c hc =>
        hright.ne_equal c (List.mem_of_mem_head? hc)]
    simp
  constructor
  · have hleft' : '=' ∉ left := fun hc => hleft.ne_equal _ hc rfl
    have hright' : '=' ∉ right := fun hc => hright.ne_equal _ hc rfl
    have hno : ¬ right.any isComparisonSign = true := by simpa using hright.not_comparison
    simp only [inequality, ht, hsplit]
    rw [if_neg (by simp [hno, hleft', hright', hleft.1, hright.1])]
    rfl
  · have hany : (left ++ s ++ right).any isComparisonSign = true := by
      have hs' : s.any isComparisonSign = true := by
        cases op <;> simp only [Sign.spellings, Comparison.spellings, List.mem_cons,
          List.not_mem_nil, or_false] at hs
        · exact hs ▸ by decide
        · rcases hs with rfl | rfl <;> decide
        · exact hs ▸ by decide
        · rcases hs with rfl | rfl <;> decide
      simp [hs']
    simp only [equationSides, ht]
    split
    · rfl
    · rw [if_pos (Or.inl hany)]

/-- The rules on relations give the forms of a relation. -/
theorem mem_rules (h : Relates t left sign right) {m : Text} :
    m ∈ inequality t ∨ m ∈ equationSides t ↔ m ∈ forms left sign right := by
  cases sign with
  | equal =>
    obtain ⟨hinequality, hequation⟩ := rules_of_equation h
    rw [hinequality, hequation]
    simp
  | comparison op =>
    obtain ⟨hinequality, hequation⟩ := rules_of_comparison h
    rw [hinequality, hequation]
    simp

theorem numberVariants_relation (h : Relates t left sign right) :
    numberVariants t = [] := by
  obtain ⟨-, -, s, hs, ht⟩ := h
  rcases spelling_cases hs with ⟨c, hc, rfl⟩ | ⟨c, hc, rfl⟩
  · exact numberVariants_eq_nil hc (mem_compact.1 (ht ▸ by simp)).1
  · exact numberVariants_eq_nil hc (mem_compact.1 (ht ▸ by simp)).1

/-- What a relation implies: its forms, and itself without the stars of its products. -/
theorem mem_variants_relation (h : Relates t left sign right) {m : Text} :
    m ∈ variants t ↔ m ∈ forms left sign right ∨
      (m = implicitProducts t ∧ implicitProducts t ≠ t) := by
  rw [mem_variants, numberVariants_relation h, mem_implicitMultiplication, mem_rules h]
  constructor
  · rintro (hm | hm | hm | hm)
    · simp at hm
    · refine Or.inl (mem_forms.2 ⟨_, compact_mem_readings h, ?_⟩)
      rw [spaced_compact]
      exact mem_algebraicSpacing hm
    · exact Or.inr hm
    · exact Or.inl hm
  · rintro (hm | hm)
    · exact Or.inr (Or.inr (Or.inr hm))
    · exact Or.inr (Or.inr (Or.inl hm))

/-- A form implies the forms of its relation, and a form of the relation without the stars
of its products. -/
theorem variants_of_mem_forms (h : Relates t left sign right) {u m : Text}
    (hu : u ∈ forms left sign right) (hm : m ∈ variants u) :
    m ∈ forms left sign right ∨
      m ∈ forms (implicitProducts left) sign (implicitProducts right) := by
  have hforms : m ∈ forms left sign right ∨ m = implicitProducts u := by
    rcases relates_of_mem_forms h hu with hu | hu
    · exact ((mem_variants_relation hu).1 hm).imp id And.left
    · exact ((mem_variants_relation hu).1 hm).imp mem_forms_flip.1 And.left
  rcases hforms with hm | rfl
  · exact Or.inl hm
  · exact Or.inr (implicitProducts_mem_forms hu)

/-- The class of a relation: the value, the value without the stars of its products, and
the forms of both. -/
def members (value left : Text) (sign : Sign) (right : Text) : List Text :=
  value :: implicitProducts value ::
    (forms left sign right ++ forms (implicitProducts left) sign (implicitProducts right))

theorem mem_members {value m : Text} :
    m ∈ members value left sign right ↔ m = value ∨ m = implicitProducts value ∨
      ∃ r ∈ readings left sign right, ∃ t ∈ [r, implicitProducts r],
        m = t ∨ m = spaced t := by
  simp only [members, List.mem_cons, List.mem_append, mem_forms, mem_readings_implicitProducts,
    List.not_mem_nil, or_false]
  refine or_congr Iff.rfl (or_congr Iff.rfl ⟨?_, ?_⟩)
  · rintro (⟨r, hr, hm⟩ | ⟨_, ⟨r, hr, rfl⟩, hm⟩)
    · exact ⟨r, hr, r, Or.inl rfl, hm⟩
    · exact ⟨r, hr, _, Or.inr rfl, hm⟩
  · rintro ⟨r, hr, t, rfl | rfl, hm⟩
    · exact Or.inl ⟨t, hr, hm⟩
    · exact Or.inr ⟨_, ⟨r, hr, rfl⟩, hm⟩

theorem length_members_le (value left : Text) (sign : Sign) (right : Text) :
    (members value left sign right).length ≤ 18 := by
  have h := length_forms_le left sign right
  have h' := length_forms_le (implicitProducts left) sign (implicitProducts right)
  simp only [members, List.length_cons, List.length_append]
  omega

theorem members_closed (h : Relates t left sign right) :
    ∀ u ∈ members t left sign right, ∀ m ∈ variants u, m ≠ [] →
      m ∈ members t left sign right := by
  have h' := h.withoutStars
  intro u hu m hm _
  simp only [members, List.mem_cons, List.mem_append] at hu ⊢
  rcases hu with rfl | rfl | hu | hu
  · rcases (mem_variants_relation h).1 hm with hm | ⟨rfl, -⟩
    · exact Or.inr (Or.inr (Or.inl hm))
    · exact Or.inr (Or.inl rfl)
  · rcases (mem_variants_relation h').1 hm with hm | ⟨-, hne⟩
    · exact Or.inr (Or.inr (Or.inr hm))
    · exact absurd (implicitProducts_idem t) hne
  · exact Or.inr (Or.inr (variants_of_mem_forms h hu hm))
  · have hm' := variants_of_mem_forms h' hu hm
    rw [implicitProducts_idem, implicitProducts_idem, or_self] at hm'
    exact Or.inr (Or.inr (Or.inr hm'))

theorem forms_derived (h : Relates t left sign right) {u : Text}
    (hu : u ∈ forms left sign right) : u ∈ closure t := by
  have hne : u ≠ [] := by
    rcases relates_of_mem_forms h hu with hu | hu
    · exact hu.ne_nil
    · exact hu.ne_nil
  exact closed_closure t t (mem_closure_self t) u ((mem_variants_relation h).2 (Or.inl hu)) hne

theorem members_derived (h : Relates t left sign right) :
    ∀ u ∈ members t left sign right, u ∈ closure t := by
  have himp : implicitProducts t ∈ closure t := by
    by_cases heq : implicitProducts t = t
    · rw [heq]
      exact mem_closure_self t
    · have hne : implicitProducts t ≠ [] := fun hnil => by
        rw [hnil, implicitProducts_eq_nil.1 hnil] at heq
        exact heq rfl
      have hvariant := (mem_variants_relation h).2 (Or.inr ⟨rfl, heq⟩)
      exact closed_closure t t (mem_closure_self t) _ hvariant hne
  intro u hu
  simp only [members, List.mem_cons, List.mem_append] at hu
  rcases hu with rfl | rfl | hu | hu
  · exact mem_closure_self u
  · exact himp
  · exact forms_derived h hu
  · exact closure_mono himp (forms_derived h.withoutStars hu)

theorem mem_expand_relation (h : Relates t left sign right) {m : Text} :
    m ∈ expand t ↔ m ∈ members t left sign right :=
  mem_expand_of_list List.mem_cons_self (members_closed h) (members_derived h)
    ((length_members_le t left sign right).trans (by decide))

/-- Without white space, the members are the readings with and without the stars of their
products. -/
theorem exists_member_iff (h : Relates t left sign right) {u : Text} :
    (∃ m ∈ expand t, compact m = u) ↔
      ∃ r ∈ readings left sign right, u = r ∨ u = implicitProducts r := by
  have hwithout : ∀ r ∈ readings left sign right,
      compact (implicitProducts r) = implicitProducts r := fun r hr => by
    rw [compact_implicitProducts, compact_of_mem_readings h hr]
  constructor
  · rintro ⟨m, hm, rfl⟩
    rcases mem_members.1 ((mem_expand_relation h).1 hm) with rfl | rfl | ⟨r, hr, x, hx, hm⟩
    · exact ⟨_, compact_mem_readings h, Or.inl rfl⟩
    · exact ⟨_, compact_mem_readings h, Or.inr (compact_implicitProducts t)⟩
    · have hcompact : compact m = compact x := by
        rcases hm with rfl | rfl
        · rfl
        · exact compact_spaced x
      simp only [List.mem_cons, List.not_mem_nil, or_false] at hx
      rcases hx with rfl | rfl
      · exact ⟨x, hr, Or.inl (hcompact.trans (compact_of_mem_readings h hr))⟩
      · exact ⟨r, hr, Or.inr (hcompact.trans (hwithout r hr))⟩
  · rintro ⟨r, hr, hu⟩
    have hmem : ∀ x ∈ [r, implicitProducts r], x ∈ expand t := fun x hx =>
      (mem_expand_relation h).2 (mem_members.2 (Or.inr (Or.inr ⟨r, hr, x, hx, Or.inl rfl⟩)))
    rcases hu with rfl | rfl
    · exact ⟨u, hmem u (by simp), compact_of_mem_readings h hr⟩
    · exact ⟨_, hmem _ (by simp), hwithout r hr⟩

end

end AssessmentItems.RelationClasses
