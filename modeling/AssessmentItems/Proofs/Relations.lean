import AssessmentItems.Proofs.ImplicitProducts
import AssessmentItems.Proofs.NumberRules

/-!
Relations as texts. A relation is two sides without a sign of equality or comparison, and
such a sign between them in one of its spellings. It is read in one way only, the rules on
relations fire on nothing else, and leaving out the stars of products keeps its sign and
works on its sides one by one.
-/
namespace AssessmentItems.Relations

open Text AnswerRules TextClasses FormulaLayout ImplicitProducts Readings NumberRules

inductive Sign where
  | equal
  | comparison (op : Comparison)
deriving DecidableEq

namespace Sign

def spellings : Sign → List Text
  | equal => ["="]
  | comparison op => op.spellings

def flip : Sign → Sign
  | equal => equal
  | comparison op => comparison op.flip

@[simp] theorem flip_flip (sign : Sign) : sign.flip.flip = sign := by
  cases sign with
  | equal => rfl
  | comparison op => cases op <;> rfl

end Sign

def isRelationSign (c : Char) : Bool := c = '=' || isComparisonSign c

def IsSide (t : Text) : Prop := t ≠ [] ∧ ∀ c ∈ t, isRelationSign c = false

theorem IsSide.withoutStars {t : Text} (h : IsSide t) : IsSide (implicitProducts t) :=
  ⟨fun hnil => h.1 (implicitProducts_eq_nil.1 hnil),
    fun c hc => h.2 c (mem_of_mem_implicitProducts hc)⟩

/-- A spelling is a relation sign, followed by `=` or nothing. -/
theorem spelling_cases {sign : Sign} {s : Text} (h : s ∈ sign.spellings) :
    (∃ c, isRelationSign c = true ∧ s = [c]) ∨
      ∃ c, isRelationSign c = true ∧ s = [c, '='] := by
  cases sign with
  | equal => exact Or.inl ⟨'=', by decide, List.mem_singleton.1 h⟩
  | comparison op =>
    cases op with
    | less => exact Or.inl ⟨'<', by decide, List.mem_singleton.1 h⟩
    | lessEqual =>
      rcases List.mem_cons.1 h with rfl | h
      · exact Or.inr ⟨'<', by decide, rfl⟩
      · exact Or.inl ⟨'≤', by decide, List.mem_singleton.1 h⟩
    | greater => exact Or.inl ⟨'>', by decide, List.mem_singleton.1 h⟩
    | greaterEqual =>
      rcases List.mem_cons.1 h with rfl | h
      · exact Or.inr ⟨'>', by decide, rfl⟩
      · exact Or.inl ⟨'≥', by decide, List.mem_singleton.1 h⟩

theorem relationSign_cases {c : Char} (h : isRelationSign c = true) :
    c = '=' ∨ c = '<' ∨ c = '>' ∨ c = '≤' ∨ c = '≥' := by
  simpa [isRelationSign, isComparisonSign] using h

/-- A relation sign is no space, no digit and no part of a product. -/
theorem relationSign_barrier {c : Char} (h : isRelationSign c = true) :
    isDigit c = false ∧ isSpace c = false ∧ c ≠ '*' ∧ c ≠ '(' := by
  rcases relationSign_cases h with rfl | rfl | rfl | rfl | rfl <;> decide

theorem IsSide.of_withoutStars {t : Text} (h : IsSide (implicitProducts t)) : IsSide t := by
  refine ⟨fun hnil => h.1 (implicitProducts_eq_nil.2 hnil), fun c hc => ?_⟩
  by_contra hsign
  have hsign : isRelationSign c = true := by simpa using hsign
  obtain ⟨-, hspace, hstar, -⟩ := relationSign_barrier hsign
  rw [h.2 c (mem_implicitProducts hstar hspace hc)] at hsign
  contradiction

theorem IsSide.not_comparison {left : Text} (h : IsSide left) :
    ∀ c ∈ left, isComparisonSign c = false := by
  intro c hc
  have := h.2 c hc
  simp only [isRelationSign, Bool.or_eq_false_iff] at this
  exact this.2

theorem IsSide.ne_equal {left : Text} (h : IsSide left) : ∀ c ∈ left, c ≠ '=' := by
  rintro _ hc rfl
  exact absurd (h.2 _ hc) (by decide)

theorem implicitProducts_relation {sign : Sign} {s : Text} (hs : s ∈ sign.spellings)
    (left right : Text) :
    implicitProducts (left ++ s ++ right) =
      implicitProducts left ++ s ++ implicitProducts right := by
  rcases spelling_cases hs with ⟨c, hc, rfl⟩ | ⟨c, hc, rfl⟩
  · obtain ⟨hdigit, hspace, hstar, hparen⟩ := relationSign_barrier hc
    have h := implicitProducts_append_cons hdigit hspace hstar hparen left right
    simpa using h
  · obtain ⟨hdigit, hspace, hstar, hparen⟩ := relationSign_barrier hc
    have h := implicitProducts_append_cons hdigit hspace hstar hparen left ('=' :: right)
    rw [implicitProducts_cons (by decide)] at h
    simpa using h

theorem compact_spelling {sign : Sign} {s : Text} (hs : s ∈ sign.spellings) : compact s = s := by
  refine compact_eq_self fun c hc => ?_
  rcases spelling_cases hs with ⟨d, hd, rfl⟩ | ⟨d, hd, rfl⟩
  · rw [List.mem_singleton] at hc
    exact hc ▸ (relationSign_barrier hd).2.1
  · simp only [List.mem_cons, List.not_mem_nil, or_false] at hc
    rcases hc with rfl | rfl
    · exact (relationSign_barrier hd).2.1
    · decide

theorem sign_of_spelling {sign sign' : Sign} {s : Text} (h : s ∈ sign.spellings)
    (h' : s ∈ sign'.spellings) : sign = sign' := by
  have hdisjoint : ∀ op op' : Comparison, s ∈ op.spellings → s ∈ op'.spellings → op = op' := by
    intro op op' h h'
    cases op <;> simp only [Comparison.spellings, List.mem_cons, List.not_mem_nil, or_false] at h
    all_goals rcases h with rfl | rfl <;> revert h' <;> cases op' <;> decide
  cases sign with
  | equal =>
    obtain rfl := List.mem_singleton.1 h
    cases sign' with
    | equal => rfl
    | comparison op => revert h'; cases op <;> decide
  | comparison op =>
    cases sign' with
    | equal => obtain rfl := List.mem_singleton.1 h'; revert h; cases op <;> decide
    | comparison op' => rw [hdisjoint op op' h h']

/-- No rule on numbers fires on a text with a relation sign. -/
theorem numberVariants_eq_nil {t : Text} {c : Char} (hc : isRelationSign c = true) (hmem : c ∈ t) :
    numberVariants t = [] := by
  refine List.eq_nil_iff_forall_not_mem.2 fun m hm => ?_
  have hnum := isNumeral_of_mem_numberVariants hm c hmem
  rcases relationSign_cases hc with rfl | rfl | rfl | rfl | rfl <;> exact absurd hnum (by decide)

theorem splitComparison?_cons {c : Char} (hc : isComparisonSign c = false) (t : Text) :
    splitComparison? (c :: t) =
      (splitComparison? t).map fun (left, op, right) => (c :: left, op, right) := by
  have hne : c ≠ '<' ∧ c ≠ '>' ∧ c ≠ '≤' ∧ c ≠ '≥' := by simpa [isComparisonSign] using hc
  rw [splitComparison?.eq_7]
  all_goals simp [hne]

theorem splitComparison?_append {left : Text} (h : ∀ c ∈ left, isComparisonSign c = false)
    (t : Text) :
    splitComparison? (left ++ t) =
      (splitComparison? t).map fun (left', op, right) => (left ++ left', op, right) := by
  induction left with
  | nil => simp
  | cons c left ih =>
    rw [List.cons_append, splitComparison?_cons (h c List.mem_cons_self),
      ih fun d hd => h d (List.mem_cons_of_mem _ hd), Option.map_map]
    rfl

theorem splitComparison?_spelling {op : Comparison} {s right : Text} (hs : s ∈ op.spellings)
    (hright : ∀ c ∈ right.head?, c ≠ '=') :
    splitComparison? (s ++ right) = some ([], op, right) := by
  cases op with
  | less =>
    rw [List.mem_singleton.1 hs]
    cases right with
    | nil => rfl
    | cons c right =>
      have hc := hright c rfl
      exact splitComparison?.eq_5 _ (by simpa using hc)
  | greater =>
    rw [List.mem_singleton.1 hs]
    cases right with
    | nil => rfl
    | cons c right =>
      have hc := hright c rfl
      exact splitComparison?.eq_6 _ (by simpa using hc)
  | lessEqual =>
    rcases List.mem_cons.1 hs with rfl | hs
    · rfl
    · rw [List.mem_singleton.1 hs]
      rfl
  | greaterEqual =>
    rcases List.mem_cons.1 hs with rfl | hs
    · rfl
    · rw [List.mem_singleton.1 hs]
      rfl

/-- What is cut off is the longest front without a comparison, and a comparison. -/
theorem splitComparison?_spec {t left right : Text} {op : Comparison}
    (h : splitComparison? t = some (left, op, right)) :
    (∀ c ∈ left, isComparisonSign c = false) ∧ ∃ s ∈ op.spellings, t = left ++ s ++ right := by
  induction t generalizing left with
  | nil => simp [splitComparison?] at h
  | cons c t ih =>
    cases hc : isComparisonSign c with
    | false =>
      rw [splitComparison?_cons hc, Option.map_eq_some_iff] at h
      obtain ⟨⟨left', op', right'⟩, hrest, heq⟩ := h
      cases heq
      obtain ⟨hleft, s, hs, rfl⟩ := ih hrest
      exact ⟨List.forall_mem_cons.2 ⟨hc, hleft⟩, s, hs, rfl⟩
    | true =>
      have hsign : c = '<' ∨ c = '>' ∨ c = '≤' ∨ c = '≥' := by simpa [isComparisonSign] using hc
      obtain ⟨rfl, s, hs, ht⟩ : left = [] ∧ ∃ s ∈ op.spellings, c :: t = s ++ right := by
        by_cases ht : ∃ rest, t = '=' :: rest
        · obtain ⟨rest, rfl⟩ := ht
          rcases hsign with rfl | rfl | rfl | rfl <;> cases h
          · exact ⟨rfl, "<=", by decide, rfl⟩
          · exact ⟨rfl, ">=", by decide, rfl⟩
          · exact ⟨rfl, "≤", by decide, rfl⟩
          · exact ⟨rfl, "≥", by decide, rfl⟩
        · have hstop : ∀ rest, t = '=' :: rest → False := fun rest hrest => ht ⟨rest, hrest⟩
          rcases hsign with rfl | rfl | rfl | rfl
          · rw [splitComparison?.eq_5 t hstop] at h
            cases h
            exact ⟨rfl, "<", by decide, rfl⟩
          · rw [splitComparison?.eq_6 t hstop] at h
            cases h
            exact ⟨rfl, ">", by decide, rfl⟩
          · cases h
            exact ⟨rfl, "≤", by decide, rfl⟩
          · cases h
            exact ⟨rfl, "≥", by decide, rfl⟩
      exact ⟨by simp, s, hs, ht⟩

/-- The rules on relations need a sign. -/
theorem relation_rules_eq_nil {t : Text} (h : ∀ c ∈ t, isRelationSign c = false) :
    inequality t = [] ∧ equationSides t = [] := by
  have hcompact : ∀ c ∈ compact t, c ≠ '=' ∧ isComparisonSign c = false := fun c hc => by
    simpa [isRelationSign] using h c (mem_compact.1 hc).1
  constructor
  · have hnone := splitComparison?_append (fun c hc => (hcompact c hc).2) []
    rw [List.append_nil] at hnone
    simp only [inequality, hnone, splitComparison?, Option.map_none]
  · have hdrop : (compact t).dropWhile (· ≠ '=') = [] := by
      rw [List.dropWhile_eq_nil_iff]
      exact fun c hc => by simpa using (hcompact c hc).1
    simp only [equationSides, hdrop]

/-- The text, less its white space, is a relation between two sides. -/
structure Relates (t left : Text) (sign : Sign) (right : Text) : Prop where
  left_side : IsSide left
  right_side : IsSide right
  reads : ∃ s ∈ sign.spellings, compact t = left ++ s ++ right

section

variable {t left right : Text} {sign : Sign}

theorem Relates.ne_nil (h : Relates t left sign right) : t ≠ [] := by
  rintro rfl
  obtain ⟨hleft, -, s, -, hs⟩ := h
  have hnil : left = [] ∧ s = [] ∧ right = [] := by simpa using hs.symm
  exact hleft.1 hnil.1

/-- The sides of a relation have no white space. -/
theorem Relates.compact_sides (h : Relates t left sign right) :
    compact left = left ∧ compact right = right := by
  obtain ⟨-, -, s, hs, ht⟩ := h
  have hno : ∀ c ∈ left ++ s ++ right, isSpace c = false := fun c hc =>
    (mem_compact.1 (ht ▸ hc)).2
  exact ⟨compact_eq_self fun c hc => hno c (by simp [hc]),
    compact_eq_self fun c hc => hno c (by simp [hc])⟩

theorem Relates.withoutStars (h : Relates t left sign right) :
    Relates (implicitProducts t) (implicitProducts left) sign (implicitProducts right) := by
  obtain ⟨hleft, hright, s, hs, ht⟩ := h
  refine ⟨hleft.withoutStars, hright.withoutStars, s, hs, ?_⟩
  rw [compact_implicitProducts, ht, implicitProducts_relation hs]

/-- The sides of a relation are the longest runs without a sign. -/
theorem Relates.parts (h : Relates t left sign right) :
    ∃ s ∈ sign.spellings, (compact t).dropWhile (!isRelationSign ·) = s ++ right ∧
      (compact t).takeWhile (!isRelationSign ·) = left ∧
      (s ++ right).takeWhile isRelationSign = s ∧
      (s ++ right).dropWhile isRelationSign = right := by
  obtain ⟨hleft, hright, s, hs, ht⟩ := h
  obtain ⟨hne, hsigns⟩ : s ≠ [] ∧ ∀ c ∈ s, isRelationSign c = true := by
    rcases spelling_cases hs with ⟨c, hc, rfl⟩ | ⟨c, hc, rfl⟩
    · simpa using hc
    · exact ⟨by simp, by simpa [hc] using show isRelationSign '=' = true by decide⟩
  have hrun : ∀ c ∈ left, (!isRelationSign c) = true := fun c hc => by rw [hleft.2 c hc]; rfl
  have hstop : ∀ c ∈ (s ++ right).head?, (!isRelationSign c) = false := fun c hc => by
    rw [hsigns c (mem_of_mem_head?_append hne hc)]
    rfl
  have hend : ∀ c ∈ right.head?, isRelationSign c = false := fun c hc =>
    hright.2 c (List.mem_of_mem_head? hc)
  rw [ht, List.append_assoc]
  exact ⟨s, hs, dropWhile_run hrun hstop, takeWhile_run hrun hstop,
    takeWhile_run hsigns hend, dropWhile_run hsigns hend⟩

/-- A text is read as a relation in one way only. -/
theorem Relates.unique (h : Relates t left sign right) {left' right' : Text} {sign' : Sign}
    (h' : Relates t left' sign' right') : left = left' ∧ sign = sign' ∧ right = right' := by
  obtain ⟨s, hs, htail, hleft, hsign, hright⟩ := h.parts
  obtain ⟨s', hs', htail', hleft', hsign', hright'⟩ := h'.parts
  have heq : s ++ right = s' ++ right' := htail.symm.trans htail'
  rw [heq] at hsign hright
  obtain rfl : s = s' := hsign.symm.trans hsign'
  exact ⟨hleft.symm.trans hleft', sign_of_spelling hs hs', hright.symm.trans hright'⟩

/-- Leaving out stars makes no relation of a text that is none. -/
theorem Relates.exists_withStars (h : Relates (implicitProducts t) left sign right) :
    ∃ left' right', Relates t left' sign right' := by
  obtain ⟨s, hs, htail, hfront, -, -⟩ := h.parts
  obtain ⟨hleft, hright, -⟩ := h
  rw [compact_implicitProducts] at htail hfront
  have hsplit := List.takeWhile_append_dropWhile (p := (!isRelationSign ·)) (l := compact t)
  have hrun : ∀ c ∈ (compact t).takeWhile (!isRelationSign ·), (!isRelationSign c) = true :=
    fun c hc => List.mem_takeWhile_imp (p := (!isRelationSign ·)) hc
  have hhead := head?_dropWhile_false (p := (!isRelationSign ·)) (t := compact t)
  generalize (compact t).takeWhile (!isRelationSign ·) = left' at *
  have hrun' : ∀ c ∈ implicitProducts left', (!isRelationSign c) = true := fun c hc =>
    hrun c (mem_of_mem_implicitProducts hc)
  cases hrest : (compact t).dropWhile (!isRelationSign ·) with
  | nil =>
    rw [hrest, List.append_nil] at hsplit
    rw [← hsplit, List.dropWhile_eq_nil_iff.2 hrun'] at htail
    exact absurd (List.append_eq_nil_iff.1 htail.symm).2 hright.1
  | cons c rest =>
    have hc : isRelationSign c = true := by simpa using hhead c (by rw [hrest]; rfl)
    obtain ⟨hdigit, hspace, hstar, hparen⟩ := relationSign_barrier hc
    rw [hrest] at hsplit
    have hstop : ∀ d ∈ (c :: implicitProducts rest).head?, (!isRelationSign d) = false := by
      rintro _ ⟨⟩
      simp [hc]
    rw [← hsplit, implicitProducts_append_cons hdigit hspace hstar hparen] at htail hfront
    rw [dropWhile_run hrun' hstop] at htail
    rw [takeWhile_run hrun' hstop] at hfront
    have hleft' : IsSide left' := IsSide.of_withoutStars (hfront ▸ hleft)
    rcases spelling_cases hs with ⟨d, -, rfl⟩ | ⟨d, -, rfl⟩
    · obtain ⟨rfl, rfl⟩ := List.cons.inj htail
      exact ⟨left', rest, hleft', hright.of_withoutStars, _, hs, by simpa using hsplit.symm⟩
    · obtain ⟨rfl, hequal⟩ := List.cons.inj htail
      rw [List.append_eq, List.singleton_append] at hequal
      cases rest with
      | nil => simp [implicitProducts] at hequal
      | cons e rest =>
        obtain ⟨_, he⟩ := exists_implicitProducts_cons e rest
        obtain rfl : e = '=' := (List.cons.inj (he.symm.trans hequal)).1
        rw [implicitProducts_cons (by decide)] at hequal
        obtain ⟨-, rfl⟩ := List.cons.inj hequal
        exact ⟨left', rest, hleft', hright.of_withoutStars, _, hs, by simpa using hsplit.symm⟩

/-- A strict relation has no sign but `<` or `>`. -/
theorem Relates.strict (h : Relates t left sign right)
    (hsign : sign = .comparison .less ∨ sign = .comparison .greater) :
    '=' ∉ t ∧ '≤' ∉ t ∧ '≥' ∉ t := by
  obtain ⟨hleft, hright, s, hs, ht⟩ := h
  have hno : ∀ c, isSpace c = false → isRelationSign c = true → c ∉ s → c ∉ t := by
    intro c hspace hc hcs hct
    have hmem : c ∈ left ++ s ++ right := ht ▸ mem_compact.2 ⟨hct, hspace⟩
    rcases List.mem_append.1 hmem with hmem | hmem
    · rcases List.mem_append.1 hmem with hmem | hmem
      · exact absurd (hleft.2 c hmem) (by simp [hc])
      · exact hcs hmem
    · exact absurd (hright.2 c hmem) (by simp [hc])
  rcases hsign with rfl | rfl
  all_goals
    rw [List.mem_singleton.1 hs] at hno
    exact ⟨hno _ (by decide) (by decide) (by decide), hno _ (by decide) (by decide) (by decide),
      hno _ (by decide) (by decide) (by decide)⟩

/-- The rules on relations fire on relations only. -/
theorem exists_relates {m : Text} (h : m ∈ inequality t ∨ m ∈ equationSides t) :
    ∃ left sign right, Relates t left sign right := by
  rcases h with h | h
  · simp only [inequality] at h
    split at h
    · simp at h
    · next left op right hsplit =>
      split_ifs at h with hno
      · simp at h
      · simp only [not_or, Bool.not_eq_true, List.any_eq_false] at hno
        obtain ⟨hlne, hrne, hl, hr, hrsign⟩ := hno
        obtain ⟨hlsign, s, hs, ht⟩ := splitComparison?_spec hsplit
        have hside : ∀ u : Text, '=' ∉ u → (∀ c ∈ u, isComparisonSign c = false) →
            ∀ c ∈ u, isRelationSign c = false := fun u hu hsign c hc => by
          have hne : c ≠ '=' := fun heq => hu (heq ▸ hc)
          simp [isRelationSign, hne, hsign c hc]
        exact ⟨left, .comparison op, right, ⟨hlne, hside left hl hlsign⟩,
          ⟨hrne, hside right hr (by simpa using hrsign)⟩, s, hs, ht⟩
  · simp only [equationSides] at h
    split at h
    · simp at h
    · next c right hdrop =>
      split_ifs at h with hno
      · simp at h
      · simp only [not_or, List.any_eq_true, not_exists, not_and, Bool.not_eq_true] at hno
        obtain ⟨hsign, hr, hlne, hrne⟩ := hno
        have ht : compact t = (compact t).takeWhile (· ≠ '=') ++ c :: right := by
          rw [← hdrop, List.takeWhile_append_dropWhile]
        obtain rfl : c = '=' := eq_of_dropWhile_ne hdrop
        have hside : ∀ u : Text, (∀ d ∈ u, d ∈ compact t ∧ d ≠ '=') →
            ∀ d ∈ u, isRelationSign d = false := fun u hu d hd => by
          simp [isRelationSign, (hu d hd).2, hsign d (hu d hd).1]
        refine ⟨_, .equal, right, ⟨hlne, hside _ fun d hd => ⟨?_, ?_⟩⟩,
          ⟨hrne, hside _ fun d hd => ⟨?_, ?_⟩⟩, ['='], List.mem_singleton.2 rfl, by simpa using ht⟩
        · exact (List.takeWhile_subset _) hd
        · simpa using List.mem_takeWhile_imp hd
        · rw [ht]
          exact List.mem_append_right _ (List.mem_cons_of_mem _ hd)
        · rintro rfl
          exact hr hd

end

end AssessmentItems.Relations
