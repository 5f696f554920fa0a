import AssessmentItems.AnswerRules
import AssessmentItems.Proofs.FormulaLayout

/-!
The stars of products. Leaving out the stars between a digit and a parenthesis commutes
with both layouts of a formula, does nothing a second time, and treats the two sides of a
sign that is no part of a product apart. So the layouts of a formula are few.
-/
namespace AssessmentItems.ImplicitProducts

open Text OperatorSpacing AnswerRules TextClasses FormulaLayout

/-- What is left out: a star among white space before a parenthesis. Else nothing is. -/
theorem withoutStar_cases (t : Text) :
    (∃ gap gap' inner, (∀ c ∈ gap, isSpace c = true) ∧ (∀ c ∈ gap', isSpace c = true) ∧
      t = gap ++ '*' :: (gap' ++ '(' :: inner) ∧ withoutStar t = '(' :: inner) ∨
    (withoutStar t = t ∧ ∀ inner, compact t ≠ '*' :: '(' :: inner) := by
  obtain ⟨gap, hgap, ht⟩ := exists_dropWhile t
  cases hrest : t.dropWhile isSpace with
  | nil =>
    refine Or.inr ⟨by simp [withoutStar, hrest], fun inner => ?_⟩
    rw [← compact_dropWhile, hrest]
    simp
  | cons c rest =>
    have hcompact := compact_of_dropWhile hrest
    by_cases hc : c = '*'
    · subst hc
      obtain ⟨gap', hgap', hrest'⟩ := exists_dropWhile rest
      cases hinner : rest.dropWhile isSpace with
      | nil =>
        refine Or.inr ⟨by simp [withoutStar, hrest, hinner], fun inner => ?_⟩
        rw [hcompact, ← compact_dropWhile rest, hinner]
        simp
      | cons d inner =>
        have hcompact' := compact_of_dropWhile hinner
        by_cases hd : d = '('
        · subst hd
          refine Or.inl ⟨gap, gap', inner, hgap, hgap', ?_, by simp [withoutStar, hrest, hinner]⟩
          rw [← hinner, ← hrest', ← hrest, ← ht]
        · refine Or.inr ⟨by simp [withoutStar, hrest, hinner, hd], fun inner' h => hd ?_⟩
          rw [hcompact, hcompact'] at h
          simp only [List.cons.injEq] at h
          exact h.2.1
    · refine Or.inr ⟨by simp [withoutStar, hrest, hc], fun inner h => hc ?_⟩
      rw [hcompact] at h
      exact (List.cons.inj h).1

theorem withoutStar_eq_self {t : Text} (h : ∀ inner, compact t ≠ '*' :: '(' :: inner) :
    withoutStar t = t := by
  rcases withoutStar_cases t with ⟨gap, gap', inner, hgap, hgap', ht, -⟩ | ⟨heq, -⟩
  · refine absurd ?_ (h (compact inner))
    rw [ht, compact_append, compact_eq_nil hgap, compact_cons_of_not_isSpace (by decide),
      compact_append, compact_eq_nil hgap', compact_cons_of_not_isSpace (by decide)]
    rfl
  · exact heq

theorem withoutStar_star {gap gap' : Text} (hgap : ∀ c ∈ gap, isSpace c = true)
    (hgap' : ∀ c ∈ gap', isSpace c = true) (inner : Text) :
    withoutStar (gap ++ '*' :: (gap' ++ '(' :: inner)) = '(' :: inner := by
  rw [withoutStar, List.dropWhile_append_of_pos hgap,
    List.dropWhile_cons_of_neg (by decide)]
  simp only [List.dropWhile_append_of_pos hgap', List.dropWhile_cons_of_neg
    (show ¬ isSpace '(' = true by decide)]

theorem withoutStar_paren (inner : Text) : withoutStar ('(' :: inner) = '(' :: inner :=
  withoutStar_eq_self fun _ h => by
    rw [compact_cons_of_not_isSpace (by decide)] at h
    exact absurd (List.cons.inj h).1 (by decide)

theorem compact_withoutStar (t : Text) : compact (withoutStar t) = withoutStar (compact t) := by
  rcases withoutStar_cases t with ⟨gap, gap', inner, hgap, hgap', ht, heq⟩ | ⟨heq, hno⟩
  · have hcompact : compact t = [] ++ '*' :: ([] ++ '(' :: compact inner) := by
      rw [ht, compact_append, compact_eq_nil hgap, compact_cons_of_not_isSpace (by decide),
        compact_append, compact_eq_nil hgap', compact_cons_of_not_isSpace (by decide)]
    rw [heq, hcompact, withoutStar_star (by simp) (by simp) _,
      compact_cons_of_not_isSpace (by decide)]
  · rw [heq, withoutStar_eq_self]
    simpa using hno

/-- A sign that is no part of a product ends the look for a star. -/
theorem withoutStar_append {c : Char} (hspace : isSpace c = false) (hstar : c ≠ '*')
    (hparen : c ≠ '(') (t u : Text) : withoutStar (t ++ c :: u) = withoutStar t ++ c :: u := by
  rcases withoutStar_cases t with ⟨gap, gap', inner, hgap, hgap', ht, heq⟩ | ⟨heq, hno⟩
  · rw [heq, ht]
    have h := withoutStar_star hgap hgap' (inner ++ c :: u)
    simpa using h
  · rw [heq]
    refine withoutStar_eq_self fun inner h => ?_
    rw [compact_append, compact_cons_of_not_isSpace hspace] at h
    match hcompact : compact t with
    | [] => rw [hcompact] at h; exact hstar (List.cons.inj h).1
    | [d] => rw [hcompact] at h; exact hparen (List.cons.inj (List.cons.inj h).2).1
    | d :: e :: rest =>
      rw [hcompact] at h
      simp only [List.cons_append, List.cons.injEq] at h
      exact hno rest (by rw [hcompact, h.1, h.2.1])

theorem implicitProducts_cons_digit {c : Char} (h : isDigit c = true) (t : Text) :
    implicitProducts (c :: t) = c :: withoutStar (implicitProducts t) := by
  simp [implicitProducts, h]

theorem implicitProducts_cons {c : Char} (h : isDigit c = false) (t : Text) :
    implicitProducts (c :: t) = c :: implicitProducts t := by
  simp [implicitProducts, h]

theorem implicitProducts_append {t : Text} (h : ∀ c ∈ t, isDigit c = false) (u : Text) :
    implicitProducts (t ++ u) = t ++ implicitProducts u := by
  induction t with
  | nil => rfl
  | cons c t ih =>
    rw [List.cons_append, implicitProducts_cons (h c List.mem_cons_self),
      ih fun d hd => h d (List.mem_cons_of_mem _ hd), List.cons_append]

theorem implicitProducts_eq_nil {t : Text} : implicitProducts t = [] ↔ t = [] := by
  cases t with
  | nil => simp [implicitProducts]
  | cons c t =>
    rw [implicitProducts]
    split_ifs <;> simp

theorem mem_of_mem_withoutStar {c : Char} {t : Text} (h : c ∈ withoutStar t) : c ∈ t := by
  rcases withoutStar_cases t with ⟨gap, gap', inner, -, -, ht, heq⟩ | ⟨heq, -⟩
  · rw [heq] at h
    rw [ht]
    simp only [List.mem_append, List.mem_cons] at h ⊢
    tauto
  · rwa [heq] at h

theorem mem_of_mem_implicitProducts {c : Char} {t : Text} (h : c ∈ implicitProducts t) :
    c ∈ t := by
  induction t with
  | nil => exact h
  | cons d t ih =>
    rw [implicitProducts] at h
    split_ifs at h
    · rcases List.mem_cons.1 h with rfl | h
      · exact List.mem_cons_self
      · exact List.mem_cons_of_mem _ (ih (mem_of_mem_withoutStar h))
    · rcases List.mem_cons.1 h with rfl | h
      · exact List.mem_cons_self
      · exact List.mem_cons_of_mem _ (ih h)

theorem mem_withoutStar {c : Char} (hstar : c ≠ '*') (hspace : isSpace c = false) {t : Text}
    (h : c ∈ t) : c ∈ withoutStar t := by
  rcases withoutStar_cases t with ⟨gap, gap', inner, hgap, hgap', ht, heq⟩ | ⟨heq, -⟩
  · have hno : ∀ {u : Text}, (∀ d ∈ u, isSpace d = true) → c ∉ u := fun hu hc => by
      simp [hu c hc] at hspace
    rw [heq]
    simpa [ht, hno hgap, hno hgap', hstar] using h
  · rwa [heq]

/-- Nothing but stars and white space is left out. -/
theorem mem_implicitProducts {c : Char} (hstar : c ≠ '*') (hspace : isSpace c = false) {t : Text}
    (h : c ∈ t) : c ∈ implicitProducts t := by
  induction t with
  | nil => exact h
  | cons d t ih =>
    rw [implicitProducts]
    rcases List.mem_cons.1 h with rfl | h
    · split_ifs <;> exact List.mem_cons_self
    · split_ifs
      · exact List.mem_cons_of_mem _ (mem_withoutStar hstar hspace (ih h))
      · exact List.mem_cons_of_mem _ (ih h)

/-- A text that changes loses a star. -/
theorem count_implicitProducts (t : Text) :
    implicitProducts t = t ∨ (implicitProducts t).count '*' < t.count '*' := by
  induction t with
  | nil => exact Or.inl rfl
  | cons c t ih =>
    have hle : (implicitProducts t).count '*' ≤ t.count '*' := by
      rcases ih with ih | ih
      · rw [ih]
      · exact Nat.le_of_lt ih
    rw [implicitProducts]
    split_ifs
    · rcases withoutStar_cases (implicitProducts t) with
        ⟨gap, gap', inner, -, -, ht, heq⟩ | ⟨heq, -⟩
      · right
        rw [heq]
        rw [ht] at hle
        simp only [List.count_cons, List.count_append] at hle ⊢
        simp only [beq_self_eq_true, if_true] at hle
        omega
      · rw [heq]
        refine ih.imp (fun h => by rw [h]) fun h => ?_
        rw [List.count_cons, List.count_cons]
        omega
    · refine ih.imp (fun h => by rw [h]) fun h => ?_
      rw [List.count_cons, List.count_cons]
      omega

/-- Only a star before a parenthesis is ever left out. -/
theorem implicitProducts_eq_self {t : Text} (h : '*' ∉ t ∨ '(' ∉ t) :
    implicitProducts t = t := by
  induction t with
  | nil => rfl
  | cons c t ih =>
    have ht : '*' ∉ t ∨ '(' ∉ t :=
      h.imp (fun hn hm => hn (List.mem_cons_of_mem _ hm))
        (fun hn hm => hn (List.mem_cons_of_mem _ hm))
    rw [implicitProducts, ih ht]
    split_ifs with hc
    · rw [withoutStar_eq_self fun inner hcompact => ?_]
      rcases ht with hn | hn
      · exact hn (mem_compact.1 (hcompact ▸ List.mem_cons_self)).1
      · exact hn (mem_compact.1 (hcompact ▸ by simp)).1
    · rfl

theorem compact_implicitProducts (t : Text) :
    compact (implicitProducts t) = implicitProducts (compact t) := by
  induction t with
  | nil => rfl
  | cons c t ih =>
    cases hspace : isSpace c with
    | true =>
      rw [implicitProducts_cons (isDigit_of_isSpace hspace), compact_cons_of_isSpace hspace,
        compact_cons_of_isSpace hspace, ih]
    | false =>
      cases hdigit : isDigit c with
      | true =>
        rw [implicitProducts_cons_digit hdigit, compact_cons_of_not_isSpace hspace,
          compact_cons_of_not_isSpace hspace, implicitProducts_cons_digit hdigit,
          compact_withoutStar, ih]
      | false =>
        rw [implicitProducts_cons hdigit, compact_cons_of_not_isSpace hspace,
          compact_cons_of_not_isSpace hspace, implicitProducts_cons hdigit, ih]

/-- White space does not decide whether a star is left out. -/
theorem implicitProducts_compact_eq {t : Text} :
    implicitProducts (compact t) = compact t ↔ implicitProducts t = t := by
  rw [← compact_implicitProducts]
  have hcount : ∀ u : Text, (compact u).count '*' = u.count '*' := fun u =>
    List.count_filter (by decide)
  constructor
  · intro h
    refine (count_implicitProducts t).resolve_right fun hlt => ?_
    rw [← hcount, h, hcount] at hlt
    exact Nat.lt_irrefl _ hlt
  · intro h
    rw [h]

theorem implicitProducts_withoutStar {t : Text} (h : implicitProducts t = t) :
    implicitProducts (withoutStar t) = withoutStar t := by
  rcases withoutStar_cases t with ⟨gap, gap', inner, hgap, hgap', ht, heq⟩ | ⟨heq, -⟩
  · have hfront : ∀ c ∈ gap ++ '*' :: gap' ++ ['('], isDigit c = false := by
      intro c hc
      simp only [List.mem_append, List.mem_cons, List.not_mem_nil, or_false] at hc
      rcases hc with (hc | rfl | hc) | rfl
      · exact isDigit_of_isSpace (hgap c hc)
      · decide
      · exact isDigit_of_isSpace (hgap' c hc)
      · decide
    have hsplit : t = (gap ++ '*' :: gap' ++ ['(']) ++ inner := by simp [ht]
    rw [hsplit, implicitProducts_append hfront] at h
    rw [heq, implicitProducts_cons (by decide), List.append_cancel_left h]
  · rw [heq, h]

/-- Once left out, no star is left to leave out. -/
@[simp] theorem implicitProducts_idem (t : Text) :
    implicitProducts (implicitProducts t) = implicitProducts t := by
  induction t with
  | nil => rfl
  | cons c t ih =>
    cases hdigit : isDigit c with
    | true =>
      rw [implicitProducts_cons_digit hdigit, implicitProducts_cons_digit hdigit,
        implicitProducts_withoutStar ih]
      rcases withoutStar_cases (implicitProducts t) with
        ⟨gap, gap', inner, -, -, -, heq⟩ | ⟨heq, -⟩
      · rw [heq, withoutStar_paren]
      · rw [heq, heq]
    | false => rw [implicitProducts_cons hdigit, implicitProducts_cons hdigit, ih]

/-- A sign that is no part of a product parts a formula in two. -/
theorem implicitProducts_append_cons {c : Char} (hdigit : isDigit c = false)
    (hspace : isSpace c = false) (hstar : c ≠ '*') (hparen : c ≠ '(') (t u : Text) :
    implicitProducts (t ++ c :: u) = implicitProducts t ++ c :: implicitProducts u := by
  induction t with
  | nil => exact implicitProducts_cons hdigit u
  | cons d t ih =>
    cases hd : isDigit d with
    | true =>
      rw [List.cons_append, implicitProducts_cons_digit hd, ih,
        withoutStar_append hspace hstar hparen, implicitProducts_cons_digit hd,
        List.cons_append]
    | false =>
      rw [List.cons_append, implicitProducts_cons hd, ih, implicitProducts_cons hd,
        List.cons_append]

theorem isOperator_of_isDigit {c : Char} (h : isDigit c = true) (before : Option Char) :
    isOperator before c = false := by
  have hne : ∀ d, isDigit d = false → c ≠ d := by
    rintro d hd rfl
    simp [h] at hd
  simp [isOperator, hne '=' (by decide), hne '+' (by decide), hne '*' (by decide),
    hne '<' (by decide), hne '>' (by decide), hne '≤' (by decide), hne '≥' (by decide),
    hne '-' (by decide)]

theorem symbols_cons_of_isDigit {c : Char} (h : isDigit c = true) (before : Option Char)
    (t : Text) :
    symbols before (c :: t) = ⟨[c], isOperator before c⟩ :: symbols (some c) t := by
  refine symbols.eq_3 before c t ?_ ?_
  · rintro _ rfl
    exact absurd h (by decide)
  · rintro _ rfl
    exact absurd h (by decide)

theorem exists_implicitProducts_cons (c : Char) (t : Text) :
    ∃ rest, implicitProducts (c :: t) = c :: rest := by
  rw [implicitProducts]
  split_ifs
  · exact ⟨_, rfl⟩
  · exact ⟨_, rfl⟩

theorem gap_symbols_implicitProducts (s : Symbol) (before : Option Char) (t : Text) :
    gap s (symbols before (implicitProducts t)) = gap s (symbols before t) := by
  cases t with
  | nil => rfl
  | cons c t =>
    obtain ⟨rest, hrest⟩ := exists_implicitProducts_cons c t
    rw [hrest, gap_symbols_cons, gap_symbols_cons]

theorem implicitProducts_gap (s : Symbol) (rest : List Symbol) (t : Text) :
    implicitProducts (gap s rest ++ t) = gap s rest ++ implicitProducts t :=
  implicitProducts_append (fun _ hc => isDigit_of_isSpace (isSpace_of_mem_gap hc)) t

/-- Between a digit and what follows, the star may be left out before or after spacing. -/
theorem layout_withoutStar {c : Char} (hdigit : isDigit c = true) (before : Option Char)
    {t : Text} (ht : ∀ d ∈ t, isSpace d = false) :
    withoutStar (gap ⟨[c], isOperator before c⟩ (symbols (some c) t) ++
        layout (symbols (some c) t)) =
      gap ⟨[c], isOperator before c⟩ (symbols (some c) (withoutStar t)) ++
        layout (symbols (some c) (withoutStar t)) := by
  by_cases hstar : ∃ inner, t = '*' :: '(' :: inner
  · obtain ⟨inner, rfl⟩ := hstar
    have hparen : ∀ d, isOperator (some d) '(' = false := fun d => by simp [isOperator]
    obtain ⟨rest, hrest⟩ : ∃ rest, ∀ d, layout (symbols (some d) ('(' :: inner)) = '(' :: rest :=
      ⟨_, fun d => by
        rw [symbols.eq_3 _ _ _ (by simp) (by simp), layout_cons, hparen]
        rfl⟩
    have hleft : gap ⟨[c], isOperator before c⟩ (symbols (some c) ('*' :: '(' :: inner)) ++
        layout (symbols (some c) ('*' :: '(' :: inner)) =
          [' '] ++ '*' :: ([' '] ++ '(' :: rest) := by
      rw [gap_symbols_cons, symbols.eq_3 _ _ _ (by simp) (by simp), layout_cons,
        gap_symbols_cons, hrest]
      simp [isOperator]
    have hnil : ∀ c ∈ ([] : Text), isSpace c = true := by simp
    rw [hleft, withoutStar_star (forall_mem_of_all (by decide)) (forall_mem_of_all (by decide)) _,
      show withoutStar ('*' :: '(' :: inner) = '(' :: inner from
        withoutStar_star hnil hnil inner,
      gap_symbols_cons, hrest, isOperator_of_isDigit hdigit, hparen]
    rfl
  · have hcompact : ∀ inner, compact t ≠ '*' :: '(' :: inner := by
      intro inner h
      rw [compact_eq_self ht] at h
      exact hstar ⟨inner, h⟩
    rw [withoutStar_eq_self hcompact]
    refine withoutStar_eq_self fun inner h => hcompact inner ?_
    rw [compact_append, compact_eq_nil fun d hd => isSpace_of_mem_gap hd, compact_layout,
      flatMap_symbols] at h
    exact h

theorem implicitProducts_layout (before : Option Char) {t : Text}
    (ht : ∀ c ∈ t, isSpace c = false) :
    implicitProducts (layout (symbols before t)) =
      layout (symbols before (implicitProducts t)) := by
  induction before, t using symbols.induct with
  | case1 before t ih =>
    have hrest := ih fun c hc => ht c (by simp [hc])
    rw [implicitProducts_cons (by decide), implicitProducts_cons (by decide),
      symbols.eq_1, symbols.eq_1, layout_cons, layout_cons, gap_symbols_implicitProducts,
      implicitProducts_append (forall_mem_of_all (by decide)), implicitProducts_gap, hrest]
  | case2 before t ih =>
    have hrest := ih fun c hc => ht c (by simp [hc])
    rw [implicitProducts_cons (by decide), implicitProducts_cons (by decide),
      symbols.eq_2, symbols.eq_2, layout_cons, layout_cons, gap_symbols_implicitProducts,
      implicitProducts_append (forall_mem_of_all (by decide)), implicitProducts_gap, hrest]
  | case3 before c t hle hge ih =>
    have hrest := ih fun d hd => ht d (List.mem_cons_of_mem _ hd)
    rw [symbols.eq_3 _ _ _ hle hge, layout_cons]
    cases hdigit : isDigit c with
    | true =>
      rw [implicitProducts_cons_digit hdigit, symbols_cons_of_isDigit hdigit, layout_cons,
        List.singleton_append, List.singleton_append, implicitProducts_cons_digit hdigit,
        implicitProducts_gap, hrest, ← gap_symbols_implicitProducts, layout_withoutStar hdigit]
      exact fun d hd => ht d (List.mem_cons_of_mem _ (mem_of_mem_implicitProducts hd))
    | false =>
      have hpair : ∀ rest, implicitProducts t = '=' :: rest → ∃ rest', t = '=' :: rest' := by
        intro rest h
        cases t with
        | nil => simp [implicitProducts] at h
        | cons d t =>
          obtain ⟨u, hu⟩ := exists_implicitProducts_cons d t
          rw [hu] at h
          exact ⟨t, by rw [(List.cons.inj h).1]⟩
      rw [implicitProducts_cons hdigit, symbols.eq_3 before c (implicitProducts t), layout_cons,
        gap_symbols_implicitProducts, List.singleton_append, List.singleton_append,
        implicitProducts_cons hdigit, implicitProducts_gap, hrest]
      · intro rest hc h
        obtain ⟨rest', ht'⟩ := hpair rest h
        exact hle rest' hc ht'
      · intro rest hc h
        obtain ⟨rest', ht'⟩ := hpair rest h
        exact hge rest' hc ht'
  | case4 => rfl

/-- Stars may be left out before or after spacing. -/
theorem implicitProducts_spaced (t : Text) :
    implicitProducts (spaced t) = spaced (implicitProducts t) := by
  rw [spaced, implicitProducts_layout _ fun c hc => (mem_compact.1 hc).2,
    ← compact_implicitProducts, spaced]

end AssessmentItems.ImplicitProducts
