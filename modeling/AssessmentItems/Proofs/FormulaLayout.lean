import AssessmentItems.OperatorSpacing
import AssessmentItems.Proofs.TextClasses

/-!
The spacing of a formula. Spacing keeps every character that is no white space, and does
not see the white space that was there before. A layout begins and ends with symbols, and
without an operator it is the text of its symbols.
-/
namespace AssessmentItems.FormulaLayout

open Text OperatorSpacing TextClasses

theorem flatMap_symbols (before : Option Char) (t : Text) :
    (symbols before t).flatMap Symbol.text = t := by
  induction before, t using symbols.induct with
  | case1 before t ih => simp [symbols, ih]
  | case2 before t ih => simp [symbols, ih]
  | case3 before c t hle hge ih =>
    rw [symbols.eq_3 _ _ _ hle hge]
    simp [ih]
  | case4 => rfl

def gap (s : Symbol) : List Symbol → Text
  | [] => []
  | next :: _ => if s.isOperator || next.isOperator then [' '] else []

theorem layout_cons (s : Symbol) (rest : List Symbol) :
    layout (s :: rest) = s.text ++ (gap s rest ++ layout rest) := by
  cases rest with
  | nil => simp [layout, gap]
  | cons next rest => simp [layout, gap]

theorem gap_eq_or (s : Symbol) (rest : List Symbol) : gap s rest = [] ∨ gap s rest = [' '] := by
  cases rest with
  | nil => exact Or.inl rfl
  | cons next rest =>
    rw [gap]
    split_ifs
    · exact Or.inr rfl
    · exact Or.inl rfl

theorem isSpace_of_mem_gap {s : Symbol} {rest : List Symbol} {c : Char} (h : c ∈ gap s rest) :
    isSpace c = true := by
  rcases gap_eq_or s rest with hgap | hgap
  · simp [hgap] at h
  · rw [hgap, List.mem_singleton] at h
    exact h ▸ by decide

/-- The space before a formula depends on its first character alone. -/
theorem gap_symbols_cons (s : Symbol) (before : Option Char) (c : Char) (t : Text) :
    gap s (symbols before (c :: t)) =
      if s.isOperator || isOperator before c then [' '] else [] := by
  by_cases hpair : (c = '<' ∨ c = '>') ∧ ∃ rest, t = '=' :: rest
  · obtain ⟨rfl | rfl, rest, rfl⟩ := hpair <;> simp [symbols, gap, isOperator]
  · rw [symbols.eq_3 before c t (fun rest hc ht => hpair ⟨Or.inl hc, rest, ht⟩)
      (fun rest hc ht => hpair ⟨Or.inr hc, rest, ht⟩), gap]

theorem compact_layout (ss : List Symbol) :
    compact (layout ss) = compact (ss.flatMap Symbol.text) := by
  induction ss with
  | nil => rfl
  | cons s rest ih =>
    rw [layout_cons, compact_append, compact_append, ih,
      compact_eq_nil fun c hc => isSpace_of_mem_gap hc]
    simp

/-- Spacing changes nothing but white space. -/
@[simp] theorem compact_spaced (t : Text) : compact (spaced t) = compact t := by
  rw [spaced, compact_layout, flatMap_symbols, compact_compact]

/-- Spacing does not see the white space that was there before. -/
theorem spaced_congr {t u : Text} (h : compact t = compact u) : spaced t = spaced u := by
  rw [spaced, h, spaced]

@[simp] theorem spaced_compact (t : Text) : spaced (compact t) = spaced t :=
  spaced_congr (compact_compact t)

@[simp] theorem spaced_spaced (t : Text) : spaced (spaced t) = spaced t :=
  spaced_congr (compact_spaced t)

theorem symbol_ne_nil (before : Option Char) (t : Text) :
    ∀ s ∈ symbols before t, s.text ≠ [] := by
  induction before, t using symbols.induct with
  | case1 before t ih => simpa [symbols] using ih
  | case2 before t ih => simpa [symbols] using ih
  | case3 before c t hle hge ih =>
    rw [symbols.eq_3 _ _ _ hle hge]
    simpa using ih
  | case4 => simp [symbols]

/-- A layout begins and ends with symbols. -/
theorem layout_ends (ss : List Symbol) (hne : ∀ s ∈ ss, s.text ≠ []) :
    (∀ c ∈ (layout ss).head?, c ∈ ss.flatMap Symbol.text) ∧
      ∀ c ∈ (layout ss).getLast?, c ∈ ss.flatMap Symbol.text := by
  induction ss with
  | nil => simp [layout]
  | cons s rest ih =>
    have hs := hne s List.mem_cons_self
    obtain ⟨-, hlast⟩ := ih fun u hu => hne u (List.mem_cons_of_mem _ hu)
    rw [layout_cons, List.flatMap_cons]
    constructor
    · intro c hc
      rw [List.head?_append_of_ne_nil _ hs] at hc
      exact List.mem_append_left _ (List.mem_of_mem_head? hc)
    · intro c hc
      cases rest with
      | nil =>
        simp only [gap, layout, List.append_nil] at hc
        exact List.mem_append_left _ (List.mem_of_getLast? hc)
      | cons next rest =>
        have hrest : layout (next :: rest) ≠ [] := by
          rw [layout_cons]
          simp [hne next (by simp)]
        rw [← List.append_assoc, List.getLast?_append_of_ne_nil _ hrest] at hc
        exact List.mem_append_right _ (hlast c hc)

@[simp] theorem trim_spaced (t : Text) : trim (spaced t) = spaced t := by
  have hspace : ∀ c ∈ (symbols none (compact t)).flatMap Symbol.text, isSpace c = false := by
    rw [flatMap_symbols]
    exact fun c hc => (mem_compact.1 hc).2
  obtain ⟨hhead, hlast⟩ := layout_ends _ (symbol_ne_nil none (compact t))
  exact trim_eq_self (fun c hc => hspace c (hhead c hc)) fun c hc => hspace c (hlast c hc)

/-- A star between two texts is a symbol between theirs. -/
theorem symbols_star (before : Option Char) (x y : Text) :
    symbols before (x ++ '*' :: y) = symbols before x ++ ⟨['*'], true⟩ :: symbols (some '*') y := by
  induction before, x using symbols.induct with
  | case1 before t ih => simp [symbols, ih]
  | case2 before t ih => simp [symbols, ih]
  | case3 before c t hle hge ih =>
    have hpair : ∀ rest, t ++ '*' :: y = '=' :: rest → ∃ rest, t = '=' :: rest := by
      intro rest h
      cases t with
      | nil => simp at h
      | cons d t =>
        obtain rfl := (List.cons.inj h).1
        exact ⟨t, rfl⟩
    rw [List.cons_append, symbols.eq_3 before c _ ?_ ?_, symbols.eq_3 before c t hle hge, ih,
      List.cons_append]
    · intro rest hc h
      obtain ⟨rest', ht⟩ := hpair rest h
      exact hle rest' hc ht
    · intro rest hc h
      obtain ⟨rest', ht⟩ := hpair rest h
      exact hge rest' hc ht
  | case4 before => simp [symbols, isOperator]

theorem layout_eq_flatMap (ss : List Symbol) (h : ∀ s ∈ ss, s.isOperator = false) :
    layout ss = ss.flatMap Symbol.text := by
  induction ss with
  | nil => rfl
  | cons s rest ih =>
    have hgap : gap s rest = [] := by
      cases rest with
      | nil => rfl
      | cons next rest => simp [gap, h s, h next]
    rw [layout_cons, hgap, ih fun u hu => h u (List.mem_cons_of_mem _ hu)]
    simp

/-- Between symbols that are no operators, white space stands around one symbol only. -/
theorem layout_around {ss us : List Symbol} (s : Symbol) (hss : ∀ a ∈ ss, a.isOperator = false)
    (hus : ∀ a ∈ us, a.isOperator = false) :
    ∃ before after, (∀ c ∈ before, isSpace c = true) ∧ (∀ c ∈ after, isSpace c = true) ∧
      layout (ss ++ s :: us) =
        ss.flatMap Symbol.text ++ (before ++ s.text ++ after) ++ us.flatMap Symbol.text := by
  induction ss with
  | nil =>
    refine ⟨[], gap s us, by simp, fun c hc => isSpace_of_mem_gap hc, ?_⟩
    rw [List.nil_append, layout_cons, layout_eq_flatMap us hus]
    simp
  | cons a ss ih =>
    obtain ⟨before, after, hbefore, hafter, h⟩ := ih fun b hb => hss b (List.mem_cons_of_mem _ hb)
    rw [List.cons_append, layout_cons, h]
    cases ss with
    | nil =>
      refine ⟨gap a (s :: us) ++ before, after, ?_, hafter, by simp⟩
      rw [List.forall_mem_append]
      exact ⟨fun c hc => isSpace_of_mem_gap hc, hbefore⟩
    | cons b ss =>
      have hgap : gap a (b :: ss ++ s :: us) = [] := by simp [gap, hss a, hss b]
      refine ⟨before, after, hbefore, hafter, ?_⟩
      rw [hgap]
      simp

end AssessmentItems.FormulaLayout
