import AssessmentItems.Proofs.FormulaLayout

/-!
The white space of a spaced formula, seen from its characters. Between two neighbours stands one
space if one of them is an operator, and nothing otherwise; only the two characters of a relation
are kept together. What precedes a character decides whether it is an operator, so the formula is
followed from its front with the character before it. Spacing is a normal form: it depends on the
characters that are no white space, keeps them, and is reached by every formula with them.
-/
namespace AssessmentItems.OperatorGaps

open Text OperatorSpacing TextClasses FormulaLayout

/-- A minus sign behind this character subtracts. -/
def EndsOperand (c : Char) : Prop := isAlphanumeric c = true ∨ c = ')' ∨ c = '.' ∨ c = 'π'

def BelongsToOperator (before : Option Char) (c : Char) : Prop :=
  c ∈ ("=+*<>≤≥" : Text) ∨ (c = '-' ∧ ∃ d ∈ before, EndsOperand d)

def FormsRelation (a b : Char) : Prop := (a = '<' ∨ a = '>') ∧ b = '='

instance (a b : Char) : Decidable (FormsRelation a b) := inferInstanceAs (Decidable (_ ∧ _))

theorem isOperator_iff {before : Option Char} {c : Char} :
    isOperator before c = true ↔ BelongsToOperator before c := by
  have hends : ∀ d, endsOperand d = true ↔ EndsOperand d := fun d => by
    simp [endsOperand, EndsOperand, or_assoc]
  cases before with
  | none => simp [isOperator, BelongsToOperator]
  | some d => simp [isOperator, BelongsToOperator, hends]

/-- What stands between `a` and the rest of a formula, where `before` precedes `a`. -/
def between (before : Option Char) (a : Char) : Text → Text
  | [] => []
  | b :: _ =>
    if FormsRelation a b then []
    else if isOperator before a || isOperator (some a) b then [' ']
    else []

def spread (before : Option Char) : Text → Text
  | [] => []
  | a :: t => a :: (between before a t ++ spread (some a) t)

/-- Behind a character that forms no relation with the next one, a symbol ends. -/
theorem between_eq_gap {before : Option Char} {a : Char} {t : Text}
    (h : ∀ rest, t = '=' :: rest → a ≠ '<' ∧ a ≠ '>') :
    between before a t = gap ⟨[a], isOperator before a⟩ (symbols (some a) t) := by
  cases t with
  | nil => rfl
  | cons b t =>
    have hapart : ¬ FormsRelation a b := by
      rintro ⟨ha, rfl⟩
      exact ha.elim (h t rfl).1 (h t rfl).2
    rw [gap_symbols_cons, between, if_neg hapart]

theorem spread_relation {before : Option Char} {a : Char} (ha : a = '<' ∨ a = '>') (t : Text) :
    spread before (a :: '=' :: t) =
      [a, '='] ++ (gap ⟨[a, '='], true⟩ (symbols (some '=') t) ++ spread (some '=') t) := by
  have hinside : between before a ('=' :: t) = [] := if_pos ⟨ha, rfl⟩
  have hbehind : between (some a) '=' t = gap ⟨[a, '='], true⟩ (symbols (some '=') t) := by
    rw [between_eq_gap (by simp)]
    cases t with
    | nil => rfl
    | cons b t => simp [gap_symbols_cons, isOperator]
  rw [spread, spread, hinside, hbehind]
  rfl

/-- A layout has its spaces behind characters, as a formula has them that is spread out. -/
theorem layout_symbols (before : Option Char) (t : Text) :
    layout (symbols before t) = spread before t := by
  induction before, t using symbols.induct with
  | case1 before t ih => rw [symbols, layout_cons, ih, spread_relation (Or.inl rfl)]
  | case2 before t ih => rw [symbols, layout_cons, ih, spread_relation (Or.inr rfl)]
  | case3 before c t hle hge ih =>
    have hapart : ∀ rest, t = '=' :: rest → c ≠ '<' ∧ c ≠ '>' := fun rest ht =>
      ⟨fun hc => hle rest hc ht, fun hc => hge rest hc ht⟩
    rw [symbols.eq_3 _ _ _ hle hge, layout_cons, ih, spread, between_eq_gap hapart]
    rfl
  | case4 => rfl

theorem spaced_eq_spread (s : Text) : spaced s = spread none (compact s) :=
  layout_symbols none (compact s)

/-- Two characters of a text that are no white space, with nothing else between them. -/
structure Neighbours (t front : Text) (a : Char) (gap : Text) (b : Char) (rest : Text) : Prop where
  split : t = front ++ a :: (gap ++ b :: rest)
  left : isSpace a = false
  right : isSpace b = false
  blank : ∀ c ∈ gap, isSpace c = true

theorem between_eq_or (before : Option Char) (a : Char) (t : Text) :
    between before a t = [] ∨ between before a t = [' '] := by
  cases t with
  | nil => exact Or.inl rfl
  | cons b t =>
    rw [between]
    split_ifs
    · exact Or.inl rfl
    · exact Or.inr rfl
    · exact Or.inl rfl

theorem isSpace_of_mem_between {before : Option Char} {a c : Char} {t : Text}
    (h : c ∈ between before a t) : isSpace c = true := by
  rcases between_eq_or before a t with hnone | hspace
  · simp [hnone] at h
  · rw [hspace, List.mem_singleton] at h
    exact h ▸ by decide

/-- White space in front of a character that is none is cut off in one way. -/
theorem blanks_unique {gap gap' rest rest' : Text} {b b' : Char}
    (hgap : ∀ c ∈ gap, isSpace c = true) (hgap' : ∀ c ∈ gap', isSpace c = true)
    (hb : isSpace b = false) (hb' : isSpace b' = false)
    (h : gap ++ b :: rest = gap' ++ b' :: rest') : gap = gap' ∧ b = b' ∧ rest = rest' := by
  have htake := congrArg (List.takeWhile isSpace) h
  rw [List.takeWhile_append_of_pos hgap, List.takeWhile_append_of_pos hgap',
    List.takeWhile_cons_of_neg (by simp [hb]), List.takeWhile_cons_of_neg (by simp [hb']),
    List.append_nil, List.append_nil] at htake
  subst htake
  obtain ⟨rfl, rfl⟩ := List.cons.inj (List.append_cancel_left h)
  exact ⟨rfl, rfl, rfl⟩

/-- Neighbours stand behind the white space that a text begins with. -/
theorem Neighbours.after_blanks {blanks t front gap rest : Text} {a b : Char}
    (hblanks : ∀ c ∈ blanks, isSpace c = true)
    (h : Neighbours (blanks ++ t) front a gap b rest) :
    ∃ front', front = blanks ++ front' ∧ Neighbours t front' a gap b rest := by
  induction blanks generalizing front with
  | nil => exact ⟨front, rfl, h⟩
  | cons c blanks ih =>
    rw [List.forall_mem_cons] at hblanks
    cases front with
    | nil =>
      obtain ⟨rfl, -⟩ := List.cons.inj h.split
      exact absurd hblanks.1 (by simp [h.left])
    | cons d front =>
      obtain ⟨rfl, hsplit⟩ := List.cons.inj h.split
      obtain ⟨front', rfl, hfront⟩ := ih hblanks.2 ⟨hsplit, h.left, h.right, h.blank⟩
      exact ⟨front', rfl, hfront⟩

/-- Between neighbours of a formula that is spread out stands what the characters ask for. -/
theorem gap_of_neighbours {before : Option Char} {t front gap rest : Text} {a b : Char}
    (ht : ∀ c ∈ t, isSpace c = false)
    (h : Neighbours (spread before t) front a gap b rest) :
    gap = between ((compact front).getLast?.or before) a [b] := by
  induction t generalizing before front with
  | nil => simpa [spread] using h.split
  | cons c t ih =>
    rw [List.forall_mem_cons] at ht
    have hblanks : ∀ d ∈ between before c t, isSpace d = true := fun d hd =>
      isSpace_of_mem_between hd
    cases front with
    | nil =>
      obtain ⟨rfl, hsplit⟩ := List.cons.inj h.split
      cases t with
      | nil => simp [between, spread] at hsplit
      | cons d t =>
        obtain ⟨hgap, rfl, -⟩ := blanks_unique hblanks h.blank (ht.2 d List.mem_cons_self) h.right
          hsplit
        exact hgap.symm
    | cons d front =>
      obtain ⟨rfl, hsplit⟩ := List.cons.inj h.split
      obtain ⟨front', rfl, hrest⟩ :=
        Neighbours.after_blanks hblanks ⟨hsplit, h.left, h.right, h.blank⟩
      rw [ih ht.2 hrest, compact_cons_of_not_isSpace ht.1, compact_append, compact_eq_nil hblanks,
        List.nil_append, List.getLast?_cons]
      cases (compact front').getLast? <;> rfl

/-- A single space never has another beside it. -/
theorem isChain_spread {before : Option Char} {t : Text} (ht : ∀ c ∈ t, isSpace c = false) :
    (spread before t).IsChain fun a b => isSpace a = true → isSpace b = false := by
  induction t generalizing before with
  | nil => exact List.IsChain.nil
  | cons c t ih =>
    rw [List.forall_mem_cons] at ht
    have hrest : (spread (some c) t).IsChain fun a b => isSpace a = true → isSpace b = false :=
      ih ht.2
    cases t with
    | nil => exact List.IsChain.singleton c
    | cons d t =>
      have hd := ht.2 d List.mem_cons_self
      rw [spread] at hrest ⊢
      rcases between_eq_or before c (d :: t) with hnone | hspace
      · rw [hnone, List.nil_append]
        exact hrest.cons_cons fun hc => absurd hc (by simp [ht.1])
      · rw [hspace, List.singleton_append]
        exact (hrest.cons_cons fun _ => hd).cons_cons fun hc => absurd hc (by simp [ht.1])

/-- Spacing is a normal form of the texts that differ in white space only. -/
theorem spaced_normal_form (s : Text) :
    compact (spaced s) = compact s ∧ spaced (spaced s) = spaced s ∧
    (∀ t, spaced t = spaced s ↔ compact t = compact s) ∧
    (∀ c ∈ (spaced s).head?, isSpace c = false) ∧
    (∀ c ∈ (spaced s).getLast?, isSpace c = false) ∧
    ((spaced s).IsChain fun a b => isSpace a = true → isSpace b = false) ∧
    ∀ front a gap b rest, Neighbours (spaced s) front a gap b rest →
      (FormsRelation a b → gap = []) ∧
      (¬ FormsRelation a b →
        BelongsToOperator (compact front).getLast? a ∨ BelongsToOperator (some a) b →
          gap = [' ']) ∧
      (¬ BelongsToOperator (compact front).getLast? a → ¬ BelongsToOperator (some a) b →
        gap = []) := by
  have hspace : ∀ c ∈ compact s, isSpace c = false := fun c hc => (mem_compact.1 hc).2
  obtain ⟨hhead, hlast⟩ := trim_ends (spaced s)
  rw [trim_spaced] at hhead hlast
  refine ⟨compact_spaced s, spaced_spaced s, fun t => ⟨fun h => ?_, spaced_congr⟩, hhead, hlast,
    spaced_eq_spread s ▸ isChain_spread hspace, fun front a gap b rest h => ?_⟩
  · rw [← compact_spaced t, h, compact_spaced]
  · rw [spaced_eq_spread] at h
    have hgap := gap_of_neighbours hspace h
    have hiff : (isOperator ((compact front).getLast?.or none) a || isOperator (some a) b) = true ↔
        BelongsToOperator (compact front).getLast? a ∨ BelongsToOperator (some a) b := by
      rw [Option.or_none, Bool.or_eq_true, isOperator_iff, isOperator_iff]
    rw [hgap, between]
    refine ⟨fun hrelation => if_pos hrelation, fun hrelation hoperator => ?_, fun ha hb => ?_⟩
    · rw [if_neg hrelation, if_pos (hiff.2 hoperator)]
    · rw [if_neg (mt hiff.1 (not_or.2 ⟨ha, hb⟩)), ite_self]

theorem spaced_normal_form_difference :
    ∃ front gap rest, Neighbours (spaced "x-1") front 'x' gap '-' rest ∧
      ¬ FormsRelation 'x' '-' ∧ BelongsToOperator (some 'x') '-' ∧ gap = [' '] := by
  have hneighbours : Neighbours (spaced "x-1") [] 'x' [' '] '-' " 1" :=
    ⟨by decide, by decide, by decide, forall_mem_of_all (by decide)⟩
  have hminus : BelongsToOperator (some 'x') '-' :=
    Or.inr ⟨rfl, 'x', rfl, Or.inl (by decide)⟩
  obtain ⟨-, -, -, -, -, -, hgaps⟩ := spaced_normal_form "x-1"
  exact ⟨[], [' '], " 1", hneighbours, by decide, hminus,
    (hgaps [] 'x' [' '] '-' " 1" hneighbours).2.1 (by decide) (Or.inr hminus)⟩

end AssessmentItems.OperatorGaps
