import AssessmentItems.Proofs.Relations

/-!
Texts without white space and without an operator, but for a sign at the front. Neither a
layout nor the leaving out of stars changes such a text, so it implies nothing but what it
implies as a number.
-/
namespace AssessmentItems.TightTexts

open Text OperatorSpacing AnswerRules TextClasses FormulaLayout ImplicitProducts Readings
  PiReadings NumberRules Relations

/-- The characters that a number has after its sign, if it has no white space. -/
def isTight (c : Char) : Bool :=
  isDigit c || isPlainLetter c || c ∈ ['/', '(', ')', '.', 'π']

def Tight (t : Text) : Prop :=
  ∃ sign body, IsSign sign ∧ (∀ c ∈ body, isTight c = true) ∧ t = sign ++ body

theorem isTight_cases {c : Char} (h : isTight c = true) :
    isDigit c = true ∨ isPlainLetter c = true ∨ c ∈ ['/', '(', ')', '.', 'π'] := by
  simpa [isTight, or_assoc] using h

/-- A character of a number is none of those that are not. -/
theorem ne_of_isTight {c d : Char} (h : isTight c = true) (hd : isTight d = false) : c ≠ d := by
  rintro rfl
  simp [h] at hd

theorem isSpace_of_isTight {c : Char} (h : isTight c = true) : isSpace c = false := by
  rcases isTight_cases h with h | h | h
  · exact isSpace_of_isDigit h
  · exact isSpace_of_isPlainLetter h
  · have hall : ∀ d ∈ ['/', '(', ')', '.', 'π'], isSpace d = false := forall_mem_of_all (by decide)
    exact hall c h

theorem isOperator_of_isTight {c : Char} (h : isTight c = true) (before : Option Char) :
    isOperator before c = false := by
  have hne := @ne_of_isTight c
  simp [isOperator, hne h (d := '=') (by decide), hne h (d := '+') (by decide),
    hne h (d := '*') (by decide), hne h (d := '<') (by decide), hne h (d := '>') (by decide),
    hne h (d := '≤') (by decide), hne h (d := '≥') (by decide), hne h (d := '-') (by decide)]

theorem symbols_of_tight (before : Option Char) {body : Text}
    (h : ∀ c ∈ body, isTight c = true) :
    ∀ s ∈ symbols before body, s.isOperator = false := by
  induction body generalizing before with
  | nil => simp [symbols]
  | cons c body ih =>
    have hc := h c List.mem_cons_self
    have hsymbols := symbols.eq_3 before c body
      (fun _ hlt _ => ne_of_isTight hc (by decide) hlt)
      (fun _ hgt _ => ne_of_isTight hc (by decide) hgt)
    intro s hs
    rw [hsymbols] at hs
    rcases List.mem_cons.1 hs with rfl | hs
    · exact isOperator_of_isTight hc before
    · exact ih (some c) (fun d hd => h d (List.mem_cons_of_mem _ hd)) s hs

section

variable {t : Text} (h : Tight t)
include h

theorem Tight.chars : ∀ c ∈ t, c = '-' ∨ isTight c = true := by
  obtain ⟨sign, body, hsign, hbody, rfl⟩ := h
  intro c hc
  rcases List.mem_append.1 hc with hc | hc
  · exact Or.inl (eq_of_mem_sign hsign hc)
  · exact Or.inr (hbody c hc)

theorem Tight.isSpace : ∀ c ∈ t, isSpace c = false := by
  intro c hc
  rcases h.chars c hc with rfl | hc
  · decide
  · exact isSpace_of_isTight hc

theorem Tight.compact_eq : compact t = t := compact_eq_self h.isSpace

theorem Tight.trim_eq : trim t = t := trim_of_compact h.isSpace

omit h in
/-- Around such a text, removing white space is trimming. -/
theorem trim_compact_of_tight {u : Text} (h : Tight (trim u)) : trim (compact u) = trim u := by
  rw [trim_of_compact fun d hd => (mem_compact.1 hd).2, ← compact_trim, h.compact_eq]

theorem Tight.implicitProducts_eq : implicitProducts t = t := by
  refine implicitProducts_eq_self (Or.inl fun hstar => ?_)
  rcases h.chars _ hstar with hstar | hstar
  · exact absurd hstar (by decide)
  · exact absurd hstar (by decide)

theorem Tight.isRelationSign : ∀ c ∈ t, isRelationSign c = false := by
  intro c hc
  by_contra hsign
  have hsign : Relations.isRelationSign c = true := by simpa using hsign
  have htight : isTight c = false ∧ c ≠ '-' := by
    rcases relationSign_cases hsign with rfl | rfl | rfl | rfl | rfl <;> decide
  rcases h.chars c hc with rfl | hc
  · exact htight.2 rfl
  · simp [hc] at htight

/-- The sign at the front is no operator either. -/
theorem Tight.symbols : ∀ s ∈ symbols none t, s.isOperator = false := by
  obtain ⟨sign, body, hsign, hbody, rfl⟩ := h
  rcases hsign with rfl | rfl
  · exact symbols_of_tight none hbody
  · intro s hs
    rw [List.singleton_append, symbols.eq_3 none '-' body (fun _ hc _ => by simp at hc)
      (fun _ hc _ => by simp at hc)] at hs
    rcases List.mem_cons.1 hs with rfl | hs
    · rfl
    · exact symbols_of_tight (some '-') hbody s hs

/-- Nothing in such a text is spaced. -/
theorem Tight.spaced_eq : spaced t = t := by
  rw [spaced, h.compact_eq, layout_eq_flatMap _ h.symbols, flatMap_symbols]

/-- A star behind such a text is all that is spaced. -/
theorem Tight.spaced_star {y : Text} (hy : ∀ c ∈ y, isTight c = true) :
    ∃ gap, compact gap = ['*'] ∧ spaced (t ++ '*' :: y) = t ++ gap ++ y := by
  obtain ⟨before, after, hbefore, hafter, hlayout⟩ :=
    layout_around ⟨['*'], true⟩ h.symbols (symbols_of_tight (some '*') hy)
  have hcompact : compact (t ++ '*' :: y) = t ++ '*' :: y := by
    rw [compact_append, h.compact_eq, compact_cons_of_not_isSpace (by decide),
      compact_eq_self fun c hc => isSpace_of_isTight (hy c hc)]
  rw [flatMap_symbols, flatMap_symbols] at hlayout
  refine ⟨before ++ ['*'] ++ after, ?_, by rw [spaced, hcompact, symbols_star, hlayout]⟩
  rw [List.append_assoc, List.singleton_append]
  exact compact_around hbefore hafter (by decide)

/-- Beside itself, such a text implies only what it implies as a number. -/
theorem Tight.mem_variants {m : Text} (hm : m ∈ variants t) : m ∈ numberVariants t ∨ m = t := by
  obtain ⟨hinequality, hequation⟩ := relation_rules_eq_nil h.isRelationSign
  rw [NumberRules.mem_variants, hinequality, hequation] at hm
  rcases hm with hm | hm | hm | hm | hm
  · exact Or.inl hm
  · rcases mem_algebraicSpacing hm with hm | hm
    · exact Or.inr (hm.trans h.compact_eq)
    · exact Or.inr (hm.trans h.spaced_eq)
  · exact absurd h.implicitProducts_eq (mem_implicitMultiplication.1 hm).2
  · simp at hm
  · simp at hm

/-- A term in π shows its symbol. -/
theorem Tight.symbol_mem {m : Text} (hm : m ∈ piApproximation t) : 'π' ∈ t ∨ 'p' ∈ t := by
  obtain ⟨p, -, hp, -⟩ := mem_piApproximation.1 hm
  obtain ⟨hterm, ht⟩ := piReading?_sound hp
  rw [h.trim_eq] at ht
  rcases hterm.symbol with hs | hs
  · exact Or.inl (by simp [ht, hs])
  · exact Or.inr (by simp [ht, hs])

end

end AssessmentItems.TightTexts
