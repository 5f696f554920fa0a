import AssessmentItems.Proofs.PiReadings

/-!
The two spellings of π in a text. What stands around the symbol has no letter and no π, so
the symbol is found in one place only. Writing it the other way is undone by doing it
again, and it commutes with the removal of white space. Both keep a term a term.
-/
namespace AssessmentItems.PiSpellings

open Text AnswerRules TextClasses Readings PiReadings

structure HasSymbol (t before symbol after : Text) : Prop where
  eq : t = before ++ symbol ++ after
  symbol : IsSymbol symbol
  before : ∀ c ∈ before, isSide c = true
  after : ∀ c ∈ after, isSide c = true

theorem isSymbol_otherPi (s : Text) : IsSymbol (otherPi s) := by
  rw [otherPi]
  split_ifs
  · exact Or.inr rfl
  · exact Or.inl rfl

theorem otherPi_otherPi {s : Text} (h : IsSymbol s) : otherPi (otherPi s) = s := by
  rcases h with rfl | rfl <;> rfl

theorem symbol_ne_nil {s : Text} (h : IsSymbol s) : s ≠ [] := by
  rcases h with rfl | rfl <;> simp

theorem symbol_chars {s : Text} (h : IsSymbol s) :
    ∀ c ∈ s, isSide c = false ∧ isSpace c = false := by
  rcases h with rfl | rfl <;> exact forall_mem_of_all (by decide)

section

variable {t b s a : Text}

/-- The symbol stands in one place. -/
theorem HasSymbol.unique {b' s' a' : Text} (h : HasSymbol t b s a) (h' : HasSymbol t b' s' a') :
    b = b' ∧ s = s' ∧ a = a' := by
  have hparts : ∀ {b s a : Text}, HasSymbol t b s a → t.takeWhile isSide = b ∧
      t.dropWhile isSide = s ++ a ∧ (s ++ a).takeWhile (!isSide ·) = s ∧
      (s ++ a).dropWhile (!isSide ·) = a := by
    intro b s a h
    have hstop : ∀ c ∈ (s ++ a).head?, isSide c = false := fun c hc =>
      (symbol_chars h.symbol c (mem_of_mem_head?_append (symbol_ne_nil h.symbol) hc)).1
    have hrun : ∀ c ∈ s, (!isSide c) = true := fun c hc => by simp [(symbol_chars h.symbol c hc).1]
    have hend : ∀ c ∈ a.head?, (!isSide c) = false := fun c hc => by
      simp [h.after c (List.mem_of_mem_head? hc)]
    rw [h.eq, List.append_assoc]
    exact ⟨takeWhile_run h.before hstop, dropWhile_run h.before hstop, takeWhile_run hrun hend,
      dropWhile_run hrun hend⟩
  obtain ⟨hb, hrest, hs, ha⟩ := hparts h
  obtain ⟨hb', hrest', hs', ha'⟩ := hparts h'
  rw [hrest] at hrest'
  rw [hrest'] at hs ha
  exact ⟨hb.symm.trans hb', hs.symm.trans hs', ha.symm.trans ha'⟩

theorem HasSymbol.compact (h : HasSymbol t b s a) :
    HasSymbol (compact t) (compact b) s (compact a) where
  eq := by
    rw [h.eq, compact_append, compact_append,
      compact_eq_self fun c hc => (symbol_chars h.symbol c hc).2]
  symbol := h.symbol
  before := fun c hc => h.before c (mem_compact.1 hc).1
  after := fun c hc => h.after c (mem_compact.1 hc).1

/-- The symbol written the other way, between the same sides. -/
theorem HasSymbol.other (h : HasSymbol t b s a) :
    HasSymbol (b ++ otherPi s ++ a) b (otherPi s) a :=
  ⟨rfl, isSymbol_otherPi s, h.before, h.after⟩

/-- Whether a text is trimmed does not depend on how its symbol is written. -/
theorem HasSymbol.trim_other (h : HasSymbol t b s a) (htrim : trim t = t) :
    trim (b ++ otherPi s ++ a) = b ++ otherPi s ++ a := by
  have hends := trim_ends t
  rw [htrim, h.eq] at hends
  have hsymbol := isSymbol_otherPi s
  have hspace := fun c hc => (symbol_chars hsymbol c hc).2
  refine trim_eq_self (fun c hc => ?_) fun c hc => ?_
  · cases b with
    | nil => exact hspace c (mem_of_mem_head?_append (symbol_ne_nil hsymbol) hc)
    | cons d b => exact hends.1 c hc
  · cases a with
    | nil =>
      rw [List.append_nil, List.getLast?_append_of_ne_nil _ (symbol_ne_nil hsymbol)] at hc
      exact hspace c (List.mem_of_getLast? hc)
    | cons d a =>
      rw [List.getLast?_append_of_ne_nil _ (by simp)] at hc
      refine hends.2 c ?_
      rwa [List.getLast?_append_of_ne_nil _ (by simp)]

end

theorem compact_of_isDecimal {k whole fraction : Text} (h : IsDecimal k whole fraction) :
    compact k = k := by
  refine compact_eq_self fun c hc => ?_
  rcases h.chars c hc with hc | rfl
  · exact isSpace_of_isDigit hc
  · decide

theorem compact_of_isSign {sign : Text} (h : IsSign sign) : compact sign = sign := by
  rcases h with rfl | rfl <;> rfl

theorem isDivision_compact {after divisor : Text} (h : IsDivision after divisor) :
    IsDivision (compact after) divisor := by
  cases h with
  | one => exact .one
  | slash hgap hdivisor =>
    have hspace := fun c hc => isSpace_of_isDigit ((isDigits_iff.1 hdivisor).2 c hc)
    rw [compact_append, compact_eq_self hspace]
    exact .slash (by rw [compact_compact, hgap]) hdivisor

/-- A written term without its white space is written too. -/
theorem written_compact {p : PiTerm} (h : Written p) :
    Written { p with before := compact p.before, after := compact p.after } := by
  cases h with
  | @front sign k gap symbol after whole fraction divisor hsign hk hgap hsymbol hdivision =>
    have hspace : compact k = k := by
      cases hk with
      | one => rfl
      | decimal hk => exact compact_of_isDecimal hk
    have hgap' : compact (compact gap) = [] ∨ compact (compact gap) = ['*'] := by
      rwa [compact_compact]
    simp only [compact_append, compact_of_isSign hsign, hspace]
    exact .front hsign hk hgap' hsymbol (isDivision_compact hdivision)
  | @behind sign symbol gap k whole fraction hsign hsymbol hgap hk =>
    simp only [compact_append, compact_of_isSign hsign, compact_of_isDecimal hk]
    exact .behind hsign hsymbol (by rw [compact_compact, hgap]) hk

/-- A written term with its symbol written the other way. -/
theorem written_other {p : PiTerm} (h : Written p) :
    Written { p with symbol := otherPi p.symbol } := by
  cases h with
  | front hsign hk hgap hsymbol hdivision =>
    exact .front hsign hk hgap (isSymbol_otherPi _) hdivision
  | behind hsign hsymbol hgap hk => exact .behind hsign (isSymbol_otherPi _) hgap hk

theorem HasSymbol.of_reading {t : Text} {p : PiTerm} (h : piReading? t = some p) :
    HasSymbol t p.before p.symbol p.after := by
  obtain ⟨hterm, ht⟩ := piReading?_sound h
  exact ⟨ht, hterm.symbol, hterm.before, hterm.after⟩

/-- White space does not decide which term is read. -/
theorem piReading?_trim_compact {t : Text} {p : PiTerm} (h : piReading? (trim t) = some p) :
    piReading? (trim (compact t)) =
      some { p with before := compact p.before, after := compact p.after } := by
  have hsymbol := (HasSymbol.of_reading h).compact
  rw [compact_trim] at hsymbol
  rw [trim_of_compact fun c hc => (mem_compact.1 hc).2]
  exact piReading?_eq_some.2 ⟨written_compact (piReading?_eq_some.1 h).1, hsymbol.eq⟩

/-- The respelled term is read with the same numbers. -/
theorem piReading?_respelled {t : Text} {p : PiTerm} (h : piReading? t = some p) :
    piReading? (respelled p) = some { p with symbol := otherPi p.symbol } :=
  piReading?_eq_some.2 ⟨written_other (piReading?_eq_some.1 h).1, rfl⟩

/-- One text is the other, trimmed, with its symbol written the other way. -/
def Respells (x y : Text) : Prop :=
  ∃ b s a, HasSymbol (trim x) b s a ∧ y = b ++ otherPi s ++ a

def respellings (t : Text) : List Text := ((piReading? (trim t)).map respelled).toList

theorem respells_of_mem {t m : Text} (h : m ∈ respellings t) : Respells t m := by
  simp only [respellings, Option.mem_toList, Option.map_eq_some_iff] at h
  obtain ⟨p, hp, rfl⟩ := h
  exact ⟨p.before, p.symbol, p.after, HasSymbol.of_reading hp, rfl⟩

theorem length_respellings_le (t : Text) : (respellings t).length ≤ 1 := by
  rw [respellings]
  cases piReading? (trim t) <;> simp

section

variable {x y z : Text}

theorem Respells.trim_eq (h : Respells x y) : trim y = y := by
  obtain ⟨b, s, a, hx, rfl⟩ := h
  exact hx.trim_other (trim_trim x)

/-- Respelling a second time undoes the first. -/
theorem Respells.undo (h : Respells x y) (h' : Respells y z) : z = trim x := by
  have htrim := h.trim_eq
  obtain ⟨b, s, a, hx, rfl⟩ := h
  obtain ⟨b', s', a', hy, rfl⟩ := h'
  rw [htrim] at hy
  obtain ⟨rfl, rfl, rfl⟩ := hx.other.unique hy
  rw [otherPi_otherPi hx.symbol, hx.eq]

/-- The symbol in the text without white space says what the respelled text is without
white space. -/
theorem Respells.compact_eq {b s a : Text} (h : Respells x y) (hx : HasSymbol (compact x) b s a) :
    compact y = b ++ otherPi s ++ a := by
  obtain ⟨b', s', a', hx', rfl⟩ := h
  have hcompact := hx'.compact
  rw [compact_trim] at hcompact
  obtain ⟨rfl, rfl, rfl⟩ := hx.unique hcompact
  exact hx'.other.compact.eq

theorem Respells.hasSymbol (h : Respells x y) : ∃ b s a, HasSymbol (compact x) b s a := by
  obtain ⟨b, s, a, hx, -⟩ := h
  have hcompact := hx.compact
  rw [compact_trim] at hcompact
  exact ⟨_, _, _, hcompact⟩

end

end AssessmentItems.PiSpellings
