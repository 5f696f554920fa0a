import AssessmentItems.Proofs.NumberGroups
import AssessmentItems.Proofs.RelationClasses

/-!
The size of a class. A formula that is neither a relation nor a number has six layouts at
most. A number has few layouts as well, and those of its respelling if π is in it; with
the coefficients that they read as and the decimals of all of these the class is still
smaller than the room for it. So no search from any value ends for want of room.
-/
namespace AssessmentItems.ClassSize

open Text OperatorSpacing AnswerRules AnswerClass TextClasses FormulaLayout ImplicitProducts
  Readings PiReadings PiSpellings NumberRules Relations RelationClasses NumberGroups AnswerClosure

/-- The layouts of plain texts, with the coefficients that they read as. -/
theorem stable_layouts {group cs : List Text} (hplain : ∀ t ∈ group, Plain t)
    (hlayout : ∀ t ∈ group, compact t ∈ group ∧ spaced t ∈ group)
    (hrespell : ∀ t ∈ group, ∀ m ∈ respellings t, m ∈ group)
    (hcompact : ∀ t ∈ group, compact t ∈ cs) :
    Stable (group ++ cs.flatMap coefficientGroup) := by
  intro t ht m hm
  rcases List.mem_append.1 ht with ht | ht
  · obtain ⟨hcompacted, hspaced⟩ := hlayout t ht
    rcases (hplain t ht).mem_variants hm with rfl | rfl | hm | hm | hm
    · exact Or.inl (List.mem_append_left _ hcompacted)
    · exact Or.inl (List.mem_append_left _ hspaced)
    · exact Or.inl (List.mem_append_left _ (hrespell t ht m hm))
    · refine Or.inl (List.mem_append_right _ (List.mem_flatMap.2 ⟨compact t, ?_, hm⟩))
      exact hcompact t ht
    · exact Or.inr hm
  · exact (Stable.flatMap stable_coefficientGroup cs t ht m hm).imp (List.mem_append_right _) id

theorem stable_without_symbol {value : Text} (hplain : Plain value)
    (hno : ¬ ∃ b s a, HasSymbol (compact value) b s a) :
    Stable ([value, compact value, spaced value] ++ [compact value].flatMap coefficientGroup) := by
  have hcompact : ∀ t ∈ [value, compact value, spaced value], compact t = compact value := by
    simp
  refine stable_layouts (fun t ht => hplain.of_compact (hcompact t ht)) (fun t ht => ?_)
    (fun t ht m hm => ?_) fun t ht => by simp [hcompact t ht]
  · rw [hcompact t ht, spaced_congr (hcompact t ht)]
    simp
  · have hsymbol := (respells_of_mem hm).hasSymbol
    rw [hcompact t ht] at hsymbol
    exact absurd hsymbol hno

/-- The layouts of a term in π and of the other spelling of its symbol. The second
argument is the other spelling without white space. -/
def piGroup (value other : Text) : List Text :=
  [value, trim value, compact value, spaced value] ++
    [value, compact value, spaced value].flatMap respellings ++ [other, spaced other] ++
    [other, spaced other].flatMap respellings

theorem length_piGroup_le (value other : Text) : (piGroup value other).length ≤ 11 := by
  have h := length_flatMap_le length_respellings_le [value, compact value, spaced value]
  have hother := length_flatMap_le length_respellings_le [other, spaced other]
  simp only [piGroup, List.length_append, List.length_cons, List.length_nil] at h hother ⊢
  omega

/-- The characters of a term in π are neither signs of relations nor parentheses. -/
theorem plain_of_hasSymbol {t b s a : Text} (h : HasSymbol (compact t) b s a) : Plain t := by
  have hchars : ∀ c ∈ compact t, isSide c = true ∨ c ∈ ['π', 'p', 'i'] := by
    rw [h.eq]
    intro c hc
    simp only [List.mem_append] at hc
    rcases hc with (hc | hc) | hc
    · exact Or.inl (h.before c hc)
    · rcases eq_of_mem_symbol h.symbol hc with rfl | rfl | rfl <;> exact Or.inr (by decide)
    · exact Or.inl (h.after c hc)
  have hno : ∀ c, isSpace c = false → isSide c = false → c ∉ ['π', 'p', 'i'] → c ∉ t := by
    intro c hspace hside hsymbol hc
    rcases hchars c (mem_compact.2 ⟨hc, hspace⟩) with hc | hc
    · simp [hc] at hside
    · exact hsymbol hc
  constructor
  · intro c hc
    by_contra hsign
    have hsign : isRelationSign c = true := by simpa using hsign
    revert hc
    rcases relationSign_cases hsign with rfl | rfl | rfl | rfl | rfl <;>
      exact hno _ (by decide) (by decide) (by decide)
  · exact implicitProducts_eq_self (Or.inr (hno '(' (by decide) (by decide) (by decide)))

section

variable {value b s a : Text} (h : HasSymbol (compact value) b s a)
include h

theorem compact_other : compact (b ++ otherPi s ++ a) = b ++ otherPi s ++ a := by
  have hspace : ∀ c ∈ b ++ s ++ a, isSpace c = false := fun c hc =>
    (mem_compact.1 (h.eq ▸ hc)).2
  refine compact_eq_self fun c hc => ?_
  simp only [List.mem_append] at hc hspace
  rcases hc with (hc | hc) | hc
  · exact hspace c (Or.inl (Or.inl hc))
  · exact (symbol_chars (isSymbol_otherPi s) c hc).2
  · exact hspace c (Or.inr hc)

/-- Without white space, respelling changes the two texts into one another. -/
theorem compact_respelling {x m : Text} (hm : m ∈ respellings x) :
    (compact x = compact value → compact m = b ++ otherPi s ++ a) ∧
      (compact x = b ++ otherPi s ++ a → compact m = compact value) := by
  have hrespells := respells_of_mem hm
  constructor
  · intro hx
    exact hrespells.compact_eq (hx ▸ h)
  · intro hx
    rw [hrespells.compact_eq (hx ▸ h.other), otherPi_otherPi h.symbol, h.eq]

theorem compact_of_mem_piGroup {t : Text} (ht : t ∈ piGroup value (b ++ otherPi s ++ a)) :
    compact t = compact value ∨ compact t = b ++ otherPi s ++ a := by
  have hfirst : ∀ x ∈ [value, trim value, compact value, spaced value],
      compact x = compact value := by
    simp
  have hother : ∀ x ∈ [b ++ otherPi s ++ a, spaced (b ++ otherPi s ++ a)],
      compact x = b ++ otherPi s ++ a := by
    simp only [List.forall_mem_cons, compact_spaced, compact_other h]
    simp
  simp only [piGroup, List.mem_append, List.mem_flatMap] at ht
  rcases ht with ((ht | ⟨x, hx, ht⟩) | ht) | ⟨x, hx, ht⟩
  · exact Or.inl (hfirst t ht)
  · exact Or.inr ((compact_respelling h ht).1 (hfirst x (by simp at hx ⊢; tauto)))
  · exact Or.inr (hother t ht)
  · exact Or.inl ((compact_respelling h ht).2 (hother x hx))

theorem respelling_mem_piGroup {t m : Text} (ht : t ∈ piGroup value (b ++ otherPi s ++ a))
    (hm : m ∈ respellings t) : m ∈ piGroup value (b ++ otherPi s ++ a) := by
  simp only [piGroup, List.mem_append, List.mem_flatMap] at ht ⊢
  rcases ht with ((ht | ⟨x, hx, ht⟩) | ht) | ⟨x, hx, ht⟩
  · have htrim : respellings (trim value) = respellings value := by
      rw [respellings, trim_trim, respellings]
    refine Or.inl (Or.inl (Or.inr ?_))
    simp only [List.mem_cons, List.not_mem_nil, or_false] at ht
    rcases ht with rfl | rfl | rfl | rfl
    · exact ⟨_, by simp, hm⟩
    · exact ⟨value, by simp, htrim ▸ hm⟩
    · exact ⟨_, by simp, hm⟩
    · exact ⟨_, by simp, hm⟩
  · rw [(respells_of_mem ht).undo (respells_of_mem hm)]
    simp only [List.mem_cons, List.not_mem_nil, or_false] at hx
    rcases hx with rfl | rfl | rfl
    · exact Or.inl (Or.inl (Or.inl (by simp)))
    · rw [trim_of_compact fun c hc => (mem_compact.1 hc).2]
      exact Or.inl (Or.inl (Or.inl (by simp)))
    · rw [trim_spaced]
      exact Or.inl (Or.inl (Or.inl (by simp)))
  · exact Or.inr ⟨t, ht, hm⟩
  · rw [(respells_of_mem ht).undo (respells_of_mem hm)]
    simp only [List.mem_cons, List.not_mem_nil, or_false] at hx
    rcases hx with rfl | rfl
    · rw [← compact_other h, trim_of_compact fun c hc => (mem_compact.1 hc).2, compact_other h]
      exact Or.inl (Or.inr (by simp))
    · rw [trim_spaced]
      exact Or.inl (Or.inr (by simp))

theorem stable_with_symbol :
    Stable (piGroup value (b ++ otherPi s ++ a) ++
      [compact value, b ++ otherPi s ++ a].flatMap coefficientGroup) := by
  have hother := compact_other h
  refine stable_layouts (fun t ht => ?_) (fun t ht => ?_)
    (fun t ht m hm => respelling_mem_piGroup h ht hm) fun t ht => ?_
  · rcases compact_of_mem_piGroup h ht with heq | heq
    · exact plain_of_hasSymbol (heq ▸ h)
    · exact plain_of_hasSymbol (heq ▸ h.other)
  · rcases compact_of_mem_piGroup h ht with heq | heq
    · rw [heq, spaced_congr heq]
      simp [piGroup]
    · rw [heq, spaced_congr (heq.trans hother.symm)]
      simp [piGroup]
  · rcases compact_of_mem_piGroup h ht with heq | heq
    · simp [heq]
    · simp [heq]

end

def layouts (value : Text) : List Text :=
  [value, compact value, spaced value, implicitProducts value,
    implicitProducts (compact value), spaced (implicitProducts value)]

/-- A formula whose layouts are neither numbers nor relations implies nothing else. -/
theorem layouts_closed {value : Text}
    (hnumber : ∀ t, compact t = compact value ∨ compact t = implicitProducts (compact value) →
      numberVariants t = [])
    (hrelation : ∀ t, compact t = compact value ∨ compact t = implicitProducts (compact value) →
      inequality t = [] ∧ equationSides t = []) :
    ∀ t ∈ layouts value, ∀ m ∈ variants t, m ∈ layouts value := by
  have hvariants : ∀ t m, (compact t = compact value ∨
      compact t = implicitProducts (compact value)) → m ∈ variants t →
      m = compact t ∨ m = spaced t ∨ m = implicitProducts t := by
    intro t m ht hm
    rw [NumberRules.mem_variants, hnumber t ht, (hrelation t ht).1, (hrelation t ht).2] at hm
    rcases hm with hm | hm | hm | hm | hm
    · simp at hm
    · exact (mem_algebraicSpacing hm).imp id Or.inl
    · exact Or.inr (Or.inr (mem_implicitMultiplication.1 hm).1)
    · simp at hm
    · simp at hm
  have hcompact := compact_implicitProducts value
  have hspaced : spaced (implicitProducts (compact value)) = spaced (implicitProducts value) := by
    rw [← hcompact, spaced_compact]
  intro t ht m hm
  simp only [layouts, List.mem_cons, List.not_mem_nil, or_false] at ht ⊢
  rcases ht with rfl | rfl | rfl | rfl | rfl | rfl
  · rcases hvariants _ m (Or.inl rfl) hm with rfl | rfl | rfl <;> simp
  · rcases hvariants _ m (Or.inl (by simp)) hm with rfl | rfl | rfl <;> simp
  · rcases hvariants _ m (Or.inl (by simp)) hm with rfl | rfl | rfl <;>
      simp [implicitProducts_spaced]
  · rcases hvariants _ m (Or.inr hcompact) hm with rfl | rfl | rfl <;> simp [hcompact]
  · rcases hvariants _ m (Or.inr (by rw [← hcompact, compact_compact])) hm with rfl | rfl | rfl <;>
      simp [hspaced, compact_implicitProducts]
  · rcases hvariants _ m (Or.inr (by rw [compact_spaced, hcompact])) hm with rfl | rfl | rfl <;>
      simp [implicitProducts_spaced, hcompact]

/-- A number has its parenthesis at its front, where no star is left out before it. -/
theorem implicitProducts_front {t sign rest : Text} (hsign : IsSign sign) (hrest : '(' ∉ rest)
    (h : implicitProducts t = sign ++ '(' :: rest) : implicitProducts t = t := by
  have hfront : ∀ u, implicitProducts u = '(' :: rest → implicitProducts u = u := by
    intro u hu
    cases u with
    | nil => rfl
    | cons c u =>
      obtain ⟨rest', hrest'⟩ := exists_implicitProducts_cons c u
      obtain rfl : c = '(' := (List.cons.inj (hrest'.symm.trans hu)).1
      rw [implicitProducts_cons (by decide), List.cons.injEq] at hu
      have hno : '(' ∉ u := fun hmem =>
        hrest (hu.2 ▸ mem_implicitProducts (by decide) (by decide) hmem)
      rw [implicitProducts_cons (by decide), implicitProducts_eq_self (Or.inr hno)]
  rcases hsign with rfl | rfl
  · exact hfront t h
  · cases t with
    | nil => rfl
    | cons c t =>
      obtain ⟨rest', hrest'⟩ := exists_implicitProducts_cons c t
      obtain rfl : c = '-' := (List.cons.inj (hrest'.symm.trans h)).1
      rw [implicitProducts_cons (by decide), List.singleton_append, List.cons.injEq] at h
      rw [implicitProducts_cons (by decide), hfront t h.2]

/-- A formula with a star to leave out is no number, with that star or without it. -/
theorem product_not_number {value : Text} (hstar : implicitProducts value ≠ value) {t : Text}
    (ht : compact t = compact value ∨ compact t = implicitProducts (compact value)) :
    numberVariants t = [] := by
  obtain ⟨hs, hp⟩ : '*' ∈ value ∧ '(' ∈ value := by
    by_contra hno
    exact hstar (implicitProducts_eq_self (by tauto))
  have hp' : '(' ∈ compact value := mem_compact.2 ⟨hp, by decide⟩
  refine List.eq_nil_iff_forall_not_mem.2 fun m hm => ?_
  have hparen : '(' ∈ t := by
    rcases ht with ht | ht
    · exact (mem_compact.1 (ht ▸ hp')).1
    · exact (mem_compact.1 (ht ▸ mem_implicitProducts (by decide) (by decide) hp')).1
  obtain ⟨sign, rest, hsign, hrest, hreststar, htrim⟩ := parenthesis_of_mem_numberVariants hm hparen
  rcases ht with ht | ht
  · have hmem : '*' ∈ t := (mem_compact.1 (ht ▸ mem_compact.2 ⟨hs, by decide⟩)).1
    have hmem := mem_trim hmem (by decide)
    rw [htrim] at hmem
    rcases List.mem_append.1 hmem with hmem | hmem
    · exact absurd (eq_of_mem_sign hsign hmem) (by decide)
    · simp [hreststar] at hmem
  · have hcompact : implicitProducts (compact value) = sign ++ '(' :: compact rest := by
      rw [← ht, ← compact_trim, htrim, compact_append, compact_cons_of_not_isSpace (by decide)]
      rcases hsign with rfl | rfl <;> rfl
    have hfront := implicitProducts_front hsign (fun h => hrest (mem_compact.1 h).1) hcompact
    exact hstar (implicitProducts_compact_eq.1 hfront)

def Fits (value : Text) : Prop :=
  ∃ ts : List Text, value ∈ ts ∧ (∀ t ∈ ts, ∀ m ∈ variants t, m ≠ [] → m ∈ ts) ∧
    ts.length < capacity

theorem fits_of_stable {value : Text} {group : List Text} (hmem : value ∈ group)
    (h : Stable group) (hlength : group.length ≤ 35) : Fits value := by
  refine ⟨withDecimals group, List.mem_append_left _ hmem,
    fun t ht m hm _ => withDecimals_closed h t ht m hm, ?_⟩
  have hle := length_withDecimals_le group
  simp only [capacity]
  omega

theorem fits_plain {value : Text} (hplain : Plain value) : Fits value := by
  by_cases hsymbol : ∃ b s a, HasSymbol (compact value) b s a
  · obtain ⟨b, s, a, hsymbol⟩ := hsymbol
    refine fits_of_stable ?_ (stable_with_symbol hsymbol) ?_
    · exact List.mem_append_left _ (by simp [piGroup])
    · have hgroup := length_piGroup_le value (b ++ otherPi s ++ a)
      have hcoefficients := length_flatMap_le length_coefficientGroup_le
        [compact value, b ++ otherPi s ++ a]
      rw [List.length_append]
      simp only [List.length_cons, List.length_nil] at hcoefficients
      omega
  · refine fits_of_stable ?_ (stable_without_symbol hplain hsymbol) ?_
    · exact List.mem_append_left _ List.mem_cons_self
    · have hcoefficients := length_flatMap_le length_coefficientGroup_le [compact value]
      simp only [List.length_append, List.length_cons, List.length_nil] at hcoefficients ⊢
      omega

theorem fits_formula {value : Text} (hplain : ¬ Plain value)
    (hno : ¬ ∃ left sign right, Relates value left sign right) : Fits value := by
  have hrelation : ∀ t, (compact t = compact value ∨
      compact t = implicitProducts (compact value)) →
      inequality t = [] ∧ equationSides t = [] := by
    intro t ht
    have hnone : ¬ ∃ left sign right, Relates t left sign right := by
      rintro ⟨left, sign, right, hl, hr, s, hs, heq⟩
      rcases ht with ht | ht
      · exact hno ⟨left, sign, right, hl, hr, s, hs, ht ▸ heq⟩
      · rw [← compact_implicitProducts] at ht
        obtain ⟨left', right', h⟩ := Relates.exists_withStars ⟨hl, hr, s, hs, ht ▸ heq⟩
        exact hno ⟨left', sign, right', h⟩
    constructor
    · exact List.eq_nil_iff_forall_not_mem.2 fun m hm => hnone (exists_relates (Or.inl hm))
    · exact List.eq_nil_iff_forall_not_mem.2 fun m hm => hnone (exists_relates (Or.inr hm))
  have hnumber : ∀ t, (compact t = compact value ∨
      compact t = implicitProducts (compact value)) → numberVariants t = [] := by
    intro t ht
    by_cases hstar : implicitProducts value = value
    · obtain ⟨c, hc, hsign⟩ : ∃ c ∈ value, isRelationSign c = true := by
        by_contra hnone
        exact hplain ⟨by simpa using hnone, hstar⟩
      rw [implicitProducts_compact_eq.2 hstar, or_self] at ht
      have hmem : c ∈ compact t := ht ▸ mem_compact.2 ⟨hc, (relationSign_barrier hsign).2.1⟩
      exact numberVariants_eq_nil hsign (mem_compact.1 hmem).1
    · exact product_not_number hstar ht
  exact ⟨layouts value, List.mem_cons_self,
    fun t ht m hm _ => layouts_closed hnumber hrelation t ht m hm, by simp [layouts, capacity]⟩

theorem fits (value : Text) : Fits value := by
  by_cases hplain : Plain value
  · exact fits_plain hplain
  · by_cases hrelates : ∃ left sign right, Relates value left sign right
    · obtain ⟨left, sign, right, h⟩ := hrelates
      exact ⟨_, List.mem_cons_self, members_closed h,
        lt_of_le_of_lt (length_members_le value left sign right) (by decide)⟩
    · exact fits_formula hplain hrelates

/-- The class of every value is smaller than the room for it, no search ends for want of
room, and the class of a member is part of the class. -/
theorem class_small (value : Text) :
    (closure value).Finite ∧ (closure value).encard < capacity ∧
      (∀ accepted, ¬ Visits value (.full accepted)) ∧
      ∀ m ∈ expand value, expand m ⊆ expand value := by
  obtain ⟨ts, hmem, hclosed, hlength⟩ := fits value
  have hsub := closure_subset_list hmem hclosed
  have hsmall : (closure value).encard < capacity :=
    lt_of_le_of_lt ((Set.encard_le_encard hsub).trans (encard_members_le ts))
      (by exact_mod_cast hlength)
  refine ⟨?_, hsmall, fun accepted h => ?_, fun m hm => expand_subset hsmall.le hm⟩
  · exact (List.finite_toSet ts).subset hsub
  · exact lt_asymm hsmall (capacity_lt_of_full h)

end AssessmentItems.ClassSize
