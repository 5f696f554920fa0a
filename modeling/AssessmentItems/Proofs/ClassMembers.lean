import AssessmentItems.Proofs.ClassSize
import AssessmentItems.Proofs.FractionClasses

/-!
The members of a class, as they are listed. Every class has room, so all that the rules derive
is listed, in ascending order and without the empty text, which no rule gives. Values that
derive one another have one list.
-/
namespace AssessmentItems.ClassMembers

open Text AnswerRules AnswerClass TextClasses FormulaLayout ImplicitProducts Readings PiReadings
  PiSpellings NumberRules Relations RelationClasses CoefficientClasses NumberGroups
  FractionClasses AnswerClosure

theorem ne_nil_of_mem_fractionalCoefficient {t m : Text} (h : m ∈ fractionalCoefficient t) :
    m ≠ [] := by
  obtain ⟨c, r, hc, -, -, heq⟩ := exists_coefficient h
  have hletters := (tight_spelling hc (heq ▸ h)).2
  rintro rfl
  exact (isLetters_iff.1 hc.letters).1 hletters.symm

theorem ne_nil_of_mem_piApproximation {t m : Text} (h : m ∈ piApproximation t) : m ≠ [] := by
  obtain ⟨p, r, -, -, rfl | ⟨decimal, hdecimal, rfl⟩⟩ := mem_piApproximation.1 h
  · simp [respelled, symbol_ne_nil (isSymbol_otherPi p.symbol)]
  · simp [ne_nil_of_toDecimal? hdecimal]

theorem ne_nil_of_mem_fractionDecimal {t m : Text} (h : m ∈ fractionDecimal t) : m ≠ [] := by
  obtain ⟨sign, _, _, r, decimal, -, -, -, -, -, hdecimal, rfl⟩ := mem_fractionDecimal.1 h
  simp [ne_nil_of_toDecimal? hdecimal]

theorem ne_nil_of_mem_algebraicSpacing {t m : Text} (h : m ∈ algebraicSpacing t) : m ≠ [] := by
  obtain ⟨hformula, hm⟩ := mem_algebraicSpacing_iff.1 h
  have hcompact : compact t = compact m := by
    rcases hm with rfl | rfl
    · exact (compact_compact t).symm
    · exact (compact_spaced t).symm
  rintro rfl
  obtain ⟨c, hc, -⟩ := hformula.of_compact hcompact
  simp at hc

theorem ne_nil_of_mem_relationRules {t m : Text} (h : m ∈ inequality t ∨ m ∈ equationSides t) :
    m ≠ [] := by
  obtain ⟨left, sign, right, hrelates⟩ := exists_relates h
  rcases relates_of_mem_forms hrelates ((mem_rules hrelates).1 h) with hm | hm
  · exact hm.ne_nil
  · exact hm.ne_nil

/-- No rule gives the empty text. -/
theorem ne_nil_of_mem_variants {t m : Text} (h : m ∈ variants t) : m ≠ [] := by
  rcases NumberRules.mem_variants.1 h with h | h | h | h
  · simp only [numberVariants, List.mem_append] at h
    rcases h with ((h | h) | h) | h
    · exact ne_nil_of_mem_leadingZero h
    · exact ne_nil_of_mem_fractionDecimal h
    · exact ne_nil_of_mem_fractionalCoefficient h
    · exact ne_nil_of_mem_piApproximation h
  · exact ne_nil_of_mem_algebraicSpacing h
  · obtain ⟨rfl, hne⟩ := mem_implicitMultiplication.1 h
    intro hnil
    rw [implicitProducts_eq_nil] at hnil
    subst hnil
    exact hne rfl
  · exact ne_nil_of_mem_relationRules h

theorem mem_closure_of_mem_variants {value t m : Text} (ht : t ∈ closure value)
    (hm : m ∈ variants t) : m ∈ closure value :=
  closed_closure value t ht m hm (ne_nil_of_mem_variants hm)

/-- What is listed is what the rules derive. -/
theorem mem_expand {value m : Text} : m ∈ expand value ↔ m ∈ closure value := by
  obtain ⟨ts, hmem, hclosed, hlength⟩ := ClassSize.fits value
  have hle := (Set.encard_le_encard (closure_subset_list hmem hclosed)).trans (encard_members_le ts)
  exact mem_expand_iff (hle.trans (by exact_mod_cast hlength.le))

def Ascends (ts : List Text) : Prop := ts.Pairwise (· < ·)

theorem Ascends.insertAscending {ts : List Text} (h : Ascends ts) (t : Text) :
    Ascends (insertAscending t ts) := by
  induction ts with
  | nil => exact List.pairwise_singleton _ _
  | cons u rest ih =>
    obtain ⟨hfirst, hrest⟩ := List.pairwise_cons.1 h
    simp only [Text.insertAscending]
    split_ifs with hlt heq
    · refine List.pairwise_cons.2 ⟨fun m hm => ?_, h⟩
      rcases List.mem_cons.1 hm with rfl | hm
      · exact hlt
      · exact List.lt_trans hlt (hfirst m hm)
    · exact h
    · refine List.pairwise_cons.2 ⟨fun m hm => ?_, ih hrest⟩
      rcases mem_insertAscending.1 hm with rfl | hm
      · by_contra hnot
        exact heq (List.le_antisymm hnot hlt)
      · exact hfirst m hm

def accepted : Absorbed → List Text
  | .full ts => ts
  | .within ts _ => ts

theorem Ascends.absorb {ts : List Text} (h : Ascends ts) (frontier offered : List Text) :
    Ascends (accepted (absorb ts frontier offered)) := by
  induction offered generalizing ts frontier with
  | nil => exact h
  | cons t rest ih =>
    simp only [AnswerClass.absorb]
    split_ifs
    · exact ih h frontier
    · exact h
    · exact ih (h.insertAscending t) (t :: frontier)

theorem Ascends.close {ts frontier : List Text} (h : Ascends ts) : Ascends (close ts frontier) := by
  induction ts, frontier using close.induct with
  | case1 ts => rwa [AnswerClass.close]
  | case2 ts t frontier ts' hstep =>
    have hnext := h.absorb frontier (ascending (variants t))
    rw [hstep] at hnext
    rwa [AnswerClass.close, hstep]
  | case3 ts t frontier ts' frontier' hstep ih =>
    have hnext := h.absorb frontier (ascending (variants t))
    rw [hstep] at hnext
    rw [AnswerClass.close, hstep]
    exact ih hnext

theorem ascends_expand (value : Text) : Ascends (expand value) :=
  Ascends.close (List.pairwise_singleton _ _)

/-- Values that derive one another have one list. -/
theorem expand_eq_of_mem {v w : Text} (hv : v ∈ closure w) (hw : w ∈ closure v) :
    expand v = expand w := by
  refine List.Pairwise.eq_of_mem_iff (ascends_expand v) (ascends_expand w) fun m => ?_
  rw [mem_expand, mem_expand]
  exact ⟨fun hm => closure_mono hv hm, fun hm => closure_mono hw hm⟩

/-- A value that implies nothing but itself is alone in its class. -/
theorem expand_alone {v : Text} (h : ∀ m ∈ variants v, m = v) : expand v = [v] := by
  refine List.Pairwise.eq_of_mem_iff (ascends_expand v) (List.pairwise_singleton _ _) fun m => ?_
  have hclosed : ∀ t ∈ [v], ∀ m ∈ variants t, m ≠ [] → m ∈ [v] := fun t ht m hm _ => by
    obtain rfl := List.mem_singleton.1 ht
    exact List.mem_singleton.2 (h m hm)
  rw [mem_expand]
  refine ⟨fun hm => closure_subset_list (List.mem_singleton_self v) hclosed hm, fun hm => ?_⟩
  exact List.mem_singleton.1 hm ▸ mem_closure_self v

end AssessmentItems.ClassMembers
