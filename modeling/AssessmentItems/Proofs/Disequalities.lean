import AssessmentItems.Proofs.RelationClasses

/-!
The class of a disequality. The rules know no sign of two characters but those of comparisons,
so a disequality is read as an equation whose left side ends with an exclamation mark. Its sides
change places like those of any equation, and the mark goes with the left one.
-/
namespace AssessmentItems.Disequalities

open Text AnswerRules AnswerClass TextClasses ImplicitProducts Relations RelationClasses

def IsOperand (t : Text) : Prop :=
  t ≠ [] ∧ ∀ c ∈ t, isSpace c = false ∧ c ∉ ("=<>≤≥!" : Text)

theorem IsOperand.isSide {t : Text} (h : IsOperand t) : IsSide t := by
  refine ⟨h.1, fun c hc => ?_⟩
  by_contra hsign
  have hno := (h.2 c hc).2
  rcases relationSign_cases (by simpa using hsign) with rfl | rfl | rfl | rfl | rfl <;>
    exact hno (by decide)

/-- The side with the mark that it takes from the sign. -/
theorem IsOperand.marked {t : Text} (h : IsOperand t) : IsSide (t ++ ['!']) := by
  refine ⟨by simp, ?_⟩
  rw [List.forall_mem_append]
  exact ⟨h.isSide.2, forall_mem_of_all (by decide)⟩

theorem IsOperand.not_mem {t : Text} (h : IsOperand t) : '=' ∉ t ∧ '!' ∉ t :=
  ⟨fun hc => (h.2 _ hc).2 (by decide), fun hc => (h.2 _ hc).2 (by decide)⟩

/-- The two readings of the equation, and how they are without the stars of products. -/
theorem readings_disequality (left right : Text) :
    readings (left ++ ['!']) .equal right =
        [left ++ '!' :: '=' :: right, right ++ '=' :: (left ++ ['!'])] ∧
      implicitProducts (left ++ '!' :: '=' :: right) =
        implicitProducts left ++ '!' :: '=' :: implicitProducts right ∧
      implicitProducts (right ++ '=' :: (left ++ ['!'])) =
        implicitProducts right ++ '=' :: (implicitProducts left ++ ['!']) := by
  have hmark : ∀ t, implicitProducts (left ++ '!' :: t) =
      implicitProducts left ++ '!' :: implicitProducts t := fun t =>
    implicitProducts_append_cons (by decide) (by decide) (by decide) (by decide) left t
  refine ⟨by simp [readings, Sign.spellings, Sign.flip], ?_, ?_⟩
  · rw [hmark, implicitProducts_cons (by decide)]
  · rw [implicitProducts_append_cons (by decide) (by decide) (by decide) (by decide), hmark]
    rfl

section

variable {left right : Text} (hleft : IsOperand left) (hright : IsOperand right)
include hleft hright

theorem compact_disequality :
    compact (left ++ '!' :: '=' :: right) = left ++ '!' :: '=' :: right := by
  refine compact_eq_self ?_
  simp only [List.forall_mem_append, List.forall_mem_cons]
  exact ⟨fun c hc => (hleft.2 c hc).1, by decide, by decide, fun c hc => (hright.2 c hc).1⟩

/-- A disequality is an equation. -/
theorem relates_disequality :
    Relates (left ++ '!' :: '=' :: right) (left ++ ['!']) .equal right := by
  refine ⟨hleft.marked, hright.isSide, ['='], List.mem_singleton_self _, ?_⟩
  rw [compact_disequality hleft hright]
  simp

/-- What is accepted is the disequality, and the equation of its right side with its marked left
side, each with and without the stars of products. -/
theorem exists_member_disequality {t : Text} :
    (∃ m ∈ expand (left ++ '!' :: '=' :: right), compact m = t) ↔
      ∃ a b, (a = left ∧ b = right ∨ a = implicitProducts left ∧ b = implicitProducts right) ∧
        (t = a ++ '!' :: '=' :: b ∨ t = b ++ '=' :: (a ++ ['!'])) := by
  obtain ⟨hreadings, hkept, hturned⟩ := readings_disequality left right
  rw [exists_member_iff (relates_disequality hleft hright), hreadings]
  simp only [List.mem_cons, List.not_mem_nil, or_false]
  constructor
  · rintro ⟨r, rfl | rfl, rfl | rfl⟩
    · exact ⟨left, right, Or.inl ⟨rfl, rfl⟩, Or.inl rfl⟩
    · exact ⟨_, _, Or.inr ⟨rfl, rfl⟩, Or.inl hkept⟩
    · exact ⟨left, right, Or.inl ⟨rfl, rfl⟩, Or.inr rfl⟩
    · exact ⟨_, _, Or.inr ⟨rfl, rfl⟩, Or.inr hturned⟩
  · rintro ⟨a, b, ⟨rfl, rfl⟩ | ⟨rfl, rfl⟩, rfl | rfl⟩
    · exact ⟨_, Or.inl rfl, Or.inl rfl⟩
    · exact ⟨_, Or.inr rfl, Or.inl rfl⟩
    · exact ⟨_, Or.inl rfl, Or.inr hkept.symm⟩
    · exact ⟨_, Or.inr rfl, Or.inr hturned.symm⟩

theorem turned_mem_expand :
    right ++ '=' :: (left ++ ['!']) ∈ expand (left ++ '!' :: '=' :: right) := by
  have hread := (readings_disequality left right).1
  refine (mem_expand_relation (relates_disequality hleft hright)).2 (mem_members.2 ?_)
  exact Or.inr (Or.inr ⟨_, by rw [hread]; simp, _, List.mem_cons_self, Or.inl rfl⟩)

/-- The disequality from its other side is accepted only if both sides are the same. -/
theorem swapped_mem_expand_iff :
    right ++ '!' :: '=' :: left ∈ expand (left ++ '!' :: '=' :: right) ↔ left = right := by
  constructor
  · intro hm
    obtain ⟨a, b, hsides, h⟩ := (exists_member_disequality hleft hright).1
      ⟨_, hm, compact_disequality hright hleft⟩
    rcases h with h | h
    · have hmark : '!' ∉ '=' :: left := by simp [hleft.not_mem.2]
      obtain ⟨ha, -, hb⟩ := (List.append_cons_inj_of_notMem hright.not_mem.2 hmark).1 h
      have hb := (List.cons.inj hb).2
      rcases hsides with ⟨rfl, rfl⟩ | ⟨rfl, rfl⟩
      · exact hb
      · calc left = implicitProducts right := hb
          _ = implicitProducts (implicitProducts left) := by rw [← ha]
          _ = implicitProducts left := implicitProducts_idem left
          _ = right := ha.symm
    · have hfront : '=' ∉ right ++ ['!'] := by simp [hright.not_mem.1]
      have hsplit : (right ++ ['!']) ++ '=' :: left = b ++ '=' :: (a ++ ['!']) := by simpa using h
      obtain ⟨hb, -⟩ := (List.append_cons_inj_of_notMem hfront hleft.not_mem.1).1 hsplit
      have hmem : '!' ∈ b := by simp [← hb]
      refine absurd ?_ hright.not_mem.2
      rcases hsides with ⟨-, rfl⟩ | ⟨-, rfl⟩
      · exact hmem
      · exact mem_of_mem_implicitProducts hmem
  · rintro rfl
    exact (mem_expand_relation (relates_disequality hleft hright)).2 List.mem_cons_self

end

/-- The class of a disequality has the equation of its right side with its left side and the
mark, and nothing beside these two but what leaving out the stars of products makes of them. -/
theorem disequality_class (left right : Text) (hleft : IsOperand left) (hright : IsOperand right) :
    (∀ t, (∃ m ∈ expand (left ++ '!' :: '=' :: right), compact m = t) ↔
      ∃ a b, (a = left ∧ b = right ∨ a = implicitProducts left ∧ b = implicitProducts right) ∧
        (t = a ++ '!' :: '=' :: b ∨ t = b ++ '=' :: (a ++ ['!']))) ∧
    right ++ '=' :: (left ++ ['!']) ∈ expand (left ++ '!' :: '=' :: right) ∧
    (right ++ '!' :: '=' :: left ∈ expand (left ++ '!' :: '=' :: right) ↔ left = right) :=
  ⟨fun _ => exists_member_disequality hleft hright, turned_mem_expand hleft hright,
    swapped_mem_expand_iff hleft hright⟩

theorem isOperand_x : IsOperand "x" := ⟨by decide, forall_mem_of_all (by decide)⟩

theorem isOperand_five : IsOperand "5" := ⟨by decide, forall_mem_of_all (by decide)⟩

theorem disequality_class_x_five :
    IsOperand "x" ∧ IsOperand "5" ∧ ("5=x!" : Text) ∈ expand "x!=5" ∧
      (("5!=x" : Text) ∈ expand "x!=5" ↔ ("x" : Text) = "5") := by
  obtain ⟨-, hturned, hswapped⟩ := disequality_class "x" "5" isOperand_x isOperand_five
  exact ⟨isOperand_x, isOperand_five, hturned, hswapped⟩

/-- Not every member is the disequality or the same one from its other side. -/
theorem disequality_not_kept :
    ¬ ∀ left right, IsOperand left → IsOperand right →
      ∀ m ∈ expand (left ++ '!' :: '=' :: right),
        ∃ a ∈ [left, implicitProducts left], ∃ b ∈ [right, implicitProducts right],
          compact m = a ++ '!' :: '=' :: b ∨ compact m = b ++ '!' :: '=' :: a := by
  intro hall
  obtain ⟨a, ha, b, hb, h⟩ := hall "x" "5" isOperand_x isOperand_five _
    (turned_mem_expand isOperand_x isOperand_five)
  have hx : implicitProducts "x" = "x" := by decide
  have hfive : implicitProducts "5" = "5" := by decide
  simp only [hx, hfive, List.mem_cons, List.not_mem_nil, or_false, or_self] at ha hb
  subst ha hb
  revert h
  decide

end AssessmentItems.Disequalities
