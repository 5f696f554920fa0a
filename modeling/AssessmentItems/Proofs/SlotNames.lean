import AssessmentItems.Proofs.Substitution
import AssessmentItems.Proofs.WellFormedItems

/-!
The names of slots, as they are checked in an item, printed in a placeholder and found in a text.
A valid name can be referred to, and no text refers to any other, whatever it is made of: quotes,
line breaks or whole placeholders. Where a slot is referred to between two texts, its content
comes to stand there exactly if nothing in the result looks like a slot.
-/
namespace AssessmentItems.SlotNames

open Text Slots Placeholders Tags Substitution WellFormedItems

theorem isValidName_of_referenced {content name : Text} (h : name ∈ referenced content) :
    isValidName name = true := by
  obtain ⟨p, hp, rfl⟩ := mem_referenced.1 h
  exact (mem_occurrences_segments.1 hp).1.valid

/-- The placeholder of a name refers to it exactly if the name is valid. -/
theorem referenced_placeholder_iff {name : Text} :
    referenced (placeholder name) = [name] ↔ isValidName name = true := by
  constructor
  · intro h
    have hmem : name ∈ referenced (placeholder name) := by
      rw [h]
      exact List.mem_singleton_self name
    exact isValidName_of_referenced hmem
  · exact referenced_placeholder

/-- A name is valid exactly if some text refers to it. -/
theorem exists_referenced_iff {name : Text} :
    (∃ content, name ∈ referenced content) ↔ isValidName name = true := by
  constructor
  · rintro ⟨content, h⟩
    exact isValidName_of_referenced h
  · intro h
    refine ⟨placeholder name, ?_⟩
    rw [referenced_placeholder h]
    exact List.mem_singleton_self name

theorem ofSlotName_iff_isValidName {path name : Text} :
    Structure.ofSlotName path name = none ↔ isValidName name = true := by
  rw [Structure.ofSlotName, report_eq_none, Bool.not_eq_false']

section

variable {slots : SlotTable} {room : ℕ} {active : List Text} {a b t name : Text}

/-- Every part of a text without tags that look like slots stays as it is. -/
theorem substitute_part_of_leftover (h : leftover t = []) (hpart : a <:+: t) :
    substitute slots room active a = .ok a :=
  (substitute_literal (referenced_of_leftover (leftover_of_part h hpart))).2 rfl

/-- A slot is filled between two texts, if nothing is left over in the three together. -/
theorem substitute_between_texts (hname : isValidName name = true)
    (hfills : Fills slots room active name t) (h : leftover (a ++ t ++ b) = []) :
    substitute slots room active (a ++ placeholder name ++ b) = .ok (a ++ t ++ b) := by
  have hfront : substitute slots room active a = .ok a :=
    substitute_part_of_leftover h ⟨[], t ++ b, by simp⟩
  have hslot : substitute slots room active (placeholder name) = .ok t :=
    (substitute_placeholder hname).2 hfills
  have hback : substitute slots room active b = .ok b :=
    substitute_part_of_leftover h (List.suffix_append _ _).isInfix
  have hfilled : leftover (a ++ t) = [] := leftover_of_part h (List.prefix_append _ _).isInfix
  exact substitute_append_of_leftover (substitute_append_of_leftover hfront hslot hfilled) hback h

end

/-- The check on names, the printing of placeholders and the search for them agree on every text.
With a valid name, a placeholder between two texts gives way to the content of its slot exactly
if no tag that looks like a slot comes about. -/
theorem slot_names_agree (name : Text) :
    (isValidName name = true ↔ referenced (placeholder name) = [name]) ∧
    (isValidName name = true ↔ ∃ content, name ∈ referenced content) ∧
    (∀ path, isValidName name = true ↔ Structure.ofSlotName path name = none) ∧
    (isValidName name = true → ∀ (slots : SlotTable) (a t b : Text),
      Table.find? name slots = some t →
        (resolve slots (a ++ placeholder name ++ b) = .ok (a ++ t ++ b) ↔
          looseTags (a ++ t ++ b) = [])) := by
  refine ⟨referenced_placeholder_iff.symm, exists_referenced_iff.symm,
    fun _ => ofSlotName_iff_isValidName.symm, fun hname slots a t b hfind => ?_⟩
  have hloose : looseTags (a ++ t ++ b) = [] ↔ leftover (a ++ t ++ b) = [] :=
    looseTags_eq_nil.trans leftover_eq_nil.symm
  rw [resolve_eq_ok, hloose]
  refine ⟨And.right, fun h => ⟨substitute_between_texts hname ?_ h, h⟩⟩
  have hinner : substitute slots (maxDepth - 1) ([] ++ [name]) t = .ok t :=
    substitute_part_of_leftover h ⟨a, b, rfl⟩
  exact ⟨t, maxDepth - 1, rfl, hfind, List.not_mem_nil, hinner⟩

/-- The texts on both sides begin a tag, which the placeholder between them does not end. -/
theorem slot_names_agree_begun :
    let slots : SlotTable := [("s-1", "me")]
    let front : Text := "<slot na"
    let back : Text := "=\"c\"/"
    isValidName "s-1" = true ∧ Table.find? "s-1" slots = some "me" ∧
      resolve slots (front ++ placeholder "s-1" ++ back) = .ok "<slot name=\"c\"/" := by
  intro slots front back
  have hname : isValidName "s-1" = true := by decide
  have hfind : Table.find? "s-1" slots = some "me" := by decide
  obtain ⟨-, -, -, hresolve⟩ := slot_names_agree "s-1"
  exact ⟨hname, hfind, (hresolve hname slots front "me" back hfind).2 (by decide)⟩

/-- The placeholder of a text that is no name can be two placeholders. -/
example : referenced (placeholder "a\"/><slot name=\"b") = ["a", "b"] := by decide

end AssessmentItems.SlotNames
