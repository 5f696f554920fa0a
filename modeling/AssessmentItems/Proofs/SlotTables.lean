import AssessmentItems.Proofs.Compilation
import AssessmentItems.Proofs.NestingDepth
import AssessmentItems.Proofs.RenderedMath
import AssessmentItems.Proofs.Tables

/-!
What a compilation that succeeded went through: all fragments of the item were accepted, the
table of slots was filled, and what the item shows was resolved against it. Each slot of the
table holds an embedded widget or the markup of an interaction.
-/
namespace AssessmentItems.SlotTables

open ContentRules Slots Results Compilation FilledMarkup SlotContents RenderedMath Tables

section

variable {item : AssessmentItem} {ws : Table Widget} {slots : SlotTable} {slot inner : Text}

theorem widgetFilling_eq_ok {renderer : Renderer} {w : Widget} :
    Compiler.widgetFilling renderer item slot w = .ok inner ↔ ∃ rendered,
      renderer w = .ok rendered ∧
        w.embed ((Table.find? slot item.widgets).bind WidgetSpec.alt) rendered = inner := by
  unfold Compiler.widgetFilling
  cases renderer w <;> simp

/-- A slot is filled for a widget or for an interaction of its name. -/
theorem filled_cases {renderer : Renderer} (h : Compiler.slotTable renderer item ws = .ok slots)
    (hinner : Table.find? slot slots = some inner) :
    (∃ w, (slot, w) ∈ ws ∧ Compiler.widgetFilling renderer item slot w = .ok inner) ∨
      ∃ i, (slot, i) ∈ item.interactions ∧ inner = i.markup := by
  obtain ⟨fillings, hfillings, h⟩ := bind_eq_ok.1 h
  obtain rfl := Except.ok.inj h
  rw [find?_ofEntries] at hinner
  rcases List.mem_append.1 (List.mem_reverse.1 (mem_of_find? hinner)) with hmem | hmem
  · obtain ⟨⟨n, w⟩, hw, hfilling⟩ := mem_of_mapM hfillings hmem
    obtain ⟨filling, hwidget, heq⟩ := bind_eq_ok.1 hfilling
    obtain ⟨rfl, rfl⟩ := Prod.mk.inj (Except.ok.inj heq)
    exact Or.inl ⟨w, hw, hwidget⟩
  · obtain ⟨⟨n, i⟩, hi, heq⟩ := List.mem_map.1 hmem
    obtain ⟨rfl, rfl⟩ := Prod.mk.inj heq
    exact Or.inr ⟨i, hi, rfl⟩

/-- A slot holds an embedded widget or the markup of an interaction. -/
theorem slot_cases (h : Compiler.slotTable Widget.placeholder item ws = .ok slots)
    (hinner : Table.find? slot slots = some inner) :
    (∃ w alt rendered, Widget.placeholder w = .ok rendered ∧ inner = w.embed alt rendered) ∨
      ∃ i, (slot, i) ∈ item.interactions ∧ inner = i.markup := by
  rcases filled_cases h hinner with ⟨w, -, hfilling⟩ | hinteraction
  · obtain ⟨rendered, hrendered, rfl⟩ := widgetFilling_eq_ok.1 hfilling
    exact Or.inl ⟨w, _, rendered, hrendered, rfl⟩
  · exact Or.inr hinteraction

theorem tagged_slot (h : Compiler.slotTable Widget.placeholder item ws = .ok slots)
    (hinner : Table.find? slot slots = some inner) : Tagged inner := by
  rcases slot_cases h hinner with ⟨w, alt, rendered, hrendered, rfl⟩ | ⟨i, -, rfl⟩
  · exact tagged_widget hrendered
  · exact tagged_markup i

theorem slot_interaction (h : Compiler.slotTable Widget.placeholder item ws = .ok slots)
    (hunique : item.interactions.names.Nodup) {i : Interaction}
    (hi : (slot, i) ∈ item.interactions) : Table.find? slot slots = some i.markup := by
  obtain ⟨fillings, -, h⟩ := bind_eq_ok.1 h
  obtain rfl := Except.ok.inj h
  rw [find?_ofEntries, List.reverse_append]
  apply find?_append_of_some
  apply find?_of_mem
  · rw [Table.names, List.map_reverse, List.nodup_reverse, List.map_map]
    exact hunique
  · rw [List.mem_reverse]
    exact List.mem_map.2 ⟨_, hi, rfl⟩

/-- No slot holds math that is not allowed, if no fragment does. -/
theorem mathless_slot (h : Compiler.slotTable Widget.placeholder item ws = .ok slots)
    (hfragments : ∀ f ∈ Fragment.ofItem item, Mathless f.content)
    (hinner : Table.find? slot slots = some inner) : Mathless inner := by
  rcases slot_cases h hinner with ⟨w, alt, rendered, hrendered, rfl⟩ | ⟨i, hi, rfl⟩
  · exact mathless_widget hrendered
  · apply mathless_interaction
    intro f hf
    exact hfragments f (List.mem_append_right _ (List.mem_flatMap.2 ⟨_, hi, hf⟩))

end

def contents (item : AssessmentItem) : List (Text × Content) :=
  [("body", item.body), ("feedback.correct", item.feedback.correct),
    ("feedback.incorrect", item.feedback.incorrect)]

theorem mem_ofItem {item : AssessmentItem} {path : Text} {content : Content} {f : Fragment}
    (hcontent : (path, content) ∈ contents item) (hf : f ∈ Fragment.ofContent path content) :
    f ∈ Fragment.ofItem item := by
  simp only [contents, List.mem_cons, Prod.mk.injEq, List.not_mem_nil, or_false] at hcontent
  unfold Fragment.ofItem
  rcases hcontent with ⟨rfl, rfl⟩ | ⟨rfl, rfl⟩ | ⟨rfl, rfl⟩
  · exact List.mem_append_left _ (List.mem_append_left _ (List.mem_append_left _ hf))
  · exact List.mem_append_left _ (List.mem_append_left _ (List.mem_append_right _ hf))
  · exact List.mem_append_left _ (List.mem_append_right _ hf)

/-- A compilation that succeeded, step by step. -/
theorem compile_steps {c : Compiler} {item : AssessmentItem} {document : Text}
    (h : (c.compile item).result = .ok document) :
    ∃ ws slots, Compiler.prepare item = .ok ws ∧
      (∀ f ∈ Fragment.ofItem item, ContentRules.check f.placement f.content = none) ∧
      Compiler.slotTable c.renderer item ws = .ok slots ∧
      ∀ path content, (path, content) ∈ contents item → ∃ t r,
        ContentMarkup.render slots path content = .ok t ∧ resolve slots t = .ok r := by
  obtain ⟨r, -⟩ := compile_eq_ok.1 h
  refine ⟨r.widgets, r.slots, r.prepared, r.accepted, r.filled, ?_⟩
  intro path content hmem
  simp only [contents, List.mem_cons, Prod.mk.injEq, List.not_mem_nil, or_false] at hmem
  rcases hmem with ⟨rfl, rfl⟩ | ⟨rfl, rfl⟩ | ⟨rfl, rfl⟩
  · obtain ⟨t, hbody⟩ := resolveContent_eq_ok.1 r.body_resolved
    exact ⟨t, r.body, hbody⟩
  · obtain ⟨t, hcorrect⟩ := resolveContent_eq_ok.1 r.correct_resolved
    exact ⟨t, r.correct, hcorrect⟩
  · obtain ⟨t, hincorrect⟩ := resolveContent_eq_ok.1 r.incorrect_resolved
    exact ⟨t, r.incorrect, hincorrect⟩

end AssessmentItems.SlotTables
