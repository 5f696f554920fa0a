import AssessmentItems.Proofs.DocumentTags
import AssessmentItems.Proofs.EmbeddedWidgets
import AssessmentItems.Proofs.EncodedBytes
import AssessmentItems.Proofs.FinalTexts

/-!
Diagrams in their slots are inert and complete. The tag of an image has a bracket at each end and
none inside, whatever its picture and its description say, so it holds no placeholder, and
resolving slots leaves it as it is. The picture is read back from its data byte by byte, and the
description from its value.
-/
namespace AssessmentItems.EmbeddedImages

open Text Escaping Elements EmbeddedWidgets EncodedBytes Slots Placeholders DocumentTags
  FinalTexts

theorem exists_inside_emptyTag {tag : Tag} (h : tag.WellNamed) :
    ∃ inside, emptyTag tag = '<' :: (tag.name ++ (inside ++ ['>'])) ∧
      ∀ d, d = '<' ∨ d = '>' → d ∉ tag.name ++ inside := by
  refine ⟨tag.attributes.flatMap attributeText ++ ['/'], ?_, fun d hd => ?_⟩
  · rw [emptyTag_parts, List.cons_append, List.append_assoc]
    rfl
  · have hslash : d ∉ ['/'] := by rcases hd with rfl | rfl <;> decide
    simp only [List.mem_append, not_or]
    exact ⟨bracket_not_mem_name hd h.name, bracket_not_mem_attributes hd h, hslash⟩

/-- No tag that looks like a slot is left in an image. -/
theorem leftover_image {tag : Tag} (h : tag.WellNamed) (hname : tag.name = "img") :
    leftover (emptyTag tag) = [] := by
  obtain ⟨inside, htag, hinside⟩ := exists_inside_emptyTag h
  have hopen := hinside '<' (Or.inl rfl)
  rw [← List.append_assoc, hname] at htag
  rw [hname] at hopen
  have hinert : Inert (emptyTag tag) := by
    rw [htag]
    refine inert_cons.2 ⟨fun _ => ⟨'i', rfl, by decide⟩, .of_not_mem ?_⟩
    simpa using hopen
  have hnowhere := hinert.nowhere_append []
  rw [List.append_nil] at hnowhere
  exact Tags.leftover_eq_nil.2 (hnowhere.2 (Pieces.nowhere_nil _))

theorem quote_not_mem_encode (picture : Text) : '"' ∉ Base64.encode picture.bytes := fun h =>
  (pictureData_clean picture '"' (List.mem_append_right _ h)).1 (by decide)

/-- A diagram is embedded as one tag without brackets inside. Its data are read back as the bytes
of what was rendered, and its description as the one that was given, or else that of the widget.
There is no placeholder in it, so that resolving slots does not change it. -/
theorem image_embedded {w : Widget} (himage : w.output = .image) (alt : Option Text)
    (rendered : Text) :
    (∃ inside, w.embed alt rendered = '<' :: (inside ++ ['>']) ∧ '<' ∉ inside ∧ '>' ∉ inside) ∧
    (∃ data value size,
      w.embed alt rendered = "<img src=\"data:image/svg+xml;base64," ++ data ++ "\" alt=\"" ++
        value ++ "\"" ++ size ++ "/>" ∧
      '"' ∉ data ∧ decode? data = some rendered.bytes ∧
      '"' ∉ value ∧ unescape value = alt.getD w.defaultAlt) ∧
    (∀ p : Placeholder, WellFormed p → ¬ p.spelling <:+: w.embed alt rendered) ∧
    ∀ slots, resolve slots (w.embed alt rendered) = .ok (w.embed alt rendered) := by
  obtain ⟨width, height, hsize, hembed⟩ := embed_eq_emptyTag himage alt rendered
  have hnamed := wellNamed_imageTag rendered (alt.getD w.defaultAlt) width height
  obtain ⟨inside, htag, hinside⟩ := exists_inside_emptyTag hnamed
  obtain ⟨hplaceholder, -, hresolve⟩ := final_of_leftover (leftover_image hnamed rfl)
  refine ⟨⟨_, ?_, hinside '<' (Or.inl rfl), hinside '>' (Or.inr rfl)⟩, ?_, ?_, ?_⟩
  · rw [hembed, htag, List.append_assoc]
  · refine ⟨_, _, _, hembed.trans (image_eq_emptyTag rendered _ width height).symm,
      quote_not_mem_encode rendered, decode?_encode _, quote_not_mem_escapeAttribute _,
      unescape_escapeAttribute _⟩
  · rwa [hembed]
  · rwa [hembed]

def quarter : Widget := .fractionModel ⟨1, 4, .circle, 100, 100⟩

theorem image_embedded_slots :
    quarter.output = .image ∧
      (∃ data value size,
        quarter.embed (some "<slot name=\"alt\"/>") "<slot name=\"picture\"/>" =
          "<img src=\"data:image/svg+xml;base64," ++ data ++ "\" alt=\"" ++ value ++ "\"" ++ size ++
            "/>" ∧
        '"' ∉ data ∧ decode? data = some (bytes "<slot name=\"picture\"/>") ∧
        '"' ∉ value ∧ unescape value = "<slot name=\"alt\"/>") ∧
      ∀ slots, resolve slots (quarter.embed (some "<slot name=\"alt\"/>")
          "<slot name=\"picture\"/>") =
        .ok (quarter.embed (some "<slot name=\"alt\"/>") "<slot name=\"picture\"/>") := by
  obtain ⟨-, hvalues, -, hresolve⟩ := image_embedded (w := quarter) rfl
    (some "<slot name=\"alt\"/>") "<slot name=\"picture\"/>"
  exact ⟨rfl, hvalues, hresolve⟩

end AssessmentItems.EmbeddedImages
