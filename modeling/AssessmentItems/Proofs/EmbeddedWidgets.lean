import AssessmentItems.Widget
import AssessmentItems.Proofs.DecimalNumerals
import AssessmentItems.Proofs.Elements
import AssessmentItems.Proofs.TextClasses

/-!
Widgets in their slots. A table is put in as its markup, and a diagram as an image: an empty tag
with the picture, the description and the size as its attributes. All values are escaped, so no
tag opens or ends inside the image.
-/
namespace AssessmentItems.EmbeddedWidgets

open Text Escaping TextClasses Elements

def marks : Text := "&<>\"'"

theorem attributeEntity_eq_self {c : Char} (h : c ∉ marks) : attributeEntity c = [c] := by
  have hmark : ∀ d ∈ marks, c ≠ d := fun d hd heq => h (heq ▸ hd)
  have htext : textEntity c = [c] := by
    unfold textEntity
    split
    · exact absurd rfl (hmark '&' (by decide))
    · exact absurd rfl (hmark '<' (by decide))
    · exact absurd rfl (hmark '>' (by decide))
    · rfl
  unfold attributeEntity
  split
  · exact absurd rfl (hmark '"' (by decide))
  · exact absurd rfl (hmark '\'' (by decide))
  · exact htext

/-- A value without marks is written as it is. -/
theorem escapeAttribute_eq_self {t : Text} (h : ∀ c ∈ t, c ∉ marks) :
    escapeAttribute t = t := by
  induction t with
  | nil => rfl
  | cons c t ih =>
    rw [List.forall_mem_cons] at h
    rw [escapeAttribute, List.flatMap_cons, attributeEntity_eq_self h.1, ← escapeAttribute, ih h.2,
      List.singleton_append]

theorem plain_ofNat (n : ℕ) : ∀ c ∈ ofNat n, c ∉ marks := by
  intro c hc hmark
  have hmarks : ∀ c ∈ marks, isPlainDigit c = false := forall_mem_of_all (by decide)
  have hdigit := DecimalNumerals.isPlainDigit_of_mem_ofNat hc
  rw [hmarks c hmark] at hdigit
  exact Bool.false_ne_true hdigit

def pictureData (picture : Text) : Text :=
  "data:image/svg+xml;base64," ++ Base64.encode picture.bytes

def imageTag (picture alt : Text) (width height : ℕ) : Tag where
  name := "img"
  attributes :=
    [("src", pictureData picture), ("alt", alt), ("width", ofNat width), ("height", ofNat height)]

theorem wellNamed_imageTag (picture alt : Text) (width height : ℕ) :
    (imageTag picture alt width height).WellNamed where
  name := (by decide : IsName "img")
  keys := by
    have hkeys : ∀ key ∈ (["src", "alt", "width", "height"] : List Text), IsName key := by decide
    intro entry hentry
    exact hkeys entry.1 (List.mem_map_of_mem (f := Prod.fst) hentry)

theorem pictureData_clean (picture : Text) :
    ∀ c ∈ pictureData picture, c ∉ marks ∧ isSpace c = false := by
  have hfixed : ∀ c ∈ ("data:image/svg+xml;base64," : Text), c ∉ marks ∧ isSpace c = false :=
    forall_mem_of_all (by decide)
  have hpicture := Base64.forall_mem_encode (p := fun c => c ∉ marks ∧ isSpace c = false)
    (by decide) (by decide) picture.bytes
  exact fun c hc => (List.mem_append.1 hc).elim (hfixed c) (hpicture c)

theorem escapeAttribute_pictureData (picture : Text) :
    escapeAttribute (pictureData picture) = pictureData picture :=
  escapeAttribute_eq_self fun c hc => (pictureData_clean picture c hc).1

theorem image_eq_emptyTag (picture alt : Text) (width height : ℕ) :
    ("<img src=\"data:image/svg+xml;base64," ++ Base64.encode picture.bytes ++ "\" alt=\"" ++
      escapeAttribute alt ++ "\"" ++
        (" width=\"" ++ ofNat width ++ "\" height=\"" ++ ofNat height ++ "\"") ++ "/>" : Text) =
      emptyTag (imageTag picture alt width height) := by
  have hsource : ("<img src=\"data:image/svg+xml;base64," : Text) =
      '<' :: ("img" ++ ' ' :: ("src" ++ '=' :: '"' :: "data:image/svg+xml;base64,")) := rfl
  have halt : ("\" alt=\"" : Text) = '"' :: ' ' :: ("alt" ++ ['=', '"']) := rfl
  have hwidth : (" width=\"" : Text) = ' ' :: ("width" ++ ['=', '"']) := rfl
  have hheight : ("\" height=\"" : Text) = '"' :: ' ' :: ("height" ++ ['=', '"']) := rfl
  have hquote : ("\"" : Text) = ['"'] := rfl
  have hclose : ("/>" : Text) = ['/', '>'] := rfl
  unfold emptyTag openText imageTag
  simp only [List.flatMap_cons, List.flatMap_nil, attributeText, escapeAttribute_pictureData,
    escapeAttribute_eq_self (plain_ofNat _)]
  unfold pictureData
  rw [hsource, halt, hwidth, hheight, hquote, hclose]
  simp only [List.append_assoc, List.cons_append, List.nil_append, List.append_nil]

/-- A diagram has a size and is embedded as an image of that size. -/
theorem embed_eq_emptyTag {w : Widget} (h : w.output = .image) (alt : Option Text)
    (rendered : Text) : ∃ width height, w.size = some (width, height) ∧
      w.embed alt rendered = emptyTag (imageTag rendered (alt.getD w.defaultAlt) width height) := by
  cases w with
  | dataTable w => contradiction
  | numberLine w => exact ⟨_, _, rfl, image_eq_emptyTag rendered _ w.width w.height⟩
  | barChart w => exact ⟨_, _, rfl, image_eq_emptyTag rendered _ w.width w.height⟩
  | coordinatePlane w => exact ⟨_, _, rfl, image_eq_emptyTag rendered _ w.width w.height⟩
  | fractionModel w => exact ⟨_, _, rfl, image_eq_emptyTag rendered _ w.width w.height⟩

/-- A widget that is rendered is put in as a table or as an image. -/
theorem embed_cases {w : Widget} {rendered : Text} (h : Widget.placeholder w = .ok rendered)
    (alt : Option Text) :
    (∃ table, w = .dataTable table ∧ w.embed alt rendered = table.markup) ∨
      (w.output = .image ∧ ∃ width height, w.embed alt rendered =
        emptyTag (imageTag rendered (alt.getD w.defaultAlt) width height)) := by
  by_cases houtput : w.output = .image
  · obtain ⟨width, height, -, hembed⟩ := embed_eq_emptyTag houtput alt rendered
    exact .inr ⟨houtput, width, height, hembed⟩
  · cases w with
    | dataTable w =>
      obtain rfl := Except.ok.inj h
      exact .inl ⟨w, rfl, rfl⟩
    | _ => exact absurd rfl houtput

section

variable {d : Char} (hd : d = '<' ∨ d = '>')
include hd

theorem bracket_not_mem_name {name : Text} (h : IsName name) : d ∉ name := by
  have hdelimiter : isDelimiter d = true := by rcases hd with rfl | rfl <;> decide
  exact fun hmem => State.ne_of_not_delimiter (h.2 d hmem) hdelimiter rfl

theorem bracket_not_mem_attributes {tag : Tag} (h : tag.WellNamed) :
    d ∉ tag.attributes.flatMap attributeText := by
  intro hmem
  obtain ⟨entry, hentry, hd'⟩ := List.mem_flatMap.1 hmem
  have hkey := bracket_not_mem_name hd (h.keys entry hentry)
  have hvalue := bracket_not_mem_escapeAttribute hd entry.2
  have hmarks : d ∉ ([' ', '=', '"'] : Text) := by rcases hd with rfl | rfl <;> decide
  simp only [List.mem_cons, List.not_mem_nil, or_false, not_or] at hmarks
  simp [attributeText, hkey, hvalue, hmarks] at hd'

end

/-- An empty tag is its name, its attributes and its end. -/
theorem emptyTag_parts (tag : Tag) :
    emptyTag tag = ('<' :: tag.name) ++ (tag.attributes.flatMap attributeText ++ ['/', '>']) := by
  rw [emptyTag, openText]
  exact List.append_assoc ('<' :: tag.name) _ _

end AssessmentItems.EmbeddedWidgets
