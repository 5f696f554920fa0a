import AssessmentItems.Proofs.EmbeddedWidgets
import AssessmentItems.Proofs.FilledMarkup
import AssessmentItems.Proofs.WidgetTexts

/-!
The descriptions of diagrams in their slots. The rule on images takes the first `alt` that follows
white space in a tag. Before the one that is written no value has any white space, so the rule
judges the description itself: the one that is authored, or else that of the widget, which is
never blank.
-/
namespace AssessmentItems.ImageDescriptions

open Text Escaping Scanning ContentRules TextClasses Elements EmbeddedWidgets Tags FilledMarkup

/-- An image that is written as an empty tag is all that the rule looks at in it. -/
theorem images_emptyTag {tag : Tag} (h : tag.WellNamed) (hname : tag.name = "img") :
    images (emptyTag tag) = [.occurrence (emptyTag tag)] := by
  let rest : Text := tag.attributes.flatMap attributeText ++ ['/', '>']
  have hopen : emptyTag tag = ("<img" : Text) ++ rest := by
    rw [emptyTag_parts, hname]
    rfl
  have hafter : afterFolded? "<img" (emptyTag tag) = some rest := by
    rw [hopen]
    rfl
  have hends : endsWord rest = true := by
    cases hattributes : tag.attributes with
    | nil =>
      simp only [rest, hattributes]
      decide
    | cons entry attributes =>
      simp only [rest, hattributes]
      rfl
  have hinside : ∀ c ∈ ("<img" : Text) ++ (tag.attributes.flatMap attributeText ++ ['/']),
      decide (c ≠ '>') = true := by
    have hattributes := bracket_not_mem_attributes (.inr rfl : '>' = '<' ∨ '>' = '>') h
    have hnot : '>' ∉ ("<img" : Text) ++ (tag.attributes.flatMap attributeText ++ ['/']) := by
      simp [hattributes]
    exact fun c hc => decide_eq_true fun heq => hnot (heq ▸ hc)
  have hsplit : emptyTag tag =
      ("<img" : Text) ++ (tag.attributes.flatMap attributeText ++ ['/']) ++ ['>'] := by
    simp [hopen, rest]
  have hfront : (emptyTag tag).takeWhile (· ≠ '>') =
      ("<img" : Text) ++ (tag.attributes.flatMap attributeText ++ ['/']) := by
    rw [hsplit]
    exact Readings.takeWhile_run hinside (by simp)
  have htag : tag? "<img" (emptyTag tag) = some (emptyTag tag) :=
    tag?_eq_some.2 ⟨rest, hafter, hends, by simp [rest], by rw [hfront, ← hsplit]⟩
  have hpieces := pieces_of_recognise (tag? "<img") id (emptyTag tag) []
    (by simp [emptyTag, openText]) (by simpa using htag)
  rw [images]
  rwa [id, List.append_nil] at hpieces

theorem firstMatch_append {s : Text} (h : ∀ c ∈ s, isSpace c = false) (t : Text) :
    firstMatch altAttribute? (s ++ t) = firstMatch altAttribute? t := by
  induction s with
  | nil => rfl
  | cons c s ih =>
    rw [List.forall_mem_cons] at h
    have hnone : altAttribute? (c :: (s ++ t)) = none := by simp [altAttribute?, h.1]
    rw [List.cons_append, firstMatch, hnone, ih h.2]
    rfl

/-- An attribute that is no description is passed over, if it has no white space. -/
theorem firstMatch_attribute {key value rest : Text}
    (hother : altAttribute? (attributeText (key, value) ++ rest) = none)
    (hkey : ∀ c ∈ key, isSpace c = false)
    (hvalue : ∀ c ∈ escapeAttribute value, isSpace c = false) :
    firstMatch altAttribute? (attributeText (key, value) ++ rest) =
      firstMatch altAttribute? rest := by
  have hclean : ∀ c ∈ key ++ '=' :: '"' :: (escapeAttribute value ++ ['"']), isSpace c = false := by
    have hmarks : isSpace '=' = false ∧ isSpace '"' = false := by decide
    simp only [List.forall_mem_append, List.forall_mem_cons, List.not_mem_nil]
    exact ⟨hkey, hmarks.1, hmarks.2, hvalue, hmarks.2, nofun⟩
  have hspelling : attributeText (key, value) ++ rest =
      ' ' :: ((key ++ '=' :: '"' :: (escapeAttribute value ++ ['"'])) ++ rest) := rfl
  rw [hspelling] at hother ⊢
  rw [firstMatch, hother, firstMatch_append hclean]
  rfl

theorem altAttribute?_alt (alt rest : Text) :
    altAttribute? (attributeText ("alt", alt) ++ rest) = some (escapeAttribute alt) := by
  have hspelling : attributeText ("alt", alt) ++ rest =
      ' ' :: (("alt" : Text) ++ '=' :: '"' :: (escapeAttribute alt ++ '"' :: rest)) := by
    simp [attributeText]
  have hvalue : (escapeAttribute alt ++ '"' :: rest).takeWhile (· ≠ '"') = escapeAttribute alt := by
    refine Readings.takeWhile_run (fun c hc => decide_eq_true ?_) (by simp)
    rintro rfl
    exact quote_not_mem_escapeAttribute alt hc
  have hread : ∀ t : Text, altAttribute? (' ' :: (("alt" : Text) ++ '=' :: '"' :: t)) =
      if ('"' = '"' ∨ '"' = '\'') ∧ '"' ∈ t then some (t.takeWhile (· ≠ '"')) else none :=
    fun _ => rfl
  rw [hspelling, hread, if_pos ⟨.inl rfl, by simp⟩, hvalue]

/-- Escaping neither adds nor removes white space. -/
theorem isBlank_escapeAttribute (t : Text) : isBlank (escapeAttribute t) = isBlank t := by
  have hentity : ∀ c, (attributeEntity c).all isSpace = isSpace c := by
    intro c
    by_cases hc : c ∈ marks
    · have hmarks : ∀ c ∈ marks, (attributeEntity c).all isSpace = isSpace c :=
        forall_mem_of_all (by decide)
      exact hmarks c hc
    · simp [attributeEntity_eq_self hc]
  simp only [isBlank, escapeAttribute, List.all_flatMap, hentity]

theorem lacksAlt_image (picture alt : Text) (width height : ℕ) :
    lacksAlt (emptyTag (imageTag picture alt width height)) = isBlank alt := by
  let rest : Text := attributeText ("width", ofNat width) ++
    (attributeText ("height", ofNat height) ++ ['/', '>'])
  have hspelling : emptyTag (imageTag picture alt width height) = ("<img" : Text) ++
      (attributeText ("src", pictureData picture) ++ (attributeText ("alt", alt) ++ rest)) := by
    unfold emptyTag openText imageTag
    simp only [List.flatMap_cons, List.flatMap_nil, List.append_nil, List.cons_append,
      List.append_assoc]
    rfl
  have hname : ∀ c ∈ ("<img" : Text), isSpace c = false := forall_mem_of_all (by decide)
  have hsource : ∀ c ∈ escapeAttribute (pictureData picture), isSpace c = false := by
    rw [escapeAttribute_pictureData]
    exact fun c hc => (pictureData_clean picture c hc).2
  have hpassed : firstMatch altAttribute?
      (attributeText ("src", pictureData picture) ++ (attributeText ("alt", alt) ++ rest)) =
        firstMatch altAttribute? (attributeText ("alt", alt) ++ rest) :=
    firstMatch_attribute rfl (forall_mem_of_all (by decide)) hsource
  have halt : firstMatch altAttribute? (attributeText ("alt", alt) ++ rest) =
      some (escapeAttribute alt) := by
    have hread := altAttribute?_alt alt rest
    unfold attributeText at hread ⊢
    rw [List.cons_append] at hread ⊢
    rw [firstMatch, hread]
    rfl
  rw [lacksAlt, hspelling, firstMatch_append hname, hpassed, halt]
  exact isBlank_escapeAttribute alt

theorem isBlank_append {s : Text} (h : isBlank s = false) (t : Text) :
    isBlank (s ++ t) = false := by
  rw [isBlank, List.all_append, ← isBlank, h, Bool.false_and]

/-- A widget always has a description of its own. -/
theorem isBlank_defaultAlt (w : Widget) : isBlank w.defaultAlt = false := by
  have hfixed : ∀ front ∈ (["Number line from ", "Bar chart: ", "Bar chart", "Coordinate plane",
      "Fraction model showing ", "Data table"] : List Text), isBlank front = false := by decide
  simp only [List.forall_mem_cons] at hfixed
  obtain ⟨hline, htitled, hchart, hplane, hmodel, htable, -⟩ := hfixed
  cases w with
  | numberLine w =>
    change isBlank ("Number line from " ++ displayNumber w.min ++ " to " ++ displayNumber w.max) = _
    simpa only [List.append_assoc] using isBlank_append hline _
  | barChart w =>
    obtain ⟨title, bars, yMax, width, height⟩ := w
    cases title with
    | none => exact hchart
    | some title =>
      change isBlank ("Bar chart: " ++ title) = _
      exact isBlank_append htitled title
  | coordinatePlane w => exact hplane
  | fractionModel w =>
    change isBlank
      ("Fraction model showing " ++ ofNat w.numerator ++ "/" ++ ofNat w.denominator) = _
    simpa only [List.append_assoc] using isBlank_append hmodel _
  | dataTable w => exact htable

/-- The rule on images judges the description that is written. -/
theorem find?_embed {w : Widget} (h : w.output = .image) (alt : Option Text) (rendered : Text) :
    Rule.imageMissingAlt.find? (w.embed alt rendered) = none ↔
      isBlank (alt.getD w.defaultAlt) = false := by
  obtain ⟨width, height, -, hembed⟩ := embed_eq_emptyTag h alt rendered
  rw [hembed, find?_image_eq_none, images_emptyTag (wellNamed_imageTag _ _ _ _) rfl,
    ← lacksAlt_image rendered _ width height]
  exact List.forall_mem_singleton

/-- The image that a reader of markup finds. -/
theorem read?_embed {w : Widget} (h : w.output = .image) (alt : Option Text) (rendered : Text) :
    ∃ tag, read? (w.embed alt rendered) = some [.element tag []] ∧ tag.name = "img" ∧
      tag.attribute? "alt" = some (alt.getD w.defaultAlt) := by
  obtain ⟨width, height, -, hembed⟩ := embed_eq_emptyTag h alt rendered
  rw [hembed]
  exact ⟨_, (reads_emptyTag (wellNamed_imageTag _ _ _ _)).read?, rfl, rfl⟩

theorem isBlank_description {w : Widget} {alt : Option Text} :
    isBlank (alt.getD w.defaultAlt) = false ↔ ∀ authored ∈ alt, isBlank authored = false := by
  cases alt with
  | none => simp [isBlank_defaultAlt]
  | some authored => simp

/-- A diagram that is in order is embedded as an image with the description that is authored, or
else with that of the widget. The rule on images accepts it exactly if the description is not
blank, and so exactly if no blank one is authored. -/
theorem image_described_iff {slot : Text} {spec : WidgetSpec} {kind : WidgetKind} {w : Widget}
    (hkind : WidgetKind.ofName? spec.kind = some kind) (himage : kind.output = .image)
    (hwidget : Compiler.widget slot spec = .ok w) (alt : Option Text) (rendered : Text) :
    (∃ tag, read? (w.embed alt rendered) = some [.element tag []] ∧ tag.name = "img" ∧
      tag.attribute? "alt" = some (alt.getD w.defaultAlt)) ∧
    (Rule.imageMissingAlt.find? (w.embed alt rendered) = none ↔
      isBlank (alt.getD w.defaultAlt) = false) ∧
    (isBlank (alt.getD w.defaultAlt) = false ↔ ∀ authored ∈ alt, isBlank authored = false) := by
  have houtput : w.output = .image := by
    unfold Compiler.widget at hwidget
    rw [hkind] at hwidget
    rw [Widget.output, WidgetTexts.kind_of_ofParameters (Results.mapError_eq_ok.1 hwidget), himage]
  exact ⟨read?_embed houtput alt rendered, find?_embed houtput alt rendered, isBlank_description⟩

def fourthSpec (alt : Option Text) : WidgetSpec where
  kind := "fractionModel"
  alt := alt
  parameters := [("denominator", .number (.integer 4)), ("numerator", .number (.integer 1))]

def fourth : Widget := .fractionModel ⟨1, 4, .circle, 400, 400⟩

theorem widget_fourth (alt : Option Text) : Compiler.widget "w" (fourthSpec alt) = .ok fourth := rfl

theorem image_described_fourth :
    WidgetKind.ofName? (fourthSpec none).kind = some .fractionModel ∧
      WidgetKind.fractionModel.output = .image ∧
        Compiler.widget "w" (fourthSpec none) = .ok fourth ∧
          Rule.imageMissingAlt.find? (fourth.embed none []) = none := by
  have hkind : WidgetKind.ofName? (fourthSpec none).kind = some .fractionModel := by decide
  obtain ⟨-, hfind, hblank⟩ := image_described_iff hkind rfl (widget_fourth none) none []
  exact ⟨hkind, rfl, widget_fourth none, hfind.2 (hblank.2 nofun)⟩

/-- An empty description that is authored is used, and the rule on images refuses it. -/
theorem image_undescribed_fourth :
    ¬ ∀ (slot : Text) (spec : WidgetSpec) (kind : WidgetKind) (w : Widget) (rendered : Text),
      WidgetKind.ofName? spec.kind = some kind → kind.output = .image →
        Compiler.widget slot spec = .ok w →
          Rule.imageMissingAlt.find? (w.embed spec.alt rendered) = none := by
  intro h
  have hfind := h "w" (fourthSpec (some [])) .fractionModel fourth [] (by decide) rfl
    (widget_fourth _)
  rw [find?_embed rfl] at hfind
  exact absurd hfind (by decide)

end AssessmentItems.ImageDescriptions
