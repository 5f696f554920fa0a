import AssessmentItems.Proofs.DocumentTags
import AssessmentItems.Proofs.LegalContents
import AssessmentItems.Proofs.SlotTables

/-!
Legal characters in what fills the slots of an item. A widget is made of its texts, and an
interaction of its identifiers and its fragments; their own tags bring in nothing that is not
allowed, and no placeholder.
-/
namespace AssessmentItems.LegalSlots

open Text Scanning Slots Escaping Pieces Placeholders Tags FilledMarkup SlotContents RenderedMath
  EmbeddedWidgets DocumentTags SlotTables LegalCharacters LegalContents

/-- Where no slot opens, there is no placeholder. -/
theorem occurrences_of_inert {t : Text} (h : Inert t) : occurrences (segments t) = [] := by
  have hnowhere := (h.nowhere_append []).2 (nowhere_nil _)
  rw [List.append_nil, ← leftover_eq_nil] at hnowhere
  refine List.eq_nil_iff_forall_not_mem.2 fun p hp => ?_
  obtain ⟨hwell, hpart⟩ := mem_occurrences_segments.1 hp
  exact not_spelled_within hnowhere hwell hpart

def Own (t : Text) : Prop := Inert t ∧ Legal t

instance (t : Text) : Decidable (Own t) := inferInstanceAs (Decidable (Inert t ∧ Legal t))

theorem Own.append {a b : Text} (ha : Own a) (hb : Own b) : Own (a ++ b) :=
  ⟨ha.1.append hb.1, legal_append.2 ⟨ha.2, hb.2⟩⟩

theorem Own.madeOf {t : Text} (h : Own t) : MadeOf [] t := .tag h.2 (occurrences_of_inert h.1)

theorem own_ofNat (n : ℕ) : Own (ofNat n) :=
  ⟨.of_not_mem (bracket_not_mem_ofNat (.inl rfl) n), legal_ofNat n⟩

/-- A tag with an attribute whose value is escaped. -/
theorem madeOf_attribute {start finish : Text} (hstart : Own start) (hfinish : Own finish)
    (value : Text) : MadeOf [escapeAttribute value] (start ++ escapeAttribute value ++ finish) where
  legal := by simp [hstart.2, hfinish.2]
  placeholders := by
    have hinert := (hstart.1.append (inert_escapeAttribute value)).append hfinish.1
    rw [occurrences_of_inert hinert]
    exact fun p hp => absurd hp List.not_mem_nil

theorem madeOf_cell {element : Text} (helement : element ∈ (["caption", "th", "td"] : List Text))
    (content : Text) : MadeOf [escapeText content] (DataTable.cellMarkup element content) := by
  have htags : ∀ e ∈ (["caption", "th", "td"] : List Text),
      Own ("<" ++ e ++ ">" : Text) ∧ Own ("</" ++ e ++ ">" : Text) := by decide
  obtain ⟨hstart, hfinish⟩ := htags element helement
  have hcell : DataTable.cellMarkup element content = ("<" ++ element ++ ">" : Text) ++
      escapeText content ++ ("</" ++ element ++ ">" : Text) := by
    unfold DataTable.cellMarkup
    simp only [List.append_assoc]
  rw [hcell]
  exact hstart.madeOf.between (.self _) hfinish.madeOf (getLast?_append_right rfl _) rfl

theorem madeOf_row {element : Text} (helement : element ∈ (["caption", "th", "td"] : List Text))
    (cells : List Text) : MadeOf (cells.map escapeText) (DataTable.rowMarkup element cells) := by
  have htags : Own "<tr>" ∧ Own "</tr>" := by decide
  have hcells : MadeOf (cells.map escapeText) (cells.flatMap (DataTable.cellMarkup element)) := by
    rw [List.map_eq_flatMap]
    exact .flatMap fun content _ => ⟨madeOf_cell helement content, getLast?_append_right rfl _⟩
  exact htags.1.madeOf.between hcells htags.2.madeOf rfl rfl

theorem madeOf_table (w : DataTable) :
    MadeOf ((w.caption.toList ++ w.columns ++ w.rows.flatten).map escapeText) w.markup := by
  have hcaption : MadeOf (w.caption.toList.map escapeText) w.captionMarkup := by
    unfold DataTable.captionMarkup
    cases w.caption with
    | none => exact .nil
    | some caption => exact madeOf_cell (by decide) caption
  have hcolumns : MadeOf (w.columns.map escapeText) (DataTable.rowMarkup "th" w.columns) :=
    madeOf_row (by decide) w.columns
  have hrows : MadeOf (w.rows.flatten.map escapeText) (w.rows.flatMap (DataTable.rowMarkup "td")) := by
    rw [List.map_flatten, ← List.flatMap_def]
    exact .flatMap fun row _ => ⟨madeOf_row (by decide) row, getLast?_append_right rfl _⟩
  have htags : ∀ t ∈ (["<table>", "<thead>", "</thead><tbody>", "</tbody></table>"] : List Text),
      Own t := by decide
  have htable := (htags "<table>" (by decide)).madeOf.closes hcaption rfl
  have hopen := htable.opens (htags "<thead>" (by decide)).madeOf rfl
  have hhead := hopen.closes hcolumns (getLast?_append_right rfl _)
  have hbody := hhead.opens (htags "</thead><tbody>" (by decide)).madeOf rfl
  have hrows := hbody.closes hrows (getLast?_append_right rfl _)
  have hwhole : MadeOf _ w.markup := hrows.opens (htags "</tbody></table>" (by decide)).madeOf rfl
  simpa only [List.map_append, List.append_nil, List.nil_append] using hwhole

theorem own_attribute {key value : Text} (hkey : Own key) (hvalue : Legal value) :
    Own (Elements.attributeText (key, value)) := by
  have hmarks : Own [' '] ∧ Own ['=', '"'] ∧ Own ['"'] := by decide
  have hescaped : Own (escapeAttribute value) :=
    ⟨inert_escapeAttribute value, legal_escapeAttribute.2 hvalue⟩
  have hown := ((hmarks.1.append hkey).append hmarks.2.1).append (hescaped.append hmarks.2.2)
  simpa [Elements.attributeText] using hown

theorem madeOf_image (picture alt : Text) (width height : ℕ) :
    MadeOf [escapeAttribute alt] (Elements.emptyTag (imageTag picture alt width height)) := by
  have hsource : Legal (pictureData picture) := legal_append.2 ⟨by decide, legal_base64 _⟩
  have hkeys : ∀ key ∈ (["src", "width", "height"] : List Text), Own key := by decide
  have hfixed : Own "<img" ∧ Own " alt=\"" ∧ Own "\"" ∧ Own "/>" := by decide
  simp only [List.forall_mem_cons] at hkeys
  obtain ⟨hsrc, hwidth, hheight, -⟩ := hkeys
  obtain ⟨hname, halt, hquote, hend⟩ := hfixed
  have hstart := (hname.append (own_attribute hsrc hsource)).append halt
  have hsize := (own_attribute hwidth (legal_ofNat width)).append
    (own_attribute hheight (legal_ofNat height))
  have himage := madeOf_attribute hstart ((hquote.append hsize).append hend) alt
  simpa [emptyTag_parts, imageTag, Elements.attributeText] using himage

def widgetTexts (alt : Option Text) : Widget → List Text
  | .dataTable w => w.caption.toList ++ w.columns ++ w.rows.flatten
  | w => [alt.getD w.defaultAlt]

/-- An embedded widget is legal exactly if its texts are, and has no placeholders. -/
theorem legal_widget {w : Widget} {alt : Option Text} {rendered : Text}
    (h : Widget.placeholder w = .ok rendered) :
    (Legal (w.embed alt rendered) ↔ ∀ t ∈ widgetTexts alt w, Legal t) ∧
      Sound (w.embed alt rendered) := by
  rcases embed_cases h alt with ⟨w, rfl, hembed⟩ | ⟨houtput, width, height, hembed⟩
  · have hmade := madeOf_table w
    rw [hembed]
    refine ⟨?_, hmade.sound ?_⟩
    · refine hmade.legal.trans ?_
      simp only [List.forall_mem_map, legal_escapeText]
      rfl
    · rw [List.forall_mem_map]
      exact fun t _ => sound_of_not_mem (not_mem_escapeText t)
  · have hmade := madeOf_image rendered (alt.getD w.defaultAlt) width height
    have htexts : widgetTexts alt w = [alt.getD w.defaultAlt] := by
      cases w with
      | dataTable w => contradiction
      | _ => rfl
    rw [hembed, htexts]
    refine ⟨by simp [hmade.legal, legal_escapeAttribute], hmade.sound ?_⟩
    rw [List.forall_mem_singleton]
    exact sound_of_not_mem (not_mem_escapeAttribute _)

open Interaction

theorem madeOf_feedback (identifier feedback : Text) :
    MadeOf [escapeAttribute identifier, feedback] (feedbackMarkup identifier feedback) := by
  have htags : Own ("<qti-feedback-inline outcome-identifier=\"" ++ feedbackInline ++
      "\" identifier=\"" : Text) ∧ Own "\" show-hide=\"show\">" ∧ Own "</qti-feedback-inline>" := by
    decide
  obtain ⟨hstart, hend, hfinish⟩ := htags
  have hopen := (madeOf_attribute hstart hend identifier).closes (.self feedback)
    (getLast?_append_right rfl _)
  exact hopen.opens hfinish.madeOf rfl

def choiceSources (c : Choice) : List Text :=
  escapeAttribute c.identifier :: c.content :: c.feedback.toList

theorem madeOf_choice (c : Choice) : MadeOf (choiceSources c) (choiceMarkup c) := by
  have htags : Own "<qti-simple-choice identifier=\"" ∧ Own "\">" ∧ Own "</qti-simple-choice>" := by
    decide
  obtain ⟨hstart, hend, hfinish⟩ := htags
  have hcontent := (madeOf_attribute hstart hend c.identifier).closes (.self c.content)
    (getLast?_append_right rfl _)
  unfold choiceMarkup choiceSources
  cases c.feedback with
  | none =>
    rw [Option.map_none, Option.getD_none, List.append_nil]
    exact hcontent.opens hfinish.madeOf rfl
  | some feedback =>
    have hfeedback := hcontent.opens (madeOf_feedback c.identifier feedback) rfl
    refine (hfeedback.opens hfinish.madeOf rfl).of_mem fun s => ?_
    simp
    tauto

theorem madeOf_response {start finish : Text} (hstart : Own start) (hfinish : Own finish)
    (identifier : Text) :
    MadeOf [escapeAttribute identifier] (start ++ responseAttribute identifier ++ finish) := by
  have hfixed : Own "response-identifier=\"" ∧ Own "\"" := by decide
  have hmade := madeOf_attribute (hstart.append hfixed.1) (hfixed.2.append hfinish) identifier
  unfold responseAttribute
  simpa only [List.append_assoc] using hmade

theorem own_shuffle (shuffle : Bool) : Own (shuffleAttribute shuffle) := by
  cases shuffle <;> decide

def listedParts (prompt : Option Text) (choices : List Choice) : List (List Text × Text) :=
  (prompt.map fun p => ([p], ("<qti-prompt>" ++ p ++ "</qti-prompt>" : Text))).toList ++
    choices.map fun c => (choiceSources c, choiceMarkup c)

theorem listedParts_snd (prompt : Option Text) (choices : List Choice) :
    (listedParts prompt choices).map Prod.snd = choiceListParts prompt choices := by
  unfold listedParts choiceListParts
  cases prompt <;> simp

theorem listedParts_fst (prompt : Option Text) (choices : List Choice) :
    (listedParts prompt choices).flatMap Prod.fst =
      prompt.toList ++ choices.flatMap choiceSources := by
  unfold listedParts
  cases prompt <;> simp [List.flatMap_map]

theorem madeOf_listedPart {prompt : Option Text} {choices : List Choice} {part : List Text × Text}
    (hpart : part ∈ listedParts prompt choices) :
    MadeOf part.1 part.2 ∧ part.2.getLast? = some '>' := by
  rcases List.mem_append.1 hpart with hpart | hpart
  · obtain ⟨p, -, rfl⟩ := Option.map_eq_some_iff.1 (Option.mem_toList.1 hpart)
    have htags : Own "<qti-prompt>" ∧ Own "</qti-prompt>" := by decide
    exact ⟨htags.1.madeOf.between (.self p) htags.2.madeOf rfl rfl, getLast?_append_right rfl _⟩
  · obtain ⟨c, -, rfl⟩ := List.mem_map.1 hpart
    exact ⟨madeOf_choice c, getLast?_append_right rfl _⟩

theorem madeOf_choiceList {element rest : Text} (hstart : Own ("<" ++ element ++ " " : Text))
    (hrest : Own rest) (hfinish : Own ("</" ++ element ++ ">" : Text)) (identifier : Text)
    (prompt : Option Text) (choices : List Choice) :
    MadeOf (escapeAttribute identifier :: (prompt.toList ++ choices.flatMap choiceSources))
      (choiceList element (responseAttribute identifier ++ rest) prompt choices) := by
  have hend : Own ">" := by decide
  have hlast : (">" : Text).getLast? = some '>' := rfl
  have hopen := madeOf_response hstart (hrest.append hend) identifier
  let parts := listedParts prompt choices ++ [([], ("</" ++ element ++ ">" : Text))]
  have hparts : ∀ part ∈ parts, MadeOf part.1 part.2 ∧ part.2.getLast? = some '>' := by
    intro part hpart
    rcases List.mem_append.1 hpart with hpart | hpart
    · exact madeOf_listedPart hpart
    · obtain rfl := List.mem_singleton.1 hpart
      exact ⟨hfinish.madeOf, getLast?_append_right rfl _⟩
  have hlines : MadeOf (parts.flatMap Prod.fst) (parts.flatMap fun part => '\n' :: part.2) :=
    .flatMap fun part hpart =>
      ⟨(hparts part hpart).1.line, getLast?_append_right (hparts part hpart).2 ['\n']⟩
  have hwhole := hopen.closes hlines (getLast?_append_right (getLast?_append_right hlast rest) _)
  have hlist := choiceList_eq element (responseAttribute identifier ++ rest) prompt choices
  rw [← listedParts_snd] at hlist
  simp only [parts, List.flatMap_append, List.flatMap_map, List.flatMap_singleton, listedParts_fst,
    List.append_assoc, List.append_nil] at hlist hwhole
  rw [hlist]
  exact hwhole

def identifiers (i : Interaction) : List Text :=
  i.responseIdentifier :: i.choiceIdentifiers.getD []

theorem perm_choiceSources (path : Text) (prompt : Option Text) (choices : List Choice) :
    (prompt.toList ++ choices.flatMap choiceSources).Perm
      ((choices.map Choice.identifier).map escapeAttribute ++
        (Fragment.ofPrompt path prompt ++ choices.flatMap (Fragment.ofChoice path)).map
          Fragment.content) := by
  have hprompt : (Fragment.ofPrompt path prompt).map Fragment.content = prompt.toList := by
    cases prompt <;> rfl
  have hchoice : ∀ c, (Fragment.ofChoice path c).map Fragment.content =
      c.content :: c.feedback.toList := by
    intro c
    unfold Fragment.ofChoice
    cases c.feedback <;> rfl
  have hchoices := (List.map_append_flatMap_perm choices
    (fun c => escapeAttribute c.identifier) (fun c => c.content :: c.feedback.toList)).symm
  rw [List.map_append, List.map_flatMap, hprompt, List.map_map]
  simp only [hchoice]
  exact (hchoices.append_left _).trans (List.perm_append_comm_assoc _ _ _)

theorem madeOf_inlineOption (c : InlineOption) :
    MadeOf [escapeAttribute c.identifier, c.content] (inlineOptionMarkup c) := by
  have htags : Own "<qti-inline-choice identifier=\"" ∧ Own "\">" ∧ Own "</qti-inline-choice>" := by
    decide
  obtain ⟨hstart, hend, hfinish⟩ := htags
  have hcontent := (madeOf_attribute hstart hend c.identifier).closes (.self c.content)
    (getLast?_append_right rfl _)
  exact hcontent.opens hfinish.madeOf rfl

theorem madeOf_textEntry (i : TextEntry) :
    MadeOf [escapeAttribute i.responseIdentifier] (Interaction.markup (.textEntry i)) := by
  have htags : Own "<qti-text-entry-interaction " ∧ Own " expected-length=\"" ∧ Own "\"" ∧
    Own "/>" := by decide
  obtain ⟨hstart, hlength, hquote, hend⟩ := htags
  have hexpected : Own ((i.expectedLength.map fun n =>
      (" expected-length=\"" ++ ofNat n ++ "\"" : Text)).getD []) := by
    cases i.expectedLength with
    | none => decide
    | some n => exact (hlength.append (own_ofNat n)).append hquote
  have hmade := madeOf_response hstart (hexpected.append hend) i.responseIdentifier
  unfold Interaction.markup
  simpa only [List.append_assoc] using hmade

theorem madeOf_inlineChoice (i : InlineChoice) :
    MadeOf (escapeAttribute i.responseIdentifier ::
      i.choices.flatMap fun c => [escapeAttribute c.identifier, c.content])
      (Interaction.markup (.inlineChoice i)) := by
  have htags : Own "<qti-inline-choice-interaction " ∧ Own ">" ∧
    Own "</qti-inline-choice-interaction>" := by decide
  obtain ⟨hstart, hend, hfinish⟩ := htags
  have hopen := madeOf_response hstart ((own_shuffle i.shuffle).append hend) i.responseIdentifier
  have hoptions : MadeOf (i.choices.flatMap fun c => [escapeAttribute c.identifier, c.content])
      (i.choices.flatMap inlineOptionMarkup) :=
    .flatMap fun c _ => ⟨madeOf_inlineOption c, getLast?_append_right rfl _⟩
  have hlast : (">" : Text).getLast? = some '>' := rfl
  have hlist := (hopen.closes hoptions (getLast?_append_right (getLast?_append_right hlast _)
    _)).opens hfinish.madeOf rfl
  unfold Interaction.markup
  simp only [List.append_assoc, List.append_nil] at hlist ⊢
  exact hlist

/-- An interaction is made of its identifiers and its fragments. -/
theorem madeOf_interaction (path : Text) (i : Interaction) :
    MadeOf ((identifiers i).map escapeAttribute ++
      (Fragment.ofInteraction path i).map Fragment.content) i.markup := by
  cases i with
  | choice i =>
    have hfixed : Own " max-choices=\"" ∧ Own "\" min-choices=\"" ∧ Own "\"" := by decide
    obtain ⟨hmax, hmin, hquote⟩ := hfixed
    have hrest := (((((own_shuffle i.shuffle).append hmax).append (own_ofNat i.maxChoices)).append
      hmin).append (own_ofNat i.minChoices)).append hquote
    have htags : Own "<qti-choice-interaction " ∧ Own "</qti-choice-interaction>" := by decide
    have hlist : MadeOf _ (choiceList "qti-choice-interaction" _ i.prompt i.choices) :=
      madeOf_choiceList htags.1 hrest htags.2 i.responseIdentifier i.prompt i.choices
    unfold Interaction.markup
    simp only [List.append_assoc] at hlist ⊢
    exact hlist.of_mem fun s => ((perm_choiceSources path i.prompt i.choices).cons _).mem_iff
  | order i =>
    have htags : Own "<qti-order-interaction " ∧ Own "</qti-order-interaction>" := by decide
    have hlist : MadeOf _ (Interaction.markup (.order i)) :=
      madeOf_choiceList htags.1 (own_shuffle i.shuffle) htags.2 i.responseIdentifier i.prompt
        i.choices
    exact hlist.of_mem fun s => ((perm_choiceSources path i.prompt i.choices).cons _).mem_iff
  | textEntry i => exact madeOf_textEntry i
  | inlineChoice i =>
    have hperm := (List.map_append_flatMap_perm i.choices
      (fun c => escapeAttribute c.identifier) (fun c => [c.content])).symm
    refine (madeOf_inlineChoice i).of_mem fun s => (hperm.cons _).mem_iff.trans ?_
    rw [← List.map_eq_flatMap]
    simp only [identifiers, choiceIdentifiers, Fragment.ofInteraction, List.map_cons, List.map_map,
      Option.getD_some, responseIdentifier]
    rfl

/-- An interaction with legal fragments is legal exactly if its identifiers are, and so are its
placeholders. -/
theorem legal_interaction (path : Text) {i : Interaction}
    (hfragments : ∀ f ∈ Fragment.ofInteraction path i, Legal f.content) :
    (Legal i.markup ↔ ∀ identifier ∈ identifiers i, Legal identifier) ∧ Sound i.markup := by
  have hmade := madeOf_interaction path i
  have hcontents : ∀ s ∈ (Fragment.ofInteraction path i).map Fragment.content, Legal s :=
    List.forall_mem_map.2 hfragments
  refine ⟨?_, hmade.sound ?_⟩
  · rw [hmade.legal, List.forall_mem_append, and_iff_left hcontents]
    simp only [List.forall_mem_map, legal_escapeAttribute]
  · rw [List.forall_mem_append, List.forall_mem_map]
    exact ⟨fun t _ => sound_of_not_mem (not_mem_escapeAttribute t),
      fun s hs => sound_of_legal (hcontents s hs)⟩

/-- The plain texts of what fills a slot: those of a widget, or the identifiers of an
interaction. -/
inductive SlotText (item : AssessmentItem) (ws : Table Widget) (slot inner : Text) : Text → Prop
  | widget {w : Widget} {t : Text} (hw : (slot, w) ∈ ws)
      (hfilling : Compiler.widgetFilling Widget.placeholder item slot w = .ok inner)
      (ht : t ∈ widgetTexts ((Table.find? slot item.widgets).bind WidgetSpec.alt) w) :
      SlotText item ws slot inner t
  | interaction {i : Interaction} {t : Text} (hi : (slot, i) ∈ item.interactions)
      (hfilling : inner = i.markup) (ht : t ∈ identifiers i) : SlotText item ws slot inner t

/-- A slot is legal exactly if the plain texts of what fills it are, and its placeholders are
legal. -/
theorem legal_slot {item : AssessmentItem} {ws : Table Widget} {slots : SlotTable}
    {slot inner : Text} (hmarkup : ∀ f ∈ Fragment.ofItem item, Legal f.content)
    (htable : Compiler.slotTable Widget.placeholder item ws = .ok slots)
    (hinner : Table.find? slot slots = some inner) :
    (Legal inner ↔ ∀ t, SlotText item ws slot inner t → Legal t) ∧ Sound inner := by
  have hwidget : ∀ w, Compiler.widgetFilling Widget.placeholder item slot w = .ok inner →
      (Legal inner ↔ ∀ t ∈ widgetTexts ((Table.find? slot item.widgets).bind WidgetSpec.alt) w,
        Legal t) ∧ Sound inner := by
    intro w hfilling
    obtain ⟨rendered, hrendered, rfl⟩ := widgetFilling_eq_ok.1 hfilling
    exact legal_widget hrendered
  have hinteraction : ∀ i, (slot, i) ∈ item.interactions →
      (Legal i.markup ↔ ∀ identifier ∈ identifiers i, Legal identifier) ∧ Sound i.markup := by
    intro i hi
    refine legal_interaction (Path.member "interactions" slot) fun f hf => ?_
    exact hmarkup f (List.mem_append_right _ (List.mem_flatMap.2 ⟨_, hi, hf⟩))
  have hshown : Legal inner → ∀ t, SlotText item ws slot inner t → Legal t := by
    intro hlegal t ht
    cases ht with
    | widget _ hfilling ht => exact (hwidget _ hfilling).1.1 hlegal t ht
    | interaction hi hfilling ht =>
      subst hfilling
      exact (hinteraction _ hi).1.1 hlegal t ht
  rcases filled_cases htable hinner with ⟨w, hw, hfilling⟩ | ⟨i, hi, rfl⟩
  · obtain ⟨hlegal, hsound⟩ := hwidget w hfilling
    exact ⟨⟨hshown, fun h => hlegal.2 fun t ht => h t (.widget hw hfilling ht)⟩, hsound⟩
  · obtain ⟨hlegal, hsound⟩ := hinteraction i hi
    exact ⟨⟨hshown, fun h => hlegal.2 fun t ht => h t (.interaction hi rfl ht)⟩, hsound⟩

end AssessmentItems.LegalSlots
