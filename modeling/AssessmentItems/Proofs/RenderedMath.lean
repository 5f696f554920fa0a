import AssessmentItems.Proofs.DecimalNumerals
import AssessmentItems.Proofs.SlotContents

/-!
Math markup in what fills the slots of an item. Widgets bring no math, for their texts are
escaped, and interactions bring only that of their fragments. So math markup that no fragment
may hold does not come into any slot.
-/
namespace AssessmentItems.RenderedMath

open Text ContentRules Escaping Pieces RuleBounds FilledMarkup SlotContents DecimalNumerals
  EmbeddedWidgets

def Mathless (t : Text) : Prop := Nowhere isBannedMath t

theorem mathless_of_not_mem {t : Text} (h : '<' ∉ t) : Mathless t :=
  (beginsTag_opensTag _ _).nowhere h

/-- A tag of another name, in which no other tag opens. -/
theorem mathless_tag {start rest : Text} (hname : ∀ t, isBannedMath (start ++ t) = false)
    (hstart : '<' ∉ start.tail) (hrest : '<' ∉ rest) : Mathless (start ++ rest) := by
  cases start with
  | nil => exact mathless_of_not_mem hrest
  | cons c start =>
    refine nowhere_cons.2 ⟨hname rest, mathless_of_not_mem fun h => ?_⟩
    exact (List.mem_append.1 h).elim hstart hrest

theorem Mathless.open {a b : Text} (ha : Mathless a) (hb : Mathless b)
    (hhead : b.head? = some '<') : Mathless (a ++ b) :=
  (nowhere_append (withinTag_isBannedMath.apart_open a hhead)).2 ⟨ha, hb⟩

theorem Mathless.close {a b : Text} (ha : Mathless a) (hb : Mathless b)
    (hlast : a.getLast? = some '>') : Mathless (a ++ b) :=
  (nowhere_append (withinTag_isBannedMath.apart_close b hlast)).2 ⟨ha, hb⟩

theorem mathless_between {start u finish : Text} (hstart : Mathless start) (hu : Mathless u)
    (hfinish : Mathless finish) (hlast : start.getLast? = some '>')
    (hhead : finish.head? = some '<') : Mathless (start ++ u ++ finish) :=
  (hstart.close hu hlast).open hfinish hhead

theorem mathless_flatMap {α : Type} {f : α → Text} {as : List α}
    (h : ∀ a ∈ as, Mathless (f a) ∧ (f a).getLast? = some '>') : Mathless (as.flatMap f) := by
  induction as with
  | nil => exact nowhere_nil _
  | cons a as ih =>
    rw [List.forall_mem_cons] at h
    exact h.1.1.close (ih h.2) h.1.2

section

variable {d : Char} (hd : d = '<' ∨ d = '>')
include hd

theorem bracket_not_mem_ofNat (n : ℕ) : d ∉ ofNat n := by
  intro h
  have hdigit := isPlainDigit_of_mem_ofNat h
  rcases hd with rfl | rfl <;> simp [isPlainDigit] at hdigit

end

theorem mathless_image (picture alt : Text) (width height : ℕ) :
    Mathless (Elements.emptyTag (imageTag picture alt width height)) := by
  have hattributes := bracket_not_mem_attributes (.inl rfl : '<' = '<' ∨ '<' = '>')
    (wellNamed_imageTag picture alt width height)
  have himage : Mathless (("<img" : Text) ++
      ((imageTag picture alt width height).attributes.flatMap Elements.attributeText ++
        ['/', '>'])) :=
    mathless_tag (fun _ => rfl) (by decide) (by simp [hattributes])
  rw [emptyTag_parts]
  exact himage

theorem mathless_cell {element : Text} (hstart : Mathless ("<" ++ element ++ ">" : Text))
    (hfinish : Mathless ("</" ++ element ++ ">" : Text)) (content : Text) :
    Mathless (DataTable.cellMarkup element content) := by
  have hcell : DataTable.cellMarkup element content = ("<" ++ element ++ ">" : Text) ++
      escapeText content ++ ("</" ++ element ++ ">" : Text) := by
    unfold DataTable.cellMarkup
    simp only [List.append_assoc]
  rw [hcell]
  exact mathless_between hstart (mathless_of_not_mem (not_mem_escapeText content)) hfinish
    (getLast?_append_right rfl _) rfl

theorem mathless_of_locate {t : Text} (h : Scanning.locate isBannedMath t = none) : Mathless t :=
  locate_eq_none.1 h

theorem mathless_row {element : Text}
    (hcell : ∀ content, Mathless (DataTable.cellMarkup element content)) (cells : List Text) :
    Mathless (DataTable.rowMarkup element cells) := by
  have hcells : Mathless (cells.flatMap (DataTable.cellMarkup element)) :=
    mathless_flatMap fun content _ => ⟨hcell content, getLast?_append_right rfl _⟩
  exact mathless_between (mathless_of_locate (by decide)) hcells
    (mathless_of_locate (by decide)) rfl rfl

theorem mathless_table (w : DataTable) : Mathless w.markup := by
  have hcell : ∀ element : Text, element ∈ (["caption", "th", "td"] : List Text) →
      ∀ content, Mathless (DataTable.cellMarkup element content) := by
    intro element helement content
    have hstart : ∀ e ∈ (["caption", "th", "td"] : List Text),
        Scanning.locate isBannedMath ("<" ++ e ++ ">" : Text) = none ∧
          Scanning.locate isBannedMath ("</" ++ e ++ ">" : Text) = none := by decide
    obtain ⟨hopen, hclose⟩ := hstart element helement
    exact mathless_cell (mathless_of_locate hopen) (mathless_of_locate hclose) content
  have hcaption : Mathless w.captionMarkup := by
    unfold DataTable.captionMarkup
    cases w.caption with
    | none => exact mathless_of_not_mem List.not_mem_nil
    | some caption => exact hcell "caption" (by decide) caption
  have hhead : Mathless (DataTable.rowMarkup "th" w.columns) :=
    mathless_row (hcell "th" (by decide)) _
  have hrows : Mathless (w.rows.flatMap (DataTable.rowMarkup "td")) :=
    mathless_flatMap fun row _ => ⟨mathless_row (hcell "td" (by decide)) row,
      getLast?_append_right rfl _⟩
  have hfixed : ∀ t ∈ (["<table>", "<thead>", "</thead><tbody>", "</tbody></table>"] : List Text),
      Scanning.locate isBannedMath t = none := by decide
  unfold DataTable.markup
  have htable := (mathless_of_locate (hfixed "<table>" (by decide))).close hcaption rfl
  have hopen := htable.open (mathless_of_locate (hfixed "<thead>" (by decide))) rfl
  have hhead := hopen.close hhead (getLast?_append_right rfl _)
  have hbody := hhead.open (mathless_of_locate (hfixed "</thead><tbody>" (by decide))) rfl
  have hrows := hbody.close hrows (getLast?_append_right rfl _)
  exact hrows.open (mathless_of_locate (hfixed "</tbody></table>" (by decide))) rfl

theorem mathless_widget {w : Widget} {alt : Option Text} {rendered : Text}
    (h : Widget.placeholder w = .ok rendered) : Mathless (w.embed alt rendered) := by
  rcases embed_cases h alt with ⟨table, -, hembed⟩ | ⟨-, width, height, hembed⟩
  · rw [hembed]
    exact mathless_table table
  · rw [hembed]
    exact mathless_image rendered _ width height

open Interaction

theorem mathless_feedback (identifier : Text) {feedback : Text} (h : Mathless feedback) :
    Mathless (feedbackMarkup identifier feedback) := by
  refine mathless_between ?_ h (mathless_of_locate (by decide))
    (getLast?_append_right rfl _) rfl
  simp only [List.append_assoc]
  refine mathless_tag (fun _ => rfl) (by decide) ?_
  simp only [List.mem_append, not_or]
  exact ⟨by decide, by decide, not_mem_escapeAttribute _, by decide⟩

theorem mathless_choice {c : Choice} (hcontent : Mathless c.content)
    (hfeedback : ∀ feedback, c.feedback = some feedback → Mathless feedback) :
    Mathless (choiceMarkup c) := by
  have hstart : Mathless ("<qti-simple-choice identifier=\"" ++ escapeAttribute c.identifier ++
      "\">" : Text) := by
    rw [List.append_assoc]
    refine mathless_tag (fun _ => rfl) (by decide) ?_
    simp only [List.mem_append, not_or]
    exact ⟨not_mem_escapeAttribute _, by decide⟩
  have hfront := hstart.close hcontent (getLast?_append_right rfl _)
  have hfinish : Mathless ("</qti-simple-choice>" : Text) := mathless_of_locate (by decide)
  unfold choiceMarkup
  cases h : c.feedback with
  | none =>
    rw [Option.map_none, Option.getD_none, List.append_nil]
    exact hfront.open hfinish rfl
  | some feedback =>
    exact (hfront.open (mathless_feedback c.identifier (hfeedback feedback h)) rfl).open hfinish rfl

theorem mathless_choiceList (element : Text) {path attributes : Text} {prompt : Option Text}
    {choices : List Choice} (helement : ∀ t, isBannedMath (("<" ++ element : Text) ++ t) = false)
    (hfinish : Mathless ("</" ++ element ++ ">" : Text)) (helement' : '<' ∉ element)
    (hattributes : '<' ∉ attributes)
    (h : ∀ f ∈ Fragment.ofPrompt path prompt ++ choices.flatMap (Fragment.ofChoice path),
      Mathless f.content) : Mathless (choiceList element attributes prompt choices) := by
  have hparts : ∀ part ∈ choiceListParts prompt choices,
      Mathless part ∧ part.getLast? = some '>' := by
    intro part hpart
    rcases List.mem_append.1 hpart with hpart | hpart
    · obtain ⟨p, hp, rfl⟩ := Option.map_eq_some_iff.1 (Option.mem_toList.1 hpart)
      have hp' : Mathless p := by
        refine h ⟨.mixed, Path.member path "prompt", p⟩ (List.mem_append_left _ ?_)
        exact Option.mem_toList.2 (Option.map_eq_some_iff.2 ⟨p, hp, rfl⟩)
      exact ⟨mathless_between (mathless_of_locate (by decide)) hp'
        (mathless_of_locate (by decide)) rfl rfl, getLast?_append_right rfl _⟩
    · obtain ⟨c, hc, rfl⟩ := List.mem_map.1 hpart
      have hfragments : ∀ f ∈ Fragment.ofChoice path c, Mathless f.content :=
        fun f hf => h f (List.mem_append_right _ (List.mem_flatMap.2 ⟨c, hc, hf⟩))
      refine ⟨mathless_choice (hfragments _ List.mem_cons_self) ?_, getLast?_append_right rfl _⟩
      intro feedback hfeedback
      refine hfragments ⟨.mixed, Path.member (Fragment.choicePath path c.identifier) "feedback",
        feedback⟩ (List.mem_cons_of_mem _ ?_)
      exact Option.mem_toList.2 (Option.map_eq_some_iff.2 ⟨feedback, hfeedback, rfl⟩)
  have hstart : Mathless ("<" ++ element ++ " " ++ attributes ++ ">" : Text) := by
    rw [List.append_assoc, List.append_assoc]
    refine mathless_tag helement (by simpa using helement') ?_
    simp only [List.mem_append, not_or]
    exact ⟨by decide, hattributes, by decide⟩
  rw [choiceList_eq]
  refine hstart.close (mathless_flatMap fun part hpart => ?_) (getLast?_append_right rfl _)
  have hpart : Mathless part ∧ part.getLast? = some '>' := by
    rcases List.mem_append.1 hpart with hpart | hpart
    · exact hparts part hpart
    · rw [List.mem_singleton.1 hpart]
      exact ⟨hfinish, getLast?_append_right rfl _⟩
  exact ⟨nowhere_cons.2 ⟨rfl, hpart.1⟩, getLast?_append_right hpart.2 ['\n']⟩

theorem not_mem_responseAttribute (identifier : Text) : '<' ∉ responseAttribute identifier := by
  unfold responseAttribute
  simp only [List.mem_append, not_or]
  exact ⟨⟨by decide, not_mem_escapeAttribute _⟩, by decide⟩

theorem not_mem_shuffleAttribute (shuffle : Bool) : '<' ∉ shuffleAttribute shuffle := by
  cases shuffle <;> decide

/-- The markup of an interaction holds no math that its fragments do not hold. -/
theorem mathless_interaction {path : Text} {i : Interaction}
    (h : ∀ f ∈ Fragment.ofInteraction path i, Mathless f.content) : Mathless i.markup := by
  cases i with
  | choice i =>
    refine mathless_choiceList "qti-choice-interaction" (fun _ => rfl)
      (mathless_of_locate (by decide)) (by decide) ?_ h
    simp only [List.mem_append, not_or]
    have hnumber := bracket_not_mem_ofNat (.inl rfl)
    exact ⟨⟨⟨⟨⟨⟨not_mem_responseAttribute _, not_mem_shuffleAttribute _⟩, by decide⟩, hnumber _⟩,
      by decide⟩, hnumber _⟩, by decide⟩
  | order i =>
    refine mathless_choiceList "qti-order-interaction" (fun _ => rfl)
      (mathless_of_locate (by decide)) (by decide) ?_ h
    simp only [List.mem_append, not_or]
    exact ⟨not_mem_responseAttribute _, not_mem_shuffleAttribute _⟩
  | textEntry i =>
    have hlength : '<' ∉ (i.expectedLength.map fun n =>
        (" expected-length=\"" ++ ofNat n ++ "\"" : Text)).getD [] := by
      cases i.expectedLength with
      | none => exact List.not_mem_nil
      | some n =>
        rw [Option.map_some, Option.getD_some]
        simp only [List.mem_append, not_or]
        exact ⟨⟨by decide, bracket_not_mem_ofNat (.inl rfl) n⟩, by decide⟩
    change Mathless ("<qti-text-entry-interaction " ++ responseAttribute i.responseIdentifier ++
      ((i.expectedLength.map fun n =>
        (" expected-length=\"" ++ ofNat n ++ "\"" : Text)).getD []) ++ "/>" : Text)
    rw [List.append_assoc, List.append_assoc]
    refine mathless_tag (fun _ => rfl) (by decide) ?_
    simp only [List.mem_append, not_or]
    exact ⟨not_mem_responseAttribute _, hlength, by decide⟩
  | inlineChoice i =>
    have hchoice : ∀ c ∈ i.choices, Mathless (inlineOptionMarkup c) ∧
        (inlineOptionMarkup c).getLast? = some '>' := by
      intro c hc
      have hcontent : Mathless c.content := h _ (List.mem_map_of_mem hc)
      refine ⟨mathless_between ?_ hcontent (mathless_of_locate (by decide))
        (getLast?_append_right rfl _) rfl, getLast?_append_right rfl _⟩
      rw [List.append_assoc]
      refine mathless_tag (fun _ => rfl) (by decide) ?_
      simp only [List.mem_append, not_or]
      exact ⟨not_mem_escapeAttribute _, by decide⟩
    refine mathless_between ?_ (mathless_flatMap hchoice) (mathless_of_locate (by decide))
      (getLast?_append_right rfl _) rfl
    rw [List.append_assoc, List.append_assoc]
    refine mathless_tag (fun _ => rfl) (by decide) ?_
    simp only [List.mem_append, not_or]
    exact ⟨not_mem_responseAttribute _, not_mem_shuffleAttribute _, by decide⟩

end AssessmentItems.RenderedMath
