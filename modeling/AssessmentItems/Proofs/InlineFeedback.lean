import AssessmentItems.Proofs.Grading
import AssessmentItems.Proofs.WellFormedItems

/-!
Feedback on options. The identifiers of the options that are picked go into one outcome
variable, which all interactions share. So the feedback of an option is shown if an option of
its identifier is picked, in whichever interaction.
-/
namespace AssessmentItems.InlineFeedback

open Escaping Scoring Pieces Elements ResponseProcessing Results Compilation SlotContents
  SlotTables Tables Grading
open WellFormedItems (report_eq_none ofDeclarations_eq_none)

theorem declarations_of_prepare {item : AssessmentItem} {ws : Table Widget}
    (h : Compiler.prepare item = .ok ws) :
    item.responseDeclarations ≠ [] ∧
      (item.responseDeclarations.map ResponseDeclaration.identifier).Nodup := by
  obtain ⟨_, hcheck, -⟩ := bind_eq_ok.1 h
  have hfinding := WellFormedItems.check_eq_ok.1 hcheck
  simp only [Structure.finding?, Option.orElse_eq_none, report_eq_none,
    ofDeclarations_eq_none] at hfinding
  obtain ⟨-, hempty, ⟨-, hdistinct, -⟩, -⟩ := hfinding
  exact ⟨by simpa using hempty, hdistinct⟩

def options : Interaction → List Choice
  | .choice i => i.choices
  | .order i => i.choices
  | .textEntry _ | .inlineChoice _ => []

def feedbackTag (identifier : Text) : Tag :=
  ⟨"qti-feedback-inline", [("outcome-identifier", Interaction.feedbackInline),
    ("identifier", identifier), ("show-hide", "show")]⟩

/-- Whether an element is shown: its identifier is among the values of its outcome variable. -/
def Shown (outcomes : Table (List Text)) (tag : Tag) : Prop :=
  tag.attribute? "show-hide" = some ("show" : Text) ∧
    ∃ outcome ∈ tag.attribute? "outcome-identifier", ∃ identifier ∈ tag.attribute? "identifier",
      identifier ∈ (Table.find? outcome outcomes).getD []

/-- A tag with three attributes, of which the last has a fixed value. -/
theorem fixedLine_eq {s r e n a b c d : String} {t u v w z : Text} {x : Text} (y : Text)
    (hx : escapeAttribute x = x) (hz : escapeAttribute z = z) (hn : n = String.ofList t)
    (ha : a = String.ofList u) (hb : b = String.ofList v) (hc : c = String.ofList w)
    (hd : d = String.ofList z) (hs : s = String.ofList ('<' :: (t ++ ' ' :: (u ++ ['=', '"']))))
    (hr : r = String.ofList ('"' :: ' ' :: (v ++ ['=', '"'])))
    (he : e = String.ofList ('"' :: ' ' :: (w ++ '=' :: '"' :: (z ++ ['"', '>'])))) :
    (s : Text) ++ x ++ r ++ escapeAttribute y ++ e =
      startTag ⟨n, [((a : Text), x), ((b : Text), y), ((c : Text), (d : Text))]⟩ := by
  rw [literal_eq hs, literal_eq hr, literal_eq he, startTag, openText, literal_eq hn,
    literal_eq ha, literal_eq hb, literal_eq hc, literal_eq hd]
  simp only [List.flatMap_cons, List.flatMap_nil, attributeText, hx, hz, List.append_assoc,
    List.cons_append, List.nil_append]

theorem feedbackMarkup_eq (identifier feedback : Text) :
    Interaction.feedbackMarkup identifier feedback =
      startTag (feedbackTag identifier) ++ feedback ++ endTag (feedbackTag identifier).name := by
  have hplain : escapeAttribute Interaction.feedbackInline = Interaction.feedbackInline := by
    decide
  have hend : ("</qti-feedback-inline>" : Text) = endTag (feedbackTag identifier).name :=
    endLine_eq 0 rfl rfl
  have hstart : ("<qti-feedback-inline outcome-identifier=\"" ++ Interaction.feedbackInline ++
      "\" identifier=\"" ++ escapeAttribute identifier ++ "\" show-hide=\"show\">" : Text) =
        startTag (feedbackTag identifier) :=
    fixedLine_eq identifier hplain (by decide) rfl rfl rfl rfl rfl rfl rfl rfl
  unfold Interaction.feedbackMarkup
  rw [hstart, hend]

/-- The feedback of an option stands in the markup of the interaction. -/
theorem part_feedback {i : Interaction} {option : Choice} (hoption : option ∈ options i)
    {feedback : Text} (hfeedback : option.feedback = some feedback) :
    startTag (feedbackTag option.identifier) ++ feedback ++
      endTag (feedbackTag option.identifier).name <:+: i.markup := by
  rw [← feedbackMarkup_eq]
  have hchoice : Interaction.feedbackMarkup option.identifier feedback <:+:
      Interaction.choiceMarkup option := by
    unfold Interaction.choiceMarkup
    rw [hfeedback]
    exact ⟨_, _, rfl⟩
  refine hchoice.trans ?_
  have hpart : ∀ {choices : List Choice}, option ∈ choices → ∀ prompt,
      Interaction.choiceMarkup option ∈ choiceListParts prompt choices :=
    fun h _ => List.mem_append_right _ (List.mem_map_of_mem h)
  cases i with
  | choice i => exact part_choiceList _ _ (hpart hoption _)
  | order i => exact part_choiceList _ _ (hpart hoption _)
  | textEntry i => exact absurd hoption List.not_mem_nil
  | inlineChoice i => exact absurd hoption List.not_mem_nil

/-- The response that the interactions linked to it give, from the answers in their slots. -/
def response (item : AssessmentItem) (answers : Text → List Text) (identifier : Text) : List Text :=
  (item.interactions.filter fun (_, i) => i.responseIdentifier = identifier).flatMap
    fun (slot, _) => answers slot

def Unordered (item : AssessmentItem) (i : Interaction) : Prop :=
  ∃ d ∈ item.responseDeclarations, d.identifier = i.responseIdentifier ∧ d.cardinality ≠ .ordered

/-- What is picked in an interaction selects feedback: its response is not ordered, and belongs
to an interaction with feedback on options. -/
def Selects (item : AssessmentItem) (i : Interaction) : Prop :=
  Unordered item i ∧ ∃ slot j, (slot, j) ∈ item.interactions ∧ j.hasInlineFeedback = true ∧
    j.responseIdentifier = i.responseIdentifier

section

variable {c : Compiler} {item : AssessmentItem} {answers : Text → List Text}

theorem mem_response {identifier value : Text} :
    value ∈ response item answers identifier ↔
      ∃ slot i, (slot, i) ∈ item.interactions ∧ i.responseIdentifier = identifier ∧
        value ∈ answers slot := by
  simp [response, and_assoc]

theorem mem_inlineFeedback {identifier : Text} :
    identifier ∈ Compiler.inlineFeedback item ↔
      ∃ slot j, (slot, j) ∈ item.interactions ∧ j.hasInlineFeedback = true ∧
        j.responseIdentifier = identifier := by
  simp [Compiler.inlineFeedback, and_assoc]

/-- What selects feedback: answers of interactions whose responses are collected. -/
theorem mem_selection {value : Text} :
    value ∈ (selectors (Compiler.inlineFeedback item) item.responseDeclarations).flatMap
        (fun d => response item answers d.identifier) ↔
      ∃ slot i, (slot, i) ∈ item.interactions ∧ Selects item i ∧ value ∈ answers slot := by
  simp only [List.mem_flatMap, selectors, List.mem_filter, Bool.and_eq_true, decide_eq_true_eq,
    mem_inlineFeedback, mem_response]
  constructor
  · rintro ⟨d, ⟨hd, hcardinality, hfeedback⟩, slot, i, hi, hresponse, hvalue⟩
    exact ⟨slot, i, hi, ⟨⟨d, hd, hresponse.symm, hcardinality⟩, hresponse ▸ hfeedback⟩, hvalue⟩
  · rintro ⟨slot, i, hi, ⟨⟨d, hd, hresponse, hcardinality⟩, hfeedback⟩, hvalue⟩
    exact ⟨d, ⟨hd, hcardinality, hresponse ▸ hfeedback⟩, slot, i, hi, hresponse.symm, hvalue⟩

theorem find?_selection (selecting ds : List ResponseDeclaration) (given : Text → List Text) :
    (Table.find? Interaction.feedbackInline
      (.ofEntries (selectionOf selecting given ++ gradeOf ds given))).getD [] =
        selecting.flatMap fun d => given d.identifier := by
  have hscore : score ≠ Interaction.feedbackInline := by decide
  have hfeedback : feedback ≠ Interaction.feedbackInline := by decide
  have hgrade : ∀ points selected (rest : Table (List Text)),
      Table.find? Interaction.feedbackInline ((Grading.grade points selected).reverse ++ rest) =
        Table.find? Interaction.feedbackInline rest := by
    intro points selected rest
    simp only [Grading.grade, List.reverse_cons, List.reverse_nil, List.nil_append,
      List.cons_append, Table.find?, if_neg hscore, if_neg hfeedback]
  have hrest : Table.find? Interaction.feedbackInline ((gradeOf ds given).reverse ++
      (selectionOf selecting given).reverse) =
        Table.find? Interaction.feedbackInline (selectionOf selecting given).reverse := by
    unfold gradeOf
    split_ifs
    · exact hgrade _ _ _
    · exact hgrade _ _ _
  rw [find?_ofEntries, List.reverse_append, hrest, selectionOf]
  split_ifs with hnil
  · rw [hnil]
    rfl
  · simp [Table.find?]

/-- An element of feedback is shown if an interaction that selects feedback was answered with its
identifier. -/
theorem shown_iff (r : Compiled c item) (answers : Text → List Text) :
    ∃ outcomes,
      outcomes? r.document.declarations r.document.processing (response item answers) =
        some outcomes ∧
      ∀ identifier, Shown outcomes (feedbackTag identifier) ↔
        ∃ slot i, (slot, i) ∈ item.interactions ∧ Selects item i ∧ identifier ∈ answers slot := by
  obtain ⟨hne, hunique⟩ := declarations_of_prepare r.prepared
  refine ⟨_, outcomes_eq hne hunique _ _, fun identifier => ?_⟩
  have hshow : (feedbackTag identifier).attribute? "show-hide" = some ("show" : Text) := rfl
  have houtcome : (feedbackTag identifier).attribute? "outcome-identifier" =
      some Interaction.feedbackInline := attribute?_first _ _ _ _
  have hidentifier : (feedbackTag identifier).attribute? "identifier" = some identifier := rfl
  rw [Shown, hshow, houtcome, hidentifier]
  simp only [true_and, Option.mem_def, Option.some.injEq, exists_eq_left', find?_selection]
  exact mem_selection

theorem selects_of_feedback {slot : Text} {i : Interaction} (hi : (slot, i) ∈ item.interactions)
    (hunordered : Unordered item i) {option : Choice} (hoption : option ∈ options i)
    (hfeedback : option.feedback.isSome = true) : Selects item i := by
  refine ⟨hunordered, slot, i, hi, ?_, rfl⟩
  cases i with
  | choice i => exact List.any_eq_true.2 ⟨option, hoption, hfeedback⟩
  | order i => exact List.any_eq_true.2 ⟨option, hoption, hfeedback⟩
  | textEntry i => exact absurd hoption List.not_mem_nil
  | inlineChoice i => exact absurd hoption List.not_mem_nil

end

/-- The feedback of an option, which stands in the markup of its interaction, is shown exactly if
the option is picked there, or one of its identifier in another interaction that selects
feedback. -/
theorem feedback_shown_iff {c : Compiler} {item : AssessmentItem} {document : Text}
    (h : (c.compile item).result = .ok document) (answers : Text → List Text) :
    ∃ (r : Compiled c item) (outcomes : Table (List Text)), document = r.document.text ∧
      outcomes? r.document.declarations r.document.processing (response item answers) =
        some outcomes ∧
      ∀ slot i, (slot, i) ∈ item.interactions → Unordered item i →
        ∀ option ∈ options i, ∀ feedback, option.feedback = some feedback →
          (startTag (feedbackTag option.identifier) ++ feedback ++
            endTag (feedbackTag option.identifier).name <:+: i.markup) ∧
          (Shown outcomes (feedbackTag option.identifier) ↔ option.identifier ∈ answers slot ∨
            ∃ other j, (other, j) ∈ item.interactions ∧ other ≠ slot ∧ Selects item j ∧
              option.identifier ∈ answers other) := by
  obtain ⟨r, rfl⟩ := compile_eq_ok.1 h
  obtain ⟨outcomes, houtcomes, hshown⟩ := shown_iff r answers
  refine ⟨r, outcomes, rfl, houtcomes, fun slot i hi hunordered option hoption feedback hfeedback =>
    ⟨part_feedback hoption hfeedback, ?_⟩⟩
  have hselects : Selects item i :=
    selects_of_feedback hi hunordered hoption (Option.isSome_of_eq_some hfeedback)
  rw [hshown]
  constructor
  · rintro ⟨other, j, hj, hother, hanswer⟩
    by_cases hslot : other = slot
    · exact .inl (hslot ▸ hanswer)
    · exact .inr ⟨other, j, hj, hslot, hother, hanswer⟩
  · rintro (hanswer | ⟨other, j, hj, -, hother, hanswer⟩)
    · exact ⟨slot, i, hi, hselects, hanswer⟩
    · exact ⟨other, j, hj, hother, hanswer⟩

def firstQuestion : Interaction :=
  .choice ⟨"R1", false, 1, 1, none, [⟨"A", "<p>1</p>", some "yes"⟩, ⟨"B", "<p>2</p>", some "no"⟩]⟩

def secondQuestion : Interaction :=
  .choice ⟨"R2", false, 1, 1, none, [⟨"A", "<p>3</p>", some "no"⟩, ⟨"C", "<p>4</p>", none⟩]⟩

def pairItem : AssessmentItem where
  identifier := "pair"
  title := "Pair"
  body := .markup (Slots.placeholder "q1" ++ Slots.placeholder "q2")
  responseDeclarations :=
    [⟨"R1", .single, .identifier, .scalar (.text "A")⟩,
      ⟨"R2", .single, .identifier, .scalar (.text "C")⟩]
  widgets := []
  interactions := [("q1", firstQuestion), ("q2", secondQuestion)]
  feedback := ⟨.markup "<p>right</p>", .markup "<p>wrong</p>"⟩

def picks (slot : Text) : List Text := if slot = "q1" then ["A"] else ["C"]

theorem unordered_firstQuestion : Unordered pairItem firstQuestion :=
  ⟨_, List.mem_cons_self, rfl, nofun⟩

theorem unordered_secondQuestion : Unordered pairItem secondQuestion :=
  ⟨_, List.mem_cons_of_mem _ List.mem_cons_self, rfl, nofun⟩

theorem pairItem_compiles : (Compiler.standard.compile pairItem).result.isOk = true := by
  decide +kernel

theorem feedback_shown_pair :
    ∃ document, (Compiler.standard.compile pairItem).result = .ok document ∧
      ∃ (r : Compiled Compiler.standard pairItem) (outcomes : Table (List Text)),
        document = r.document.text ∧
        outcomes? r.document.declarations r.document.processing (response pairItem picks) =
          some outcomes ∧
        Shown outcomes (feedbackTag "A") ∧ ¬ Shown outcomes (feedbackTag "B") := by
  obtain ⟨document, hdocument⟩ := exists_of_isOk pairItem_compiles
  obtain ⟨r, outcomes, htext, houtcomes, hshown⟩ := feedback_shown_iff hdocument picks
  have hquestion := hshown "q1" firstQuestion List.mem_cons_self unordered_firstQuestion
  refine ⟨document, hdocument, r, outcomes, htext, houtcomes, ?_, ?_⟩
  · exact (hquestion _ List.mem_cons_self _ rfl).2.2 (.inl (by decide))
  · refine mt (hquestion _ (List.mem_cons_of_mem _ List.mem_cons_self) _ rfl).2.1 ?_
    have hnowhere : ∀ entry ∈ pairItem.interactions, ("B" : Text) ∉ picks entry.1 := by
      decide +kernel
    rintro (hanswer | ⟨other, j, hj, -, -, hanswer⟩)
    · exact hnowhere _ List.mem_cons_self hanswer
    · exact hnowhere _ hj hanswer

/-- In the second question the feedback of an option is shown that was picked in the first. -/
theorem feedback_shown_unselected :
    ∃ (r : Compiled Compiler.standard pairItem) (outcomes : Table (List Text)),
      outcomes? r.document.declarations r.document.processing (response pairItem picks) =
        some outcomes ∧
      ¬ ∀ slot i, (slot, i) ∈ pairItem.interactions → Unordered pairItem i →
        ∀ option ∈ options i, ∀ feedback, option.feedback = some feedback →
          (Shown outcomes (feedbackTag option.identifier) ↔ option.identifier ∈ picks slot) := by
  obtain ⟨document, hdocument⟩ := exists_of_isOk pairItem_compiles
  obtain ⟨r, -⟩ := compile_eq_ok.1 hdocument
  obtain ⟨outcomes, houtcomes, hshown⟩ := shown_iff r picks
  refine ⟨r, outcomes, houtcomes, fun hall => ?_⟩
  have hfirst : (("q1" : Text), firstQuestion) ∈ pairItem.interactions := List.mem_cons_self
  have hsecond : (("q2" : Text), secondQuestion) ∈ pairItem.interactions :=
    List.mem_cons_of_mem _ List.mem_cons_self
  have hpicked : Shown outcomes (feedbackTag "A") := by
    have hselects := selects_of_feedback hfirst unordered_firstQuestion List.mem_cons_self rfl
    exact (hshown _).2 ⟨"q1", firstQuestion, hfirst, hselects, by decide⟩
  have hanswer : ("A" : Text) ∈ picks "q2" :=
    (hall "q2" secondQuestion hsecond unordered_secondQuestion _ List.mem_cons_self _ rfl).1 hpicked
  exact absurd hanswer (by decide)

end AssessmentItems.InlineFeedback
