import AssessmentItems.Proofs.LegalSlots
import AssessmentItems.Proofs.LegalSpellings

/-!
Legal characters in a whole document. Escaping keeps every character that is not a mark, those
included that no document may contain. So where the markup of an item is legal, its document is
legal exactly if all plain texts that it shows are: the identifier and the title, the responses
with their values, the texts of contents, and the texts in the slots that these lead to.
-/
namespace AssessmentItems.LegalDocuments

open Text Scanning Slots Escaping ContentMarkup Results Pieces Placeholders Tags Substitution
  SlotChains FilledMarkup NestingDepth SlotContents SlotTables DocumentTags Compilation
  LegalCharacters LegalSpellings LegalContents LegalSlots

theorem legal_declaration {d : ResponseDeclaration} :
    Legal (Scoring.declarationMarkup d) ↔
      Legal d.identifier ∧ ∀ value ∈ d.values, Legal value := by
  have hcardinality : Legal d.cardinality.name := by cases d.cardinality <;> decide
  have htype : Legal d.baseType.name := by cases d.baseType <;> decide
  have hvalue : ∀ value, Legal (Scoring.valueLine value) ↔ Legal value := by
    intro value
    unfold Scoring.valueLine
    simp +decide only [legal_append, legal_escapeText, true_and, and_true]
  have hopen : Legal ("<qti-response-declaration identifier=\"" ++ escapeAttribute d.identifier ++
      "\" cardinality=\"" ++ d.cardinality.name ++ "\" base-type=\"" ++ d.baseType.name ++
      "\">" : Text) ↔ Legal d.identifier := by
    simp +decide only [legal_append, legal_escapeAttribute, hcardinality, htype, true_and, and_true]
  unfold Scoring.declarationMarkup
  rw [legal_groupedLines]
  simp +decide only [List.forall_mem_cons, List.forall_mem_map, hopen, hvalue, legal_accepted,
    and_true]

theorem legal_variableMarkup {identifier : Text} :
    Legal (Scoring.variableMarkup identifier) ↔ Legal identifier := by
  unfold Scoring.variableMarkup
  simp +decide only [legal_append, legal_escapeAttribute, true_and, and_true]

theorem legal_comparisonLines {d : ResponseDeclaration} :
    (∀ line ∈ Scoring.comparisonLines d, Legal line) ↔ Legal d.identifier := by
  have hoperator : Legal (Scoring.operator d.cardinality) := by cases d.cardinality <;> decide
  unfold Scoring.comparisonLines
  simp +decide only [List.forall_mem_cons, legal_append, legal_escapeAttribute,
    legal_variableMarkup, hoperator, true_and, and_true, and_self]

theorem legal_selectorLines {inlineFeedback : List Text} {ds : List ResponseDeclaration}
    (h : ∀ d ∈ ds, Legal d.identifier) :
    ∀ line ∈ Scoring.selectorLines (Scoring.selectors inlineFeedback ds), Legal line := by
  unfold Scoring.selectorLines
  split_ifs
  · exact fun line hline => absurd hline List.not_mem_nil
  · simp +decide only [List.flatten_cons, List.flatten_nil, List.forall_mem_append,
      List.forall_mem_map, legal_append, legal_variableMarkup, true_and, and_true]
    exact fun d hd => h d (List.mem_of_mem_filter hd)

theorem legal_processing {ds : List ResponseDeclaration} {inlineFeedback : List Text} :
    Legal (Scoring.processingMarkup ds inlineFeedback) ↔ ∀ d ∈ ds, Legal d.identifier := by
  have hcorrect : ∀ line ∈ Scoring.outcomeLines "1" "CORRECT", Legal line := by decide +kernel
  have hincorrect : ∀ line ∈ Scoring.outcomeLines "0" "INCORRECT", Legal line := by
    decide +kernel
  have hfixed : ∀ line ∈ (["<qti-response-processing>", "  <qti-response-condition>",
      "    <qti-response-if>", "      <qti-and>", "      </qti-and>", "    </qti-response-if>",
      "    <qti-response-else>", "    </qti-response-else>", "  </qti-response-condition>",
      "</qti-response-processing>"] : List Text), Legal line := by decide +kernel
  simp only [List.forall_mem_cons, List.not_mem_nil, false_implies, implies_true, and_true] at hfixed
  unfold Scoring.processingMarkup
  rw [legal_groupedLines]
  simp only [List.forall_mem_cons, List.forall_mem_flatMap, legal_comparisonLines, hfixed,
    List.not_mem_nil, false_implies, implies_true, true_and, and_true]
  exact ⟨fun h => h.2.1, fun h => ⟨legal_selectorLines h, h, hcorrect, hincorrect⟩⟩

theorem legal_rootTag {d : Document} :
    Legal d.rootTag ↔
      Legal d.identifier ∧ Legal d.title ∧ Legal d.configuration.language := by
  have hspaces : Legal ("<qti-assessment-item xmlns=\"" ++ Document.itemNamespace ++
      "\" xmlns:xsi=\"" ++ Document.instanceNamespace ++ "\" xsi:schemaLocation=\"" ++
      Document.itemNamespace ++ " " ++ Document.schemaLocation ++ "\" identifier=\"" : Text) := by
    decide +kernel
  have hfixed : ∀ s ∈ (["\" title=\"", "\" time-dependent=\"", "\" xml:lang=\"", "\">"] : List Text),
      Legal s := by decide
  simp only [List.forall_mem_cons] at hfixed
  unfold Document.rootTag
  simp only [legal_append, legal_escapeAttribute, legal_ofBool, hspaces, hfixed, true_and, and_true,
    and_assoc]

theorem legal_text {d : Document} :
    Legal d.text ↔ Legal d.rootTag ∧ Legal d.declarations ∧ Legal d.body ∧ Legal d.correct ∧
      Legal d.incorrect ∧ Legal d.processing := by
  have hblock : ∀ identifier markup, Legal identifier →
      (Legal (Document.feedbackBlock identifier markup) ↔ Legal markup) := by
    intro identifier markup hidentifier
    have hfixed : ∀ s ∈ (["<qti-feedback-block outcome-identifier=\"", Scoring.feedback,
        "\" identifier=\"", "\" show-hide=\"show\"><qti-content-body>",
        "</qti-content-body></qti-feedback-block>"] : List Text), Legal s := by decide +kernel
    simp only [List.forall_mem_cons] at hfixed
    unfold Document.feedbackBlock
    simp only [legal_append, hidentifier, hfixed, true_and, and_true]
  have hcorrect := hblock "CORRECT" d.correct (by decide)
  have hincorrect := hblock "INCORRECT" d.incorrect (by decide)
  have hfixed : ∀ line ∈ (["<?xml version=\"1.0\" encoding=\"UTF-8\"?>",
      Document.outcomeTag Scoring.score "single" "float" ++
        "><qti-default-value><qti-value>0</qti-value></qti-default-value></qti-outcome-declaration>",
      Document.outcomeTag Scoring.feedback "single" "identifier" ++ "/>",
      Document.outcomeTag Interaction.feedbackInline "multiple" "identifier" ++ "/>",
      "<qti-item-body>", "</qti-item-body>", "</qti-assessment-item>"] : List Text), Legal line := by
    decide +kernel
  simp only [List.forall_mem_cons, List.not_mem_nil, false_implies, implies_true, and_true] at hfixed
  unfold Document.text
  rw [legal_lines]
  simp only [List.forall_mem_cons, hcorrect, hincorrect, hfixed, List.not_mem_nil, false_implies,
    implies_true, true_and, and_true]

mutual

theorem content_ofNode (path : Text) (node : Node) :
    (Fragment.ofNode path node).map Fragment.content = (leaves node).filterMap markupOf? := by
  cases node with
  | paragraph content => exact content_ofNodes _ 0 content
  | text content => rfl
  | math markup => rfl
  | inlineSlot slot => rfl
  | blockSlot slot => rfl

theorem content_ofNodes (path : Text) (index : ℕ) (ns : List Node) :
    (Fragment.ofNodes path index ns).map Fragment.content =
      (leavesOf ns).filterMap markupOf? := by
  cases ns with
  | nil => rfl
  | cons node rest =>
    rw [Fragment.ofNodes, leavesOf, List.map_append, List.filterMap_append, content_ofNode,
      content_ofNodes]

end

/-- The fragments of a content are its markup. -/
theorem content_ofContent (path : Text) (content : Content) :
    (Fragment.ofContent path content).map Fragment.content = markups content := by
  cases content with
  | markup t => rfl
  | nodes ns => exact content_ofNodes path 0 ns

inductive ContentText (item : AssessmentItem) (ws : Table Widget) (slots : SlotTable)
    (content : Content) : Text → Prop
  | text {t : Text} (ht : t ∈ texts content) : ContentText item ws slots content t
  | slot {slot inner t : Text} {names : List Text} (hnames : Chain slots (named content) names)
      (hslot : slot ∈ names) (hinner : Table.find? slot slots = some inner)
      (ht : SlotText item ws slot inner t) : ContentText item ws slots content t

/-- The plain texts that an item shows. -/
inductive ShownText (item : AssessmentItem) (ws : Table Widget) (slots : SlotTable) : Text → Prop
  | identifier : ShownText item ws slots item.identifier
  | title : ShownText item ws slots item.title
  | response {d : ResponseDeclaration} (hd : d ∈ item.responseDeclarations) :
      ShownText item ws slots d.identifier
  | value {d : ResponseDeclaration} {value : Text} (hd : d ∈ item.responseDeclarations)
      (hvalue : value ∈ d.values) : ShownText item ws slots value
  | content {path t : Text} {content : Content} (hcontent : (path, content) ∈ contents item)
      (ht : ContentText item ws slots content t) : ShownText item ws slots t

/-- What a content of an item comes to is legal exactly if its plain texts are, those in its slots
included. -/
theorem legal_resolveContent {item : AssessmentItem} {ws : Table Widget} {slots : SlotTable}
    {path r : Text} {content : Content} (hmarkup : ∀ f ∈ Fragment.ofItem item, Legal f.content)
    (htable : Compiler.slotTable Widget.placeholder item ws = .ok slots)
    (hcontent : (path, content) ∈ contents item)
    (hresolve : Compiler.resolveContent slots path content = .ok r) :
    Legal r ↔ ∀ t, ContentText item ws slots content t → Legal t := by
  obtain ⟨t, hrender, hresolve⟩ := resolveContent_eq_ok.1 hresolve
  have hslot : ∀ name inner, Table.find? name slots = some inner →
      (Legal inner ↔ ∀ t, SlotText item ws name inner t → Legal t) ∧ Sound inner :=
    fun _ _ hinner => legal_slot hmarkup htable hinner
  have hmarkups : ∀ markup ∈ markups content, Legal markup := by
    rw [← content_ofContent path, List.forall_mem_map]
    exact fun f hf => hmarkup f (mem_ofItem hcontent hf)
  rw [legal_resolved (fun _ _ hinner => tagged_slot htable hinner)
    (fun name inner hinner => (hslot name inner hinner).2) hmarkups hrender hresolve]
  constructor
  · rintro ⟨htexts, hslots⟩ t ht
    cases ht with
    | text ht => exact htexts t ht
    | slot hnames hname hinner ht =>
      exact (hslot _ _ hinner).1.1 (hslots _ hnames _ hname _ hinner) t ht
  · intro hshown
    refine ⟨fun t ht => hshown t (.text ht), fun names hnames name hname inner hinner => ?_⟩
    exact (hslot name inner hinner).1.2 fun t ht => hshown t (.slot hnames hname hinner ht)

/-- A document is legal exactly if its settings, its responses and its resolved contents are. -/
theorem legal_compiled {c : Compiler} {item : AssessmentItem} (r : Compiled c item) :
    Legal r.document.text ↔
      (Legal item.identifier ∧ Legal item.title ∧ Legal c.configuration.language) ∧
      (∀ d ∈ item.responseDeclarations, Legal d.identifier ∧ ∀ value ∈ d.values, Legal value) ∧
      Legal r.body ∧ Legal r.correct ∧ Legal r.incorrect := by
  have hroot : Legal r.document.rootTag ↔
      Legal item.identifier ∧ Legal item.title ∧ Legal c.configuration.language := legal_rootTag
  have hdeclarations : Legal r.document.declarations ↔
      ∀ d ∈ item.responseDeclarations, Legal d.identifier ∧ ∀ value ∈ d.values, Legal value := by
    refine legal_lines.trans ?_
    simp only [List.forall_mem_map, legal_declaration]
  have hprocessing : Legal r.document.processing ↔
      ∀ d ∈ item.responseDeclarations, Legal d.identifier := legal_processing
  rw [legal_text, hroot, hdeclarations, hprocessing]
  constructor
  · rintro ⟨hsettings, hresponses, hbody, hcorrect, hincorrect, -⟩
    exact ⟨hsettings, hresponses, hbody, hcorrect, hincorrect⟩
  · rintro ⟨hsettings, hresponses, hbody, hcorrect, hincorrect⟩
    exact ⟨hsettings, hresponses, hbody, hcorrect, hincorrect, fun d hd => (hresponses d hd).1⟩

/-- Where the markup of an item is legal, its document is legal exactly if the language and all
plain texts that the item shows are. -/
theorem legal_document_iff {c : Compiler} {item : AssessmentItem} {document : Text}
    (hrenderer : c.renderer = Widget.placeholder)
    (hmarkup : ∀ f ∈ Fragment.ofItem item, Legal f.content)
    (hcompile : (c.compile item).result = .ok document) :
    ∃ ws slots, Compiler.prepare item = .ok ws ∧
      Compiler.slotTable Widget.placeholder item ws = .ok slots ∧
      (Legal document ↔
        Legal c.configuration.language ∧ ∀ t, ShownText item ws slots t → Legal t) := by
  obtain ⟨r, rfl⟩ := compile_eq_ok.1 hcompile
  have htable := r.filled
  rw [hrenderer] at htable
  have hcontents : (("body" : Text), item.body) ∈ contents item ∧
      (("feedback.correct" : Text), item.feedback.correct) ∈ contents item ∧
      (("feedback.incorrect" : Text), item.feedback.incorrect) ∈ contents item := by
    simp [contents]
  obtain ⟨hfirst, hsecond, hthird⟩ := hcontents
  refine ⟨r.widgets, r.slots, r.prepared, htable, ?_⟩
  rw [legal_compiled, legal_resolveContent hmarkup htable hfirst r.body_resolved,
    legal_resolveContent hmarkup htable hsecond r.correct_resolved,
    legal_resolveContent hmarkup htable hthird r.incorrect_resolved]
  constructor
  · rintro ⟨⟨hidentifier, htitle, hlanguage⟩, hresponses, hbody, hcorrect, hincorrect⟩
    refine ⟨hlanguage, fun t ht => ?_⟩
    cases ht with
    | identifier => exact hidentifier
    | title => exact htitle
    | response hd => exact (hresponses _ hd).1
    | value hd hvalue => exact (hresponses _ hd).2 _ hvalue
    | content hcontent ht =>
      simp only [contents, List.mem_cons, Prod.mk.injEq, List.not_mem_nil, or_false] at hcontent
      rcases hcontent with ⟨-, rfl⟩ | ⟨-, rfl⟩ | ⟨-, rfl⟩
      · exact hbody t ht
      · exact hcorrect t ht
      · exact hincorrect t ht
  · rintro ⟨hlanguage, hshown⟩
    exact ⟨⟨hshown _ .identifier, hshown _ .title, hlanguage⟩,
      fun d hd => ⟨hshown _ (.response hd), fun value hvalue => hshown value (.value hd hvalue)⟩,
      fun t ht => hshown t (.content hfirst ht), fun t ht => hshown t (.content hsecond ht),
      fun t ht => hshown t (.content hthird ht)⟩

def titledItem (title text : Text) : AssessmentItem where
  identifier := "titled"
  title := title
  body := .nodes [.paragraph [.text text, .inlineSlot "t"]]
  responseDeclarations := [⟨"R", .single, .string, .scalar (.text "x")⟩]
  widgets := []
  interactions := [("t", .textEntry ⟨"R", none⟩)]
  feedback := ⟨.markup "<p>yes</p>", .markup "<p>no</p>"⟩

theorem legal_document_titled :
    let item := titledItem "1 < 2" "Pick \"yes\" & \"no\""
    Compiler.standard.renderer = Widget.placeholder ∧
      (∀ f ∈ Fragment.ofItem item, Legal f.content) ∧
      ∃ document, (Compiler.standard.compile item).result = .ok document ∧ Legal document := by
  intro item
  have hmarkup : ∀ f ∈ Fragment.ofItem item, Legal f.content := by decide +kernel
  have hcompile : (Compiler.standard.compile item).result.isOk = true := by decide +kernel
  obtain ⟨document, hdocument⟩ := exists_of_isOk hcompile
  obtain ⟨ws, slots, hprepare, -, hiff⟩ := legal_document_iff rfl hmarkup hdocument
  have hwidgets : ws = [] := (Except.ok.inj hprepare).symm
  have hresponses : ∀ d ∈ item.responseDeclarations,
      Legal d.identifier ∧ ∀ value ∈ d.values, Legal value := by decide
  have htexts : ∀ entry ∈ contents item, ∀ t ∈ texts entry.2, Legal t := by decide +kernel
  have hinteractions : ∀ entry ∈ item.interactions, ∀ t ∈ identifiers entry.2, Legal t := by decide
  refine ⟨rfl, hmarkup, document, hdocument, hiff.2 ⟨by decide, fun t ht => ?_⟩⟩
  cases ht with
  | identifier => decide
  | title => decide
  | response hd => exact (hresponses _ hd).1
  | value hd hvalue => exact (hresponses _ hd).2 _ hvalue
  | content hcontent ht =>
    cases ht with
    | text ht => exact htexts _ hcontent t ht
    | slot _ _ _ ht =>
      cases ht with
      | widget hw _ _ => exact absurd (hwidgets ▸ hw) List.not_mem_nil
      | interaction hi _ ht => exact hinteractions _ hi t ht

/-- A control character in a title comes into the document. -/
theorem illegal_document_control :
    let item := titledItem "\x01" "Q"
    Compiler.standard.renderer = Widget.placeholder ∧
      (∀ f ∈ Fragment.ofItem item, Legal f.content) ∧
      ∃ document, (Compiler.standard.compile item).result = .ok document ∧ ¬ Legal document := by
  intro item
  have hmarkup : ∀ f ∈ Fragment.ofItem item, Legal f.content := by decide +kernel
  have hcompile : (Compiler.standard.compile item).result.isOk = true := by decide +kernel
  obtain ⟨document, hdocument⟩ := exists_of_isOk hcompile
  refine ⟨rfl, hmarkup, document, hdocument, ?_⟩
  obtain ⟨r, rfl⟩ := compile_eq_ok.1 hdocument
  intro hlegal
  have htitle : Legal item.title := ((legal_compiled r).1 hlegal).1.2.1
  exact absurd htitle (by decide)

end AssessmentItems.LegalDocuments
