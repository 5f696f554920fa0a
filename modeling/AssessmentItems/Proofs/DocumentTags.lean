import AssessmentItems.Proofs.Compilation
import AssessmentItems.Proofs.RuleBounds
import AssessmentItems.Proofs.SlotContents
import AssessmentItems.Proofs.Substitution

/-!
Tags that look like slots, in whole documents. What a document adds to the texts that it shows
are its own tags and escaped texts, in which no slot opens. The texts themselves are searched
one by one, before they are put together. So such a tag stands in a document exactly if a text
ends inside one: the next tag of the document then ends it.
-/
namespace AssessmentItems.DocumentTags

open Text Scanning Slots Escaping Results Pieces Placeholders Tags Substitution RuleBounds
  SlotContents Compilation

/-- Whether no tag whose name begins with an s opens in a text, and none at its end. -/
def isInert : Text → Bool
  | [] => true
  | c :: t => (c ≠ '<' || t.head?.any fun d => fold d ≠ 's') && isInert t

def Inert (t : Text) : Prop := isInert t = true

instance (t : Text) : Decidable (Inert t) := inferInstanceAs (Decidable (isInert t = true))

theorem inert_nil : Inert [] := rfl

theorem inert_cons {c : Char} {t : Text} :
    Inert (c :: t) ↔ (c = '<' → ∃ d ∈ t.head?, fold d ≠ 's') ∧ Inert t := by
  simp [Inert, isInert, Option.any_eq_true, imp_iff_not_or]

theorem Inert.literal {s : String} {t : Text} (hs : s = String.ofList t) (ht : Inert t) :
    Inert s := by
  rwa [literal_eq hs]

theorem Inert.of_not_mem {t : Text} (h : '<' ∉ t) : Inert t := by
  induction t with
  | nil => exact inert_nil
  | cons c t ih =>
    rw [List.mem_cons, not_or] at h
    exact inert_cons.2 ⟨fun hc => absurd hc.symm h.1, ih h.2⟩

theorem Inert.append {a b : Text} (ha : Inert a) (hb : Inert b) : Inert (a ++ b) := by
  induction a with
  | nil => exact hb
  | cons c a ih =>
    obtain ⟨hopen, ha⟩ := inert_cons.1 ha
    refine inert_cons.2 ⟨fun hc => ?_, ih ha⟩
    obtain ⟨d, hd, hne⟩ := hopen hc
    exact ⟨d, head?_append_left hd b, hne⟩

theorem Inert.looseTag?_eq_none {c : Char} {t : Text} (h : Inert (c :: t)) (b : Text) :
    looseTag? (c :: (t ++ b)) = none := by
  refine Option.eq_none_iff_forall_ne_some.2 fun tag htag => ?_
  obtain ⟨rest, hrest, -⟩ := tag?_eq_some.1 htag
  obtain ⟨d, hd, hne⟩ := (inert_cons.1 h).1 (eq_open_of_afterFolded? hrest)
  obtain ⟨t, rfl⟩ := List.head?_eq_some_iff.1 hd
  change (if '<' = fold c then if 's' = fold d then afterFolded? "lot" (t ++ b) else none
    else none) = some rest at hrest
  split_ifs at hrest with _ hs
  exact hne hs.symm

/-- No slot begins in such a text, whatever follows. -/
theorem Inert.nowhere_append {a : Text} (ha : Inert a) (b : Text) :
    Nowhere (fun s => (looseTag? s).isSome) (a ++ b) ↔
      Nowhere (fun s => (looseTag? s).isSome) b := by
  induction a with
  | nil => rfl
  | cons c a ih =>
    rw [List.cons_append, nowhere_cons, ih (inert_cons.1 ha).2, ha.looseTag?_eq_none]
    exact and_iff_right rfl

theorem Inert.flatMap {α : Type} {f : α → Text} {as : List α} (h : ∀ a ∈ as, Inert (f a)) :
    Inert (as.flatMap f) := by
  induction as with
  | nil => exact .of_not_mem List.not_mem_nil
  | cons a as ih =>
    rw [List.forall_mem_cons] at h
    exact h.1.append (ih h.2)

theorem Inert.lines {parts : List Text} (h : ∀ part ∈ parts, Inert part) :
    Inert (lines parts) := by
  cases parts with
  | nil => exact .of_not_mem List.not_mem_nil
  | cons part rest =>
    rw [List.forall_mem_cons] at h
    rw [lines_cons]
    refine h.1.append (.flatMap fun part hpart => ?_)
    have hbreak : Inert ['\n'] := by decide
    exact hbreak.append (h.2 part hpart)

theorem Inert.groupedLines {groups : List (List Text)}
    (h : ∀ group ∈ groups, ∀ line ∈ group, Inert line) : Inert (groupedLines groups) :=
  .lines fun line hline => by
    obtain ⟨group, hgroup, hline⟩ := List.mem_flatten.1 hline
    exact h group hgroup line hline

theorem inert_escapeText (t : Text) : Inert (escapeText t) := .of_not_mem (not_mem_escapeText t)

theorem inert_escapeAttribute (t : Text) : Inert (escapeAttribute t) :=
  .of_not_mem (not_mem_escapeAttribute t)

theorem inert_declaration (d : ResponseDeclaration) : Inert (Scoring.declarationMarkup d) := by
  have hcardinality : Inert d.cardinality.name := by cases d.cardinality <;> decide
  have htype : Inert d.baseType.name := by cases d.baseType <;> decide
  have hopen : Inert ("<qti-response-declaration identifier=\"" ++ escapeAttribute d.identifier ++
      "\" cardinality=\"" ++ d.cardinality.name ++ "\" base-type=\"" ++ d.baseType.name ++
      "\">" : Text) := by
    refine Inert.append (Inert.append (Inert.append (Inert.append (Inert.append (Inert.append
      ?_ (inert_escapeAttribute _)) ?_) hcardinality) ?_) htype) ?_
    all_goals exact .literal rfl (by decide)
  have hvalue : ∀ value, Inert (Scoring.valueLine value) := by
    intro value
    refine Inert.append (Inert.append ?_ (inert_escapeText value)) ?_
    all_goals exact .literal rfl (by decide)
  refine .groupedLines ?_
  simp only [List.forall_mem_cons, List.forall_mem_map]
  refine ⟨⟨hopen, ?_, nofun⟩, fun value _ => hvalue value, ⟨?_, ?_, nofun⟩, nofun⟩
  all_goals exact .literal rfl (by decide)

theorem inert_declarations (ds : List ResponseDeclaration) :
    Inert (Scoring.declarationsMarkup ds) := by
  refine .lines fun part hpart => ?_
  obtain ⟨d, -, rfl⟩ := List.mem_map.1 hpart
  exact inert_declaration d

theorem inert_variable (identifier : Text) : Inert (Scoring.variableMarkup identifier) := by
  refine Inert.append (Inert.append ?_ (inert_escapeAttribute identifier)) ?_
  all_goals exact .literal rfl (by decide)

theorem inert_comparison (d : ResponseDeclaration) :
    ∀ line ∈ Scoring.comparisonLines d, Inert line := by
  have hopen : Inert ("        <" ++ Scoring.operator d.cardinality ++ ">" : Text) := by
    cases d.cardinality <;> decide
  have hclose : Inert ("        </" ++ Scoring.operator d.cardinality ++ ">" : Text) := by
    cases d.cardinality <;> decide
  have hcorrect : Inert ("          <qti-correct identifier=\"" ++ escapeAttribute d.identifier ++
      "\"/>" : Text) := by
    refine Inert.append (Inert.append ?_ (inert_escapeAttribute _)) ?_
    all_goals exact .literal rfl (by decide)
  simp only [Scoring.comparisonLines, List.forall_mem_cons]
  refine ⟨hopen, Inert.append ?_ (inert_variable _), hcorrect, hclose, nofun⟩
  exact .literal rfl (by decide)

theorem inert_selectors (ds : List ResponseDeclaration) :
    ∀ line ∈ Scoring.selectorLines ds, Inert line := by
  have hopen : Inert ("  <qti-set-outcome-value identifier=\"" ++ Interaction.feedbackInline ++
      "\">" : Text) := by
    refine Inert.append (Inert.append ?_ ?_) ?_
    all_goals exact .literal rfl (by decide)
  unfold Scoring.selectorLines
  split_ifs
  · nofun
  · simp only [List.flatten_cons, List.flatten_nil, List.forall_mem_append, List.forall_mem_cons,
      List.forall_mem_map]
    refine ⟨⟨hopen, ?_, nofun⟩, fun d _ => Inert.append ?_ (inert_variable _),
      ⟨?_, ?_, nofun⟩, nofun⟩
    all_goals exact .literal rfl (by decide)

theorem inert_outcomes {points selected : Text} (hpoints : Inert points)
    (hselected : Inert selected) : ∀ line ∈ Scoring.outcomeLines points selected, Inert line := by
  have hline : ∀ outcome type value, Inert outcome → Inert type → Inert value →
      Inert (Scoring.outcomeLine outcome type value) := by
    intro outcome type value houtcome htype hvalue
    refine Inert.append (Inert.append (Inert.append (Inert.append (Inert.append (Inert.append
      ?_ houtcome) ?_) htype) ?_) hvalue) ?_
    all_goals exact .literal rfl (by decide)
  rw [Scoring.outcomeLines, List.forall_mem_cons, List.forall_mem_singleton]
  exact ⟨hline _ _ _ (.literal rfl (by decide)) (.literal rfl (by decide)) hpoints,
    hline _ _ _ (.literal rfl (by decide)) (.literal rfl (by decide)) hselected⟩

theorem inert_processing (ds : List ResponseDeclaration) (inlineFeedback : List Text) :
    Inert (Scoring.processingMarkup ds inlineFeedback) := by
  have hcomparisons : ∀ line ∈ ds.flatMap Scoring.comparisonLines, Inert line := by
    intro line hline
    obtain ⟨d, -, hline⟩ := List.mem_flatMap.1 hline
    exact inert_comparison d line hline
  have hcorrect : ∀ line ∈ Scoring.outcomeLines "1" "CORRECT", Inert line :=
    inert_outcomes (by decide) (by decide)
  have hincorrect : ∀ line ∈ Scoring.outcomeLines "0" "INCORRECT", Inert line :=
    inert_outcomes (by decide) (by decide)
  refine .groupedLines ?_
  simp only [List.forall_mem_cons]
  refine ⟨⟨?_, nofun⟩, inert_selectors _, ⟨?_, ?_, ?_, nofun⟩, hcomparisons, ⟨?_, nofun⟩, hcorrect,
    ⟨?_, ?_, nofun⟩, hincorrect, ⟨?_, ?_, ?_, nofun⟩, nofun⟩
  all_goals exact .literal rfl (by decide)

theorem inert_rootTag (d : Document) : Inert d.rootTag := by
  have htime : Inert (Text.ofBool d.configuration.timeDependent) := by
    cases d.configuration.timeDependent <;> decide
  have hspaces : Inert ("<qti-assessment-item xmlns=\"" ++ Document.itemNamespace ++
      "\" xmlns:xsi=\"" ++ Document.instanceNamespace ++ "\" xsi:schemaLocation=\"" ++
      Document.itemNamespace ++ " " ++ Document.schemaLocation ++ "\" identifier=\"" : Text) := by
    refine Inert.append (Inert.append (Inert.append (Inert.append (Inert.append (Inert.append
      (Inert.append (Inert.append ?_ ?_) ?_) ?_) ?_) ?_) ?_) ?_) ?_
    all_goals exact .literal rfl (by decide)
  refine Inert.append (Inert.append (Inert.append (Inert.append (Inert.append (Inert.append
    (Inert.append (Inert.append hspaces (inert_escapeAttribute _)) ?_) (inert_escapeAttribute _))
    ?_) htime) ?_) (inert_escapeAttribute _)) ?_
  all_goals exact .literal rfl (by decide)

theorem inert_outcomeTag {outcome cardinality type : Text} (houtcome : Inert outcome)
    (hcardinality : Inert cardinality) (htype : Inert type) :
    Inert (Document.outcomeTag outcome cardinality type) := by
  refine Inert.append (Inert.append (Inert.append (Inert.append (Inert.append (Inert.append
    ?_ houtcome) ?_) hcardinality) ?_) htype) ?_
  all_goals exact .literal rfl (by decide)

def blockStart (identifier : Text) : Text :=
  "<qti-feedback-block outcome-identifier=\"" ++ Scoring.feedback ++ "\" identifier=\"" ++
    identifier ++ "\" show-hide=\"show\"><qti-content-body>"

def front (d : Document) : List Text :=
  ["<?xml version=\"1.0\" encoding=\"UTF-8\"?>", d.rootTag, d.declarations,
    Document.outcomeTag Scoring.score "single" "float" ++
      "><qti-default-value><qti-value>0</qti-value></qti-default-value></qti-outcome-declaration>",
    Document.outcomeTag Scoring.feedback "single" "identifier" ++ "/>",
    Document.outcomeTag Interaction.feedbackInline "multiple" "identifier" ++ "/>",
    "<qti-item-body>"]

def blockEnd : Text := "</qti-content-body></qti-feedback-block>"

def back (d : Document) : List Text := ["</qti-item-body>", d.processing, "</qti-assessment-item>"]

/-- A document, cut where the texts that it shows begin and end. -/
theorem text_eq (d : Document) :
    d.text = (lines (front d) ++ ['\n']) ++ (d.body ++ '\n' :: (blockStart "CORRECT" ++
      (d.correct ++ (blockEnd ++ (('\n' :: blockStart "INCORRECT") ++
        (d.incorrect ++ (blockEnd ++ (back d).flatMap ('\n' :: ·)))))))) := by
  have hlines : d.text = lines (front d ++ ([d.body, blockStart "CORRECT" ++ d.correct ++ blockEnd,
      blockStart "INCORRECT" ++ d.incorrect ++ blockEnd] ++ back d)) := rfl
  have hfront : front d ≠ [] := List.cons_ne_nil _ _
  rw [hlines, lines_append hfront]
  simp only [List.flatMap_cons, List.append_assoc, List.cons_append, List.nil_append]

/-- Nothing that looks like a slot stands in a text, and none is left open at its end. -/
def Clear (t : Text) : Prop := looseTags t = [] ∧ ¬ EndsInside "<slot" t

/-- What is left open at the end of a text is closed by the next tag. -/
theorem nowhere_append_cons {c : Char} (hname : c ∉ ("slot" : Text)) (hfold : fold c = c)
    (hword : isWord c = false) {b : Text} (hb : '>' ∈ b) (t : Text) :
    Nowhere (fun s => (looseTag? s).isSome) (t ++ c :: b) ↔
      Clear t ∧ Nowhere (fun s => (looseTag? s).isSome) (c :: b) := by
  rw [Clear, looseTags_eq_nil, and_comm (b := ¬ _), and_assoc]
  exact nowhere_tag_append hname hfold hword hb

theorem nowhere_feedback {b : Text} (t : Text) :
    Nowhere (fun s => (looseTag? s).isSome) (t ++ (blockEnd ++ b)) ↔
      Clear t ∧ Nowhere (fun s => (looseTag? s).isSome) b := by
  have hend : Inert blockEnd := .literal rfl (by decide)
  rw [← hend.nowhere_append b]
  have hclose : '>' ∈ ("/qti-content-body></qti-feedback-block>" : Text) ++ b :=
    List.mem_append_left _ (by decide)
  exact nowhere_append_cons (by decide) fold_open (by decide) hclose t

theorem looseTags_text_eq_nil {d : Document} (hdeclarations : Inert d.declarations)
    (hprocessing : Inert d.processing) :
    looseTags d.text = [] ↔ Clear d.body ∧ Clear d.correct ∧ Clear d.incorrect := by
  have hbreak : Inert ['\n'] := by decide
  have hscore : Inert (Document.outcomeTag Scoring.score "single" "float") :=
    inert_outcomeTag (by decide) (by decide) (by decide)
  have hfeedback : Inert (Document.outcomeTag Scoring.feedback "single" "identifier") :=
    inert_outcomeTag (by decide) (by decide) (by decide)
  have hinline : Inert (Document.outcomeTag Interaction.feedbackInline "multiple" "identifier") :=
    inert_outcomeTag (by decide) (by decide) (by decide)
  have hfront : Inert (lines (front d) ++ ['\n']) := by
    refine Inert.append (.lines ?_) hbreak
    simp only [front, List.forall_mem_cons, List.not_mem_nil, false_implies, implies_true, and_true]
    refine ⟨?_, inert_rootTag d, hdeclarations, hscore.append ?_, hfeedback.append ?_,
      hinline.append ?_, ?_⟩
    all_goals exact .literal rfl (by decide)
  have hback : Inert ((back d).flatMap ('\n' :: ·)) := by
    refine .flatMap fun line hline => hbreak.append ?_
    revert line
    simp only [back, List.forall_mem_cons, List.not_mem_nil, false_implies, implies_true, and_true]
    exact ⟨.literal rfl (by decide), hprocessing, .literal rfl (by decide)⟩
  have hstart : ∀ identifier, Inert identifier → Inert ('\n' :: blockStart identifier) := by
    intro identifier hidentifier
    refine hbreak.append (Inert.append (Inert.append (Inert.append (Inert.append ?_ ?_) ?_)
      hidentifier) ?_)
    all_goals exact .literal rfl (by decide)
  have hcorrect := hstart "CORRECT" (by decide)
  have hincorrect := hstart "INCORRECT" (by decide)
  have hnil := (hback.nowhere_append []).2 (nowhere_nil _)
  rw [List.append_nil] at hnil
  have hbody : ∀ b : Text, '>' ∈ blockStart "CORRECT" ++ b := fun b =>
    List.mem_append_left _ (by decide)
  rw [looseTags_eq_nil, text_eq, hfront.nowhere_append,
    nowhere_append_cons (by decide) (by decide) (by decide) (hbody _), ← List.cons_append,
    hcorrect.nowhere_append, nowhere_feedback, hincorrect.nowhere_append, nowhere_feedback]
  rw [and_iff_left hnil]

/-- A document that is compiled holds a tag that looks like a slot exactly if a text that it
shows, with its slots filled, ends inside such a tag. -/
theorem looseTags_document {c : Compiler} {item : AssessmentItem} {document : Text}
    (h : (c.compile item).result = .ok document) :
    ∃ r : Compiled c item, document = r.document.text ∧
      (looseTags document = [] ↔ ∀ t ∈ r.shown, ¬ EndsInside "<slot" t) := by
  obtain ⟨r, rfl⟩ := compile_eq_ok.1 h
  have hleft : ∀ path content t, Compiler.resolveContent r.slots path content = .ok t →
      looseTags t = [] := by
    intro path content t ht
    obtain ⟨_, -, hresolve⟩ := resolveContent_eq_ok.1 ht
    rw [looseTags_eq_nil, ← leftover_eq_nil]
    exact (resolve_eq_ok.1 hresolve).2
  have hclear : ∀ path content t, Compiler.resolveContent r.slots path content = .ok t →
      (Clear t ↔ ¬ EndsInside "<slot" t) :=
    fun path content t ht => and_iff_right (hleft path content t ht)
  refine ⟨r, rfl, ?_⟩
  rw [looseTags_text_eq_nil (inert_declarations _) (inert_processing _ _)]
  simp only [Compiled.shown, List.forall_mem_cons, List.not_mem_nil, false_implies, implies_true,
    and_true]
  exact and_congr (hclear _ _ _ r.body_resolved)
    (and_congr (hclear _ _ _ r.correct_resolved) (hclear _ _ _ r.incorrect_resolved))

def entryItem (body : Text) : AssessmentItem where
  identifier := "entry"
  title := "Entry"
  body := .markup body
  responseDeclarations := [⟨"R", .single, .string, .scalar (.text "x")⟩]
  widgets := []
  interactions := [("t", .textEntry ⟨"R", none⟩)]
  feedback := ⟨.markup "<p>yes</p>", .markup "<p>no</p>"⟩

theorem looseTags_document_entry :
    ∃ document,
      (Compiler.standard.compile (entryItem ("<p>" ++ placeholder "t" ++ "</p>"))).result =
        .ok document ∧
      ∃ r : Compiled Compiler.standard (entryItem ("<p>" ++ placeholder "t" ++ "</p>")),
        document = r.document.text ∧
          (looseTags document = [] ↔ ∀ t ∈ r.shown, ¬ EndsInside "<slot" t) := by
  have hcompile : (Compiler.standard.compile
      (entryItem ("<p>" ++ placeholder "t" ++ "</p>"))).result.isOk = true := by decide +kernel
  obtain ⟨document, hdocument⟩ := exists_of_isOk hcompile
  exact ⟨document, hdocument, looseTags_document hdocument⟩

/-- A slot that the body leaves open is closed by the tag of the feedback. -/
theorem looseTags_open_slot :
    ∃ document, (Compiler.standard.compile (entryItem "<p>Q</p><slot name=\"t\"")).result =
        .ok document ∧ looseTags document ≠ [] := by
  let body : Text := "<p>Q</p><slot name=\"t\""
  have hcompile : (Compiler.standard.compile (entryItem body)).result.isOk = true := by
    decide +kernel
  obtain ⟨document, hdocument⟩ := exists_of_isOk hcompile
  obtain ⟨r, rfl⟩ := compile_eq_ok.1 hdocument
  refine ⟨_, hdocument, fun hempty => ?_⟩
  have hclear := ((looseTags_text_eq_nil (d := r.document) (inert_declarations _)
    (inert_processing _ _)).1 hempty).1
  obtain ⟨t, ht, hresolve⟩ := resolveContent_eq_ok.1 r.body_resolved
  obtain rfl := Except.ok.inj ht
  have hbody : r.body = body :=
    (substitute_literal (by decide +kernel)).1 (resolve_eq_ok.1 hresolve).1
  refine hclear.2 ?_
  change EndsInside "<slot" r.body
  rw [hbody]
  exact ⟨"<slot name=\"t\"", ⟨"<p>Q</p>", rfl⟩, " name=\"t\"", rfl, by decide, by decide⟩

end AssessmentItems.DocumentTags
