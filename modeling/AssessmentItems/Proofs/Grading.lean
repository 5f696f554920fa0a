import AssessmentItems.Proofs.ResponseProcessing
import AssessmentItems.Proofs.SlotTables
import AssessmentItems.Scoring

/-!
Grading by what a document says about responses. The declarations are read back as lists of
accepted values and the processing as a rule on them, whatever characters identifiers and values
have. So the responses are graded as correct exactly if each is accepted by its declaration.
-/
namespace AssessmentItems.Grading

open Text Escaping Scoring Pieces Elements ResponseProcessing SlotContents SlotTables Tables

def indent (k : ℕ) : Text := List.replicate k ' '

def plain (name : Text) : Tag := ⟨name, []⟩

def below (ls : List Text) : Text := ls.flatMap ('\n' :: ·)

def gap (k : ℕ) : Text := '\n' :: indent k

theorem not_mem_gap (k : ℕ) : '<' ∉ gap k := by
  simp [gap, indent]

theorem isName_literal {s : String} {t : Text} (hs : s = String.ofList t) (ht : IsName t) :
    IsName s := by
  rwa [literal_eq hs]

section

variable {s e n a : String} {t u : Text}

theorem startLine_eq (k : ℕ) (hn : n = String.ofList t)
    (hs : s = String.ofList (indent k ++ '<' :: (t ++ ['>']))) :
    (s : Text) = indent k ++ startTag (plain n) := by
  rw [literal_eq hs, startTag, openText, plain, literal_eq hn, List.flatMap_nil, List.append_nil,
    List.cons_append]

theorem endLine_eq (k : ℕ) (hn : n = String.ofList t)
    (he : e = String.ofList (indent k ++ '<' :: '/' :: (t ++ ['>']))) :
    (e : Text) = indent k ++ endTag n := by
  rw [literal_eq he, endTag, literal_eq hn]

/-- A line with an element that holds a text. -/
theorem elementLine_eq (k : ℕ) (inner : Text) (hn : n = String.ofList t)
    (hs : s = String.ofList (indent k ++ '<' :: (t ++ ['>'])))
    (he : e = String.ofList ('<' :: '/' :: (t ++ ['>']))) :
    (s : Text) ++ inner ++ e = indent k ++ (startTag (plain n) ++ inner ++ endTag n) := by
  rw [startLine_eq k hn hs, endLine_eq 0 hn he]
  simp only [indent, List.replicate_zero, List.nil_append, List.append_assoc]

/-- A line up to the value of the only attribute of its tag. -/
theorem keyLine_eq (k : ℕ) (value rest : Text) (hn : n = String.ofList t) (ha : a = String.ofList u)
    (hs : s = String.ofList (indent k ++ '<' :: (t ++ ' ' :: (u ++ ['=', '"'])))) :
    (s : Text) ++ escapeAttribute value ++ '"' :: rest =
      indent k ++ (openText ⟨n, [((a : Text), value)]⟩ ++ rest) := by
  rw [literal_eq hs, openText, List.flatMap_singleton, attributeText, literal_eq hn, literal_eq ha]
  simp only [List.append_assoc, List.cons_append, List.nil_append]

end

/-- Lines from a start tag to its end tag. -/
theorem below_block {first last : Text} {tag : Tag} {k : ℕ}
    (hfirst : first = indent k ++ startTag tag) (hlast : last = indent k ++ endTag tag.name)
    (inner : List Text) :
    below (first :: (inner ++ [last])) =
      gap k ++ (startTag tag ++ (below inner ++ gap k) ++ endTag tag.name) := by
  rw [hfirst, hlast]
  simp only [below, gap, List.flatMap_cons, List.flatMap_append, List.flatMap_nil,
    List.append_nil, List.append_assoc, List.cons_append]

theorem lines_block {first last : Text} {tag : Tag} (hfirst : first = startTag tag)
    (hlast : last = endTag tag.name) (inner : List Text) :
    lines (first :: (inner ++ [last])) =
      startTag tag ++ (below inner ++ gap 0) ++ endTag tag.name := by
  rw [lines_cons, hfirst, hlast]
  simp only [below, gap, indent, List.replicate_zero, List.flatMap_append, List.flatMap_cons,
    List.flatMap_nil, List.append_nil, List.append_assoc, List.cons_append, List.nil_append]

theorem flatten_block (first second third last : Text) (inner : List Text) :
    List.flatten [[first, second], inner, [third, last]] =
      first :: ((second :: (inner ++ [third])) ++ [last]) := by
  simp

def declarationTag (d : ResponseDeclaration) : Tag :=
  ⟨"qti-response-declaration", [("identifier", d.identifier), ("cardinality", d.cardinality.name),
    ("base-type", d.baseType.name)]⟩

theorem wellNamed_declarationTag (d : ResponseDeclaration) : (declarationTag d).WellNamed where
  name := isName_literal rfl (by decide)
  keys := by
    refine List.forall_mem_cons.2 ⟨?_, List.forall_mem_cons.2 ⟨?_, List.forall_mem_singleton.2 ?_⟩⟩
    all_goals exact isName_literal rfl (by decide)

/-- A line with a tag that has three attributes. -/
theorem attributesLine_eq {s r q e n a b c : String} {t u v w : Text} (x y z : Text)
    (hn : n = String.ofList t) (ha : a = String.ofList u) (hb : b = String.ofList v)
    (hc : c = String.ofList w) (hs : s = String.ofList ('<' :: (t ++ ' ' :: (u ++ ['=', '"']))))
    (hr : r = String.ofList ('"' :: ' ' :: (v ++ ['=', '"'])))
    (hq : q = String.ofList ('"' :: ' ' :: (w ++ ['=', '"']))) (he : e = String.ofList ['"', '>']) :
    (s : Text) ++ escapeAttribute x ++ r ++ escapeAttribute y ++ q ++ escapeAttribute z ++ e =
      startTag ⟨n, [((a : Text), x), ((b : Text), y), ((c : Text), z)]⟩ := by
  rw [literal_eq hs, literal_eq hr, literal_eq hq, literal_eq he, startTag, openText,
    literal_eq hn, literal_eq ha, literal_eq hb, literal_eq hc]
  simp only [List.flatMap_cons, List.flatMap_nil, attributeText, List.append_assoc,
    List.cons_append, List.nil_append]

theorem declarationTag_eq (d : ResponseDeclaration) :
    ("<qti-response-declaration identifier=\"" ++ escapeAttribute d.identifier ++
      "\" cardinality=\"" ++ d.cardinality.name ++ "\" base-type=\"" ++ d.baseType.name ++
      "\">" : Text) = startTag (declarationTag d) := by
  have hcardinality : escapeAttribute d.cardinality.name = d.cardinality.name := by
    cases d.cardinality <;> decide
  have htype : escapeAttribute d.baseType.name = d.baseType.name := by
    cases d.baseType <;> decide
  rw [← hcardinality, ← htype]
  exact attributesLine_eq d.identifier d.cardinality.name d.baseType.name rfl rfl rfl rfl rfl rfl
    rfl rfl

theorem valueLine_eq (value : Text) :
    valueLine value = indent 4 ++ (startTag (plain "qti-value") ++ escapeText value ++
      endTag "qti-value") := by
  unfold valueLine
  exact elementLine_eq 4 (escapeText value) rfl rfl rfl

theorem wellNamed_plain {s : String} {t : Text} (hs : s = String.ofList t) (ht : IsName t) :
    (plain s).WellNamed where
  name := isName_literal hs ht
  keys := nofun

def valueTrees (value : Text) : List Tree :=
  (gap 4).map .character ++ [.element (plain "qti-value") ((escapeText value).map .character)]

theorem reads_values (values : List Text) :
    Reads (below (values.map valueLine)) (values.flatMap valueTrees) := by
  rw [below, List.flatMap_map]
  refine .flatMap fun value _ => ?_
  have hname : (plain "qti-value").WellNamed := wellNamed_plain rfl (by decide)
  rw [valueLine_eq, ← List.cons_append]
  exact (reads_characters (not_mem_gap 4)).append
    ((reads_characters (not_mem_escapeText value)).element hname)

theorem named_values (values : List Text) :
    (named "qti-value" (values.flatMap valueTrees)).map (fun entry => innerText entry.2) =
      values := by
  induction values with
  | nil => rfl
  | cons value values ih =>
    have helement := named_element (plain "qti-value") ((escapeText value).map .character)
    rw [List.flatMap_cons, named_append, List.map_append, ih, valueTrees, named_append,
      named_characters]
    change (named (plain "qti-value").name _).map _ ++ values = _
    rw [helement, List.map_singleton, innerText_characters, unescape_escapeText]
    rfl

/-- A declaration is read as an element that lists the accepted values. -/
theorem reads_declaration (d : ResponseDeclaration) :
    ∃ content, Reads (declarationMarkup d) [.element (declarationTag d) content] ∧
      listed content = accepted d := by
  let tag := plain "qti-correct-response"
  have hname : tag.WellNamed := wellNamed_plain rfl (by decide)
  have hopen : ("  <qti-correct-response>" : Text) = indent 2 ++ startTag tag :=
    startLine_eq 2 rfl rfl
  have hclose : ("  </qti-correct-response>" : Text) = indent 2 ++ endTag tag.name :=
    endLine_eq 2 rfl rfl
  have hend : ("</qti-response-declaration>" : Text) = endTag (declarationTag d).name :=
    endLine_eq 0 rfl rfl
  have hvalues := below_block hopen hclose ((accepted d).map valueLine)
  have hmarkup := lines_block (declarationTag_eq d) hend
    ("  <qti-correct-response>" :: ((accepted d).map valueLine ++
      [("  </qti-correct-response>" : Text)]))
  rw [hvalues, ← flatten_block] at hmarkup
  let inner : List Tree := (accepted d).flatMap valueTrees ++ (gap 2).map .character
  have hinner : Reads (below ((accepted d).map valueLine) ++ gap 2) inner :=
    (reads_values _).append (reads_characters (not_mem_gap 2))
  refine ⟨(gap 2).map .character ++ [.element tag inner] ++ (gap 0).map .character, ?_, ?_⟩
  · rw [declarationMarkup, groupedLines, hmarkup]
    exact (((reads_characters (not_mem_gap 2)).append (hinner.element hname)).append
      (reads_characters (not_mem_gap 0))).element (wellNamed_declarationTag d)
  · have hcorrect : named "qti-correct-response" [.element tag inner] = [(tag, inner)] :=
      named_element tag inner
    have hlisted : (named "qti-value" inner).map (fun entry => innerText entry.2) = accepted d := by
      rw [named_append, named_characters, List.append_nil, named_values]
    simp only [listed, named_append, named_characters, hcorrect, List.nil_append, List.append_nil,
      List.flatMap_singleton]
    exact hlisted

/-- The declarations are read one after another. -/
theorem reads_declarations {content : ResponseDeclaration → List Tree}
    (hcontent : ∀ d, Reads (declarationMarkup d) [.element (declarationTag d) (content d)])
    (ds : List ResponseDeclaration) :
    ∃ trees, Reads (declarationsMarkup ds) trees ∧
      named "qti-response-declaration" trees = ds.map fun d => (declarationTag d, content d) := by
  have hnamed : ∀ d, named "qti-response-declaration"
      [.element (declarationTag d) (content d)] = [(declarationTag d, content d)] :=
    fun d => named_element (declarationTag d) (content d)
  cases ds with
  | nil => exact ⟨[], reads_nil, rfl⟩
  | cons d ds =>
    let next : ResponseDeclaration → List Tree := fun d =>
      (gap 0).map .character ++ [.element (declarationTag d) (content d)]
    refine ⟨[.element (declarationTag d) (content d)] ++ ds.flatMap next, ?_, ?_⟩
    · rw [declarationsMarkup, List.map_cons, lines_cons, List.flatMap_map]
      exact (hcontent d).append (.flatMap fun d _ =>
        (reads_characters (not_mem_gap 0)).append (hcontent d))
    · rw [named_append, hnamed, List.map_cons, List.singleton_append]
      congr 1
      induction ds with
      | nil => rfl
      | cons d ds ih =>
        rw [List.flatMap_cons, named_append, named_append, named_characters, hnamed, ih]
        rfl

theorem find?_identifier {ds : List ResponseDeclaration} {d : ResponseDeclaration}
    (hunique : (ds.map ResponseDeclaration.identifier).Nodup) (hd : d ∈ ds) :
    ds.find? (fun e => e.identifier = d.identifier) = some d := by
  induction ds with
  | nil => simp at hd
  | cons e ds ih =>
    obtain ⟨he, hunique⟩ := List.nodup_cons.1 hunique
    rcases List.mem_cons.1 hd with rfl | hd
    · simp
    · have hne : e.identifier ≠ d.identifier := by
        intro heq
        exact he (heq ▸ List.mem_map_of_mem hd)
      rw [List.find?_cons_of_neg (by simpa using hne), ih hunique hd]

/-- The declarations, as they are read back, list the accepted values of each response. -/
theorem declared_declarations {ds : List ResponseDeclaration}
    (hunique : (ds.map ResponseDeclaration.identifier).Nodup) :
    ∃ trees, read? (declarationsMarkup ds) = some trees ∧
      ∀ d ∈ ds, declared? trees d.identifier = some (accepted d) := by
  choose content hcontent hlisted using reads_declaration
  obtain ⟨trees, htrees, hnamed⟩ := reads_declarations hcontent ds
  refine ⟨trees, htrees.read?, fun d hd => ?_⟩
  have hidentifier : ∀ e, (declarationTag e).attribute? "identifier" = some e.identifier :=
    fun _ => attribute?_first _ _ _ _
  simp only [declared?, hnamed, List.find?_map, Function.comp_def, hidentifier, Option.some.injEq,
    find?_identifier hunique hd, Option.map_some, hlisted]

/-- Whether a response is what a declaration asks for: the declared sequence, or one value that
is accepted. -/
def IsRight (d : ResponseDeclaration) (response : List Text) : Prop :=
  if d.cardinality = .ordered then response = d.values
  else ∃ value ∈ accepted d, response = [value]

instance (d : ResponseDeclaration) (response : List Text) : Decidable (IsRight d response) :=
  inferInstanceAs (Decidable (if d.cardinality = .ordered then response = d.values
    else ∃ value ∈ accepted d, response = [value]))

section

variable {env : Environment}

theorem below_append (a b : List Text) : below (a ++ b) = below a ++ below b :=
  List.flatMap_append

theorem Means.line {k : ℕ} {t : Text} {ms : List Meaning} (h : Means env t ms) :
    Means env (below [indent k ++ t]) ms := by
  rw [below, List.flatMap_singleton, ← List.cons_append]
  exact (means_characters (not_mem_gap k)).append h

/-- Lines from a start tag to its end tag mean what the operation makes of those between. -/
theorem means_block {operation : Operation} {attributes : Table Text}
    (hkeys : ∀ entry ∈ attributes, IsName entry.1) {first last : Text} {k : ℕ}
    (hfirst : first = indent k ++ startTag ⟨operation.name, attributes⟩)
    (hlast : last = indent k ++ endTag operation.name) {inner : List Text} {parts : List Meaning}
    {meaning : Meaning} (hinner : Means env (below inner) parts)
    (hmeaning : ∀ text, operation.apply env ⟨operation.name, attributes⟩ text parts =
      some meaning) :
    Means env (below (first :: (inner ++ [last]))) [meaning] := by
  rw [below_block hfirst hlast]
  obtain ⟨trees, htrees, hparts⟩ := hinner
  have hcharacters := evaluate_characters env (gap k)
  have hall := evaluate_append hparts hcharacters
  rw [List.append_nil] at hall
  exact (means_characters (not_mem_gap k)).append (means_element hkeys
    (htrees.append (reads_characters (not_mem_gap k))) hall (hmeaning _))

theorem isName_nil : ∀ entry ∈ ([] : Table Text), IsName entry.1 := nofun

theorem isName_identifier (identifier : Text) :
    ∀ entry ∈ [(("identifier" : Text), identifier)], IsName entry.1 :=
  List.forall_mem_singleton.2 (isName_literal rfl (by decide))

theorem emptyTag_eq {s e n a : String} {t u : Text} (value : Text) (hn : n = String.ofList t)
    (ha : a = String.ofList u)
    (hs : s = String.ofList ('<' :: (t ++ ' ' :: (u ++ ['=', '"']))))
    (he : e = String.ofList ['"', '/', '>']) :
    (s : Text) ++ escapeAttribute value ++ e = emptyTag ⟨n, [((a : Text), value)]⟩ := by
  rw [literal_eq he]
  exact keyLine_eq 0 value ['/', '>'] hn ha hs

theorem variableMarkup_eq (identifier : Text) : variableMarkup identifier =
    emptyTag ⟨Operation.responseVariable.name, [("identifier", identifier)]⟩ := by
  unfold variableMarkup
  exact emptyTag_eq identifier rfl rfl rfl rfl

theorem means_variable (identifier : Text) :
    Means env (variableMarkup identifier) [.texts (env.given identifier)] := by
  rw [variableMarkup_eq]
  refine means_emptyTag (isName_identifier identifier) ?_
  simp only [Operation.apply, attribute?_first, Option.bind_eq_bind, Option.bind_some]

def comparison : Cardinality → Operation
  | .ordered => .matching
  | .single | .multiple => .membership

theorem operator_eq (cardinality : Cardinality) :
    operator cardinality = (comparison cardinality).name := by
  cases cardinality <;> rfl

theorem bracketLine_eq {s e : String} (k : ℕ) (name : Text)
    (hs : s = String.ofList (indent k ++ ['<'])) (he : e = String.ofList ['>']) :
    (s : Text) ++ name ++ e = indent k ++ startTag ⟨name, []⟩ := by
  rw [literal_eq hs, literal_eq he, startTag, openText, List.flatMap_nil, List.append_nil]
  simp only [List.append_assoc, List.cons_append, List.nil_append]

theorem closeLine_eq {s e : String} (k : ℕ) (name : Text)
    (hs : s = String.ofList (indent k ++ ['<', '/'])) (he : e = String.ofList ['>']) :
    (s : Text) ++ name ++ e = indent k ++ endTag name := by
  rw [literal_eq hs, literal_eq he, endTag]
  simp only [List.append_assoc, List.cons_append, List.nil_append]

theorem correctLine_eq (identifier : Text) :
    ("          <qti-correct identifier=\"" ++ escapeAttribute identifier ++ "\"/>" : Text) =
      indent 10 ++ emptyTag ⟨Operation.correctValues.name, [("identifier", identifier)]⟩ := by
  have hend : ("\"/>" : Text) = '"' :: ['/', '>'] := literal_eq rfl
  rw [hend]
  exact keyLine_eq 10 identifier ['/', '>'] rfl rfl rfl

/-- What a comparison makes of a response and the accepted values. -/
theorem apply_comparison (d : ResponseDeclaration) (tag : Tag) (text : Text)
    (response : List Text) :
    (comparison d.cardinality).apply env tag text [.texts response, .texts (accepted d)] =
      some (.truth (IsRight d response)) := by
  obtain ⟨identifier, cardinality, type, correct⟩ := d
  cases cardinality with
  | ordered => simp [comparison, Operation.apply, accepted, IsRight]
  | single => simp [comparison, Operation.apply, IsRight, List.any_eq]
  | multiple => simp [comparison, Operation.apply, IsRight, List.any_eq]

/-- A comparison holds if the response is right. -/
theorem means_comparison {d : ResponseDeclaration}
    (hcorrect : env.correct? d.identifier = some (accepted d)) :
    Means env (below (comparisonLines d)) [.truth (IsRight d (env.given d.identifier))] := by
  have hindent : ("          " : Text) = indent 10 := literal_eq rfl
  have hvariable : Means env (below ["          " ++ variableMarkup d.identifier])
      [.texts (env.given d.identifier)] := by
    rw [hindent]
    exact Means.line (means_variable d.identifier)
  have hvalues : Means env (below [("          <qti-correct identifier=\"" ++
      escapeAttribute d.identifier ++ "\"/>" : Text)]) [.texts (accepted d)] := by
    rw [correctLine_eq]
    refine Means.line (means_emptyTag (isName_identifier d.identifier) ?_)
    simp only [Operation.apply, attribute?_first, hcorrect, Option.bind_eq_bind, Option.bind_some]
  have hfirst : ("        <" ++ operator d.cardinality ++ ">" : Text) =
      indent 8 ++ startTag ⟨(comparison d.cardinality).name, []⟩ := by
    rw [operator_eq]
    exact bracketLine_eq 8 _ rfl rfl
  have hlast : ("        </" ++ operator d.cardinality ++ ">" : Text) =
      indent 8 ++ endTag (comparison d.cardinality).name := by
    rw [operator_eq]
    exact closeLine_eq 8 _ rfl rfl
  have hinner := hvariable.append hvalues
  rw [← below_append] at hinner
  have hblock := means_block isName_nil hfirst hlast hinner
    fun text => apply_comparison d _ text _
  exact hblock

/-- The conjunction of the comparisons holds if all responses are right. -/
theorem means_conjunction {ds : List ResponseDeclaration} (hne : ds ≠ [])
    (hcorrect : ∀ d ∈ ds, env.correct? d.identifier = some (accepted d)) :
    Means env (below
      ("      <qti-and>" :: (ds.flatMap comparisonLines ++ [("      </qti-and>" : Text)])))
      [.truth (∀ d ∈ ds, IsRight d (env.given d.identifier))] := by
  have hfirst : ("      <qti-and>" : Text) =
      indent 6 ++ startTag ⟨Operation.conjunction.name, []⟩ := startLine_eq 6 rfl rfl
  have hlast : ("      </qti-and>" : Text) = indent 6 ++ endTag Operation.conjunction.name :=
    endLine_eq 6 rfl rfl
  let truths : List Bool := ds.map fun d => decide (IsRight d (env.given d.identifier))
  have hinner : Means env (below (ds.flatMap comparisonLines)) (truths.map .truth) := by
    rw [below, List.flatMap_assoc, List.map_map, List.map_eq_flatMap]
    exact .flatMap fun d hd => means_comparison (hcorrect d hd)
  have hparts : (truths.map Meaning.truth).mapM Meaning.truth? = some truths :=
    Results.mapM_map_of_some Meaning.truth? Meaning.truth (fun _ => rfl) truths
  have hne' : truths ≠ [] := by simpa [truths] using hne
  have hall : truths.all id = decide (∀ d ∈ ds, IsRight d (env.given d.identifier)) := by
    rw [Bool.eq_iff_iff, decide_eq_true_iff, List.all_eq_true]
    simp [truths]
  refine means_block isName_nil hfirst hlast hinner fun text => ?_
  rw [Operation.apply, hparts, ← hall]
  exact if_neg hne'

/-- A line with an element that holds a value of a type, in an element with an identifier. -/
theorem outcomeText_eq {s r q e n a m b : String} {t u v w : Text} (k : ℕ) {outcome type : Text}
    (value : Text) (houtcome : escapeAttribute outcome = outcome)
    (htype : escapeAttribute type = type) (hn : n = String.ofList t) (ha : a = String.ofList u)
    (hm : m = String.ofList v) (hb : b = String.ofList w)
    (hs : s = String.ofList (indent k ++ '<' :: (t ++ ' ' :: (u ++ ['=', '"']))))
    (hr : r = String.ofList ('"' :: '>' :: '<' :: (v ++ ' ' :: (w ++ ['=', '"']))))
    (hq : q = String.ofList ['"', '>'])
    (he : e = String.ofList ('<' :: '/' :: (v ++ '>' :: '<' :: '/' :: (t ++ ['>'])))) :
    (s : Text) ++ outcome ++ r ++ type ++ q ++ value ++ e =
      indent k ++ (startTag ⟨n, [((a : Text), outcome)]⟩ ++
        (startTag ⟨m, [((b : Text), type)]⟩ ++ value ++ endTag m) ++ endTag n) := by
  rw [literal_eq hs, literal_eq hr, literal_eq hq, literal_eq he, startTag, startTag, openText,
    openText, endTag, endTag, literal_eq hn, literal_eq ha, literal_eq hm, literal_eq hb]
  simp only [List.flatMap_singleton, attributeText, houtcome, htype, List.append_assoc,
    List.cons_append, List.nil_append]

theorem means_outcome {outcome type value : Text} (houtcome : escapeAttribute outcome = outcome)
    (htype : escapeAttribute type = type) (hopen : '<' ∉ value) (hvalue : unescape value = value) :
    Means env (below [outcomeLine outcome type value]) [.assignments [(outcome, [value])]] := by
  have hline : outcomeLine outcome type value = indent 6 ++
      (startTag ⟨Operation.assignment.name, [("identifier", outcome)]⟩ ++
        (startTag ⟨Operation.baseValue.name, [("base-type", type)]⟩ ++ value ++
          endTag Operation.baseValue.name) ++ endTag Operation.assignment.name) := by
    unfold outcomeLine
    exact outcomeText_eq 6 value houtcome htype rfl rfl rfl rfl rfl rfl rfl rfl
  have hkeys : ∀ entry ∈ [(("base-type" : Text), type)], IsName entry.1 :=
    List.forall_mem_singleton.2 (isName_literal rfl (by decide))
  have hbase : Means env (startTag ⟨Operation.baseValue.name, [("base-type", type)]⟩ ++ value ++
      endTag Operation.baseValue.name) [.texts [value]] := by
    refine means_element hkeys (reads_characters hopen) (evaluate_characters env value) ?_
    rw [innerText_characters, hvalue]
    rfl
  obtain ⟨trees, htrees, hparts⟩ := hbase
  rw [hline]
  refine Means.line (means_element (isName_identifier outcome) htrees hparts ?_)
  simp only [Operation.apply, attribute?_first, Option.bind_eq_bind, Option.bind_some]

def grade (points selected : Text) : Table (List Text) :=
  [(score, [points]), (feedback, [selected])]

theorem means_outcomes {points selected : Text} (hpoints : '<' ∉ points)
    (hpoints' : unescape points = points) (hselected : '<' ∉ selected)
    (hselected' : unescape selected = selected) :
    Means env (below (outcomeLines points selected))
      [.assignments [(score, [points])], .assignments [(feedback, [selected])]] := by
  have hscore : Means env (below [outcomeLine score "float" points])
      [.assignments [(score, [points])]] :=
    means_outcome (by decide) (by decide) hpoints hpoints'
  have hfeedback : Means env (below [outcomeLine feedback "identifier" selected])
      [.assignments [(feedback, [selected])]] :=
    means_outcome (by decide) (by decide) hselected hselected'
  have hboth := hscore.append hfeedback
  rw [← below_append] at hboth
  exact hboth

def conjunctionLines (ds : List ResponseDeclaration) : List Text :=
  "      <qti-and>" :: (ds.flatMap comparisonLines ++ [("      </qti-and>" : Text)])

def ifLines (ds : List ResponseDeclaration) : List Text :=
  "    <qti-response-if>" :: ((conjunctionLines ds ++ outcomeLines "1" "CORRECT") ++
    [("    </qti-response-if>" : Text)])

def elseLines : List Text :=
  "    <qti-response-else>" :: (outcomeLines "0" "INCORRECT" ++
    [("    </qti-response-else>" : Text)])

def conditionLines (ds : List ResponseDeclaration) : List Text :=
  "  <qti-response-condition>" :: ((ifLines ds ++ elseLines) ++
    [("  </qti-response-condition>" : Text)])

def gradeOf (ds : List ResponseDeclaration) (given : Text → List Text) : Table (List Text) :=
  if ∀ d ∈ ds, IsRight d (given d.identifier) then grade "1" "CORRECT" else grade "0" "INCORRECT"

section

variable {ds : List ResponseDeclaration} (hne : ds ≠ [])
  (hcorrect : ∀ d ∈ ds, env.correct? d.identifier = some (accepted d))
include hne hcorrect

theorem means_if : Means env (below (ifLines ds))
    [.branch (∀ d ∈ ds, IsRight d (env.given d.identifier)) (grade "1" "CORRECT")] := by
  have hfirst : ("    <qti-response-if>" : Text) =
      indent 4 ++ startTag ⟨Operation.ifBranch.name, []⟩ := startLine_eq 4 rfl rfl
  have hlast : ("    </qti-response-if>" : Text) = indent 4 ++ endTag Operation.ifBranch.name :=
    endLine_eq 4 rfl rfl
  have houtcomes : Means env (below (outcomeLines "1" "CORRECT"))
      [.assignments [(score, ["1"])], .assignments [(feedback, ["CORRECT"])]] :=
    means_outcomes (by decide) (by decide) (by decide) (by decide)
  have hinner := (means_conjunction hne hcorrect).append houtcomes
  rw [← below_append] at hinner
  exact means_block isName_nil hfirst hlast hinner fun _ => rfl

theorem means_condition : Means env (below (conditionLines ds))
    [.assignments (gradeOf ds env.given)] := by
  have hfirst : ("  <qti-response-condition>" : Text) =
      indent 2 ++ startTag ⟨Operation.condition.name, []⟩ := startLine_eq 2 rfl rfl
  have hlast : ("  </qti-response-condition>" : Text) =
      indent 2 ++ endTag Operation.condition.name := endLine_eq 2 rfl rfl
  have helse : Means env (below elseLines) [.branch true (grade "0" "INCORRECT")] := by
    have hfirst : ("    <qti-response-else>" : Text) =
        indent 4 ++ startTag ⟨Operation.elseBranch.name, []⟩ := startLine_eq 4 rfl rfl
    have hlast : ("    </qti-response-else>" : Text) =
        indent 4 ++ endTag Operation.elseBranch.name := endLine_eq 4 rfl rfl
    have hinner : Means env (below (outcomeLines "0" "INCORRECT"))
        [.assignments [(score, ["0"])], .assignments [(feedback, ["INCORRECT"])]] :=
      means_outcomes (by decide) (by decide) (by decide) (by decide)
    exact means_block isName_nil hfirst hlast hinner fun _ => rfl
  have hinner := (means_if hne hcorrect).append helse
  rw [← below_append] at hinner
  refine means_block isName_nil hfirst hlast hinner fun _ => ?_
  by_cases hall : ∀ d ∈ ds, IsRight d (env.given d.identifier)
  · rw [gradeOf, if_pos hall, decide_eq_true hall]
    rfl
  · rw [gradeOf, if_neg hall, decide_eq_false hall]
    rfl

end

/-- What the inline feedback is set to: the responses that select it, one after another. -/
def selectionOf (selecting : List ResponseDeclaration) (given : Text → List Text) :
    Table (List Text) :=
  if selecting = [] then []
  else [(Interaction.feedbackInline, selecting.flatMap fun d => given d.identifier)]

theorem selectionLine_eq :
    ("  <qti-set-outcome-value identifier=\"" ++ Interaction.feedbackInline ++ "\">" : Text) =
      indent 2 ++ startTag ⟨Operation.assignment.name,
        [("identifier", Interaction.feedbackInline)]⟩ := by
  have hplain : escapeAttribute Interaction.feedbackInline = Interaction.feedbackInline := by
    decide
  have hend : ("\">" : Text) = '"' :: ['>'] := literal_eq rfl
  have hline : ("  <qti-set-outcome-value identifier=\"" : Text) ++
      escapeAttribute Interaction.feedbackInline ++ '"' :: ['>'] = indent 2 ++
        (openText ⟨Operation.assignment.name, [("identifier", Interaction.feedbackInline)]⟩ ++
          ['>']) :=
    keyLine_eq 2 Interaction.feedbackInline ['>'] rfl rfl rfl
  rw [hplain] at hline
  rw [hend]
  exact hline

/-- The responses that select inline feedback are collected. -/
theorem means_selection (selecting : List ResponseDeclaration) :
    Means env (below (selectorLines selecting))
      ((selectionOf selecting env.given).map fun entry => .assignments [entry]) := by
  by_cases hnil : selecting = []
  · subst hnil
    exact means_nil
  have hindent : ("      " : Text) = indent 6 := literal_eq rfl
  have hvariables :
      Means env (below (selecting.map fun d => "      " ++ variableMarkup d.identifier))
        ((selecting.map fun d => env.given d.identifier).map .texts) := by
    rw [below, List.flatMap_map, List.map_map, List.map_eq_flatMap]
    refine .flatMap fun d _ => ?_
    rw [hindent, ← List.cons_append]
    exact (means_characters (not_mem_gap 6)).append (means_variable d.identifier)
  have hfirst : ("    <qti-multiple>" : Text) =
      indent 4 ++ startTag ⟨Operation.collection.name, []⟩ := startLine_eq 4 rfl rfl
  have hlast : ("    </qti-multiple>" : Text) = indent 4 ++ endTag Operation.collection.name :=
    endLine_eq 4 rfl rfl
  let variableLines : List Text := selecting.map fun d => "      " ++ variableMarkup d.identifier
  have hcollection : Means env
      (below ("    <qti-multiple>" :: (variableLines ++ [("    </qti-multiple>" : Text)])))
      [.texts (selecting.map fun d => env.given d.identifier).flatten] :=
    means_block isName_nil hfirst hlast hvariables fun text => by
      rw [Operation.apply, Results.mapM_map_of_some Meaning.texts? Meaning.texts (fun _ => rfl)]
      rfl
  have hend : ("  </qti-set-outcome-value>" : Text) =
      indent 2 ++ endTag Operation.assignment.name := endLine_eq 2 rfl rfl
  have hblock : Means env _ [.assignments (selectionOf selecting env.given)] :=
    means_block (isName_identifier _) selectionLine_eq hend hcollection fun text => by
      rw [selectionOf, if_neg hnil, Operation.apply]
      simp only [attribute?_first, Option.bind_eq_bind, Option.bind_some, List.flatMap_def]
  rw [← flatten_block] at hblock
  have hlines : selectorLines selecting = _ := if_neg (by simpa using hnil)
  rw [hlines, selectionOf, if_neg hnil]
  rw [selectionOf, if_neg hnil] at hblock
  exact hblock

theorem flatten_processing (p p' c c' i i' e e' a a' : Text) (s q r t : List Text) :
    List.flatten [[p], s, [c, i, a], q, [a'], r, [i', e], t, [e', c', p']] =
      p :: ((s ++ (c :: (((i :: (((a :: (q ++ [a'])) ++ r) ++ [i'])) ++ (e :: (t ++ [e']))) ++
        [c']))) ++ [p']) := by
  simp

theorem means_processing {ds : List ResponseDeclaration} (hne : ds ≠ [])
    (hcorrect : ∀ d ∈ ds, env.correct? d.identifier = some (accepted d))
    (inlineFeedback : List Text) :
    Means env (processingMarkup ds inlineFeedback) [.assignments
      (selectionOf (selectors inlineFeedback ds) env.given ++ gradeOf ds env.given)] := by
  have hfirst : ("<qti-response-processing>" : Text) = startTag ⟨Operation.processing.name, []⟩ :=
    startLine_eq 0 rfl rfl
  have hlast : ("</qti-response-processing>" : Text) = endTag Operation.processing.name :=
    endLine_eq 0 rfl rfl
  let selection := selectionOf (selectors inlineFeedback ds) env.given
  have hselection : Means env (below (selectorLines (selectors inlineFeedback ds)))
      (selection.map fun entry => .assignments [entry]) := means_selection _
  have hinner := hselection.append (means_condition hne hcorrect)
  rw [← below_append] at hinner
  obtain ⟨trees, htrees, hparts⟩ := hinner
  have hall := evaluate_append hparts (evaluate_characters env (gap 0))
  rw [List.append_nil] at hall
  have hmarkup : processingMarkup ds inlineFeedback = _ := (congrArg lines
    (flatten_processing _ _ _ _ _ _ _ _ _ _ _ _ _ _)).trans (lines_block hfirst hlast _)
  rw [hmarkup]
  refine means_element isName_nil
    (htrees.append (reads_characters (not_mem_gap 0))) hall ?_
  have hassignments : (selection.map (fun entry => Meaning.assignments [entry]) ++
      [Meaning.assignments (gradeOf ds env.given)]).mapM Meaning.assignments? =
        some (selection.map (fun entry => [entry]) ++ [gradeOf ds env.given]) := by
    have hmap := Results.mapM_map_of_some Meaning.assignments? Meaning.assignments (fun _ => rfl)
      (selection.map (fun entry => [entry]) ++ [gradeOf ds env.given])
    rwa [List.map_append, List.map_map] at hmap
  have hflatten : (selection.map (fun entry => [entry]) ++ [gradeOf ds env.given]).flatten =
      selection ++ gradeOf ds env.given := by
    rw [List.flatten_append, ← List.flatMap_def, List.flatMap_singleton', List.flatten_singleton]
  rw [Operation.apply, hassignments]
  exact congrArg (some ∘ Meaning.assignments) hflatten

end

/-- What the responses that are given come to, by the declarations and the processing as they
are written. -/
theorem outcomes_eq {ds : List ResponseDeclaration} (hne : ds ≠ [])
    (hunique : (ds.map ResponseDeclaration.identifier).Nodup) (inlineFeedback : List Text)
    (given : Text → List Text) :
    outcomes? (declarationsMarkup ds) (processingMarkup ds inlineFeedback) given =
      some (.ofEntries (selectionOf (selectors inlineFeedback ds) given ++ gradeOf ds given)) := by
  obtain ⟨declarations, hdeclarations, hcorrect⟩ := declared_declarations hunique
  let env : Environment := ⟨given, declared? declarations⟩
  have hmeans : Means env (processingMarkup ds inlineFeedback) _ :=
    means_processing hne hcorrect inlineFeedback
  obtain ⟨trees, htrees, hmeaning⟩ := hmeans
  simp only [outcomes?, hdeclarations, htrees.read?, Option.bind_eq_bind, Option.bind_some]
  change (evaluate env trees).bind _ = _
  rw [hmeaning]
  rfl

theorem find?_grade (selection : Table (List Text)) (points selected : Text) :
    Table.find? score (.ofEntries (selection ++ grade points selected)) = some [points] ∧
      Table.find? feedback (.ofEntries (selection ++ grade points selected)) = some [selected] := by
  have hne : feedback ≠ score := by decide
  simp only [find?_ofEntries, grade, List.reverse_append, List.reverse_cons, List.reverse_nil,
    List.nil_append, List.cons_append, Table.find?, if_neg hne, if_true, and_self]

/-- The responses are scored with one point and answered with the feedback for correct responses
exactly if each is right, and otherwise with none and the other feedback. -/
theorem graded {ds : List ResponseDeclaration} (hne : ds ≠ [])
    (hunique : (ds.map ResponseDeclaration.identifier).Nodup) (inlineFeedback : List Text)
    (given : Text → List Text) :
    ∃ outcomes,
      outcomes? (declarationsMarkup ds) (processingMarkup ds inlineFeedback) given =
        some outcomes ∧
      ((∀ d ∈ ds, IsRight d (given d.identifier)) →
        Table.find? score outcomes = some [("1" : Text)] ∧
          Table.find? feedback outcomes = some [("CORRECT" : Text)]) ∧
      ((¬ ∀ d ∈ ds, IsRight d (given d.identifier)) →
        Table.find? score outcomes = some [("0" : Text)] ∧
          Table.find? feedback outcomes = some [("INCORRECT" : Text)]) := by
  refine ⟨_, outcomes_eq hne hunique inlineFeedback given, fun hright => ?_, fun hwrong => ?_⟩
  · rw [gradeOf, if_pos hright]
    exact find?_grade _ "1" "CORRECT"
  · rw [gradeOf, if_neg hwrong]
    exact find?_grade _ "0" "INCORRECT"

def escapedDeclarations : List ResponseDeclaration :=
  [⟨"R<1", .ordered, .identifier, .list [.text "A&B", .text "C"]⟩,
    ⟨"R\"2", .single, .string, .scalar (.text "x > 1")⟩]

def escapedResponses : Table (List Text) := [("R<1", ["A&B", "C"]), ("R\"2", ["x>1"])]

/-- The sequence is given in its order, and the text without its spaces. -/
theorem graded_escaped :
    escapedDeclarations ≠ [] ∧ (escapedDeclarations.map ResponseDeclaration.identifier).Nodup ∧
      ∃ outcomes, outcomes? (declarationsMarkup escapedDeclarations)
        (processingMarkup escapedDeclarations [])
        (fun r => (Table.find? r escapedResponses).getD []) = some outcomes ∧
        Table.find? score outcomes = some [("1" : Text)] ∧
        Table.find? feedback outcomes = some [("CORRECT" : Text)] := by
  have hne : escapedDeclarations ≠ [] := by decide
  have hunique : (escapedDeclarations.map ResponseDeclaration.identifier).Nodup := by decide
  obtain ⟨outcomes, houtcomes, hright, -⟩ := graded hne hunique []
    fun r => (Table.find? r escapedResponses).getD []
  exact ⟨hne, hunique, outcomes, houtcomes, hright (by decide +kernel)⟩

end AssessmentItems.Grading
