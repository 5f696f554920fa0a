import AssessmentItems.CommandLine
import AssessmentItems.Proofs.Compilation
import AssessmentItems.Proofs.ReadRecords

/-!
Runs of the command line. A run that compiles prints what the compiler makes of the text that
is read, or reports why it makes nothing; a run that validates reports the same errors where
the checks fail, and succeeds wherever compiling does. It lists the slots of the widgets in
ascending order, because an item is read from a value whose members ascend.
-/
namespace AssessmentItems.CommandRuns

open CommandLine Decoding Tables JsonValues JsonWriter Results ReadRecords Compilation Text

theorem gives_ascending {α : Type} {decode : Decoder α} :
    Gives Ordered (table decode) Ascending := by
  intro v entries hv h
  cases v with
  | object members =>
    rw [Ascending, names_of_table h]
    exact (ordered_object_iff.1 hv).1
  | _ => cases h

theorem gives_item : Gives (Parts Ordered) AssessmentItem.record.decode
    fun item => Ascending item.widgets := by
  have hempty : ∀ ws ∈ some ([] : Table WidgetSpec), Ascending ws := by
    rintro _ ⟨⟩
    exact List.Pairwise.nil
  refine Yields.gives (.skip (.skip (.andThen gives_ascending hempty
    (.skip (.skip (.skip (.skip (yields_nothing ?_))))))))
  exact fun _ _ _ _ _ hws _ _ => hws

theorem parts_of_ordered {v : Json} (h : Ordered v) : Parts Ordered v := by
  cases v with
  | array elements => exact ordered_array_iff.1 h
  | object members => exact (ordered_object_iff.1 h).2
  | _ => trivial

/-- The slots of the widgets ascend in every item that is read from a text. -/
theorem ascending_of_ofText {t : Text} {item : AssessmentItem}
    (h : AssessmentItem.ofText t = .ok item) : Ascending item.widgets := by
  obtain ⟨v, hv, h⟩ := bind_eq_ok.1 h
  obtain ⟨parsed, -, rfl⟩ := map_eq_ok.1 (mapError_eq_ok.1 hv)
  unfold AssessmentItem.ofJson at h
  split at h
  · contradiction
  · exact gives_item _ _ (parts_of_ordered (ordered_ordered parsed)) (mapError_eq_ok.1 h)

/-- The widgets stand under the slots of their specifications. -/
theorem names_of_widgets {item : AssessmentItem} {ws : Table Widget}
    (h : Compiler.widgets item = .ok ws) : Table.names ws = Table.names item.widgets := by
  unfold Compiler.widgets at h
  generalize item.widgets = specs at h ⊢
  induction specs generalizing ws with
  | nil =>
    obtain rfl := Except.ok.inj h
    rfl
  | cons entry specs ih =>
    rw [List.mapM_cons] at h
    obtain ⟨first, hfirst, h⟩ := bind_eq_ok.1 h
    obtain ⟨rest, hrest, h⟩ := bind_eq_ok.1 h
    obtain ⟨w, -, hw⟩ := bind_eq_ok.1 hfirst
    obtain rfl := Except.ok.inj hw
    obtain rfl := Except.ok.inj h
    exact congrArg (entry.1 :: ·) (ih hrest)

def configured (configuration : Configuration) : Compiler :=
  { Compiler.standard with configuration := configuration }

def checked (t : Text) : Except CompileError (Table Widget) := do
  (Compiler.validate (← AssessmentItem.ofText t)).result

def document (c : Compiler) (t : Text) : Except CompileError Text := do
  (c.compile (← AssessmentItem.ofText t)).result

/-- A text is refused with a manifest asked for or not. -/
theorem compiled_of_error {c : Compiler} {t : Text} {e : CompileError}
    (h : document c t = .error e) (manifest : Bool) : compiled c manifest t = .error e := by
  unfold document at h
  unfold compiled
  cases hitem : AssessmentItem.ofText t with
  | error e' =>
    rw [hitem] at h
    exact congrArg Except.error (Except.error.inj h)
  | ok item =>
    rw [hitem] at h
    have h : (c.compile item).result = .error e := h
    cases manifest with
    | false => exact h
    | true =>
      change (c.manifest item).result.map _ = _
      have hmanifest : (c.manifest item).result = .error e := by
        unfold Compiler.manifest
        generalize c.compile item = compilation at h
        obtain ⟨result, checks⟩ := compilation
        obtain rfl : result = .error e := h
        rfl
      rw [hmanifest]
      rfl

def prettyMember (level : ℕ) (m : Text × Json) : Text :=
  writeString m.1 ++ ": " ++ writePretty level m.2

theorem prettyMembers_eq (level : ℕ) (m : Text × Json) (rest : List (Text × Json)) :
    prettyMembers level (m :: rest) =
      join (',' :: newLine level) ((m :: rest).map (prettyMember level)) := by
  have hmember : ∀ k v, writeString k ++ ':' :: ' ' :: writePretty level v =
      prettyMember level (k, v) := fun k v => (List.append_assoc _ [':', ' '] _).symm
  induction rest generalizing m with
  | nil => exact hmember _ _
  | cons next rest ih =>
    rw [prettyMembers, ih, hmember]
    · rfl
    · exact List.cons_ne_nil _ _

theorem prettyElements_eq (level : ℕ) (v : Json) (rest : List Json) :
    prettyElements level (v :: rest) =
      join (',' :: newLine level) ((v :: rest).map (writePretty level)) := by
  induction rest generalizing v with
  | nil => rfl
  | cons next rest ih =>
    rw [prettyElements, ih]
    · rfl
    · exact List.cons_ne_nil _ _

def report (members : List Text) : Text := "\x7b\n  " ++ join ",\n  " members ++ "\n\x7d"

theorem pretty_object (m : Text × Json) (rest : List (Text × Json)) :
    pretty (.object (m :: rest)) = report ((m :: rest).map (prettyMember 1)) := by
  rw [pretty, writePretty, prettyMembers_eq, List.append_assoc]
  rfl

def manifestText (identifier itemHash documentHash document : Text) : Text := report [
  "\"identifier\": " ++ writeString identifier,
  "\"engine_version\": \"1.0.0\"",
  "\"item_hash\": " ++ writeString itemHash,
  "\"document_hash\": " ++ writeString documentHash,
  "\"document\": " ++ writeString document]

theorem pretty_manifest (identifier itemHash documentHash document : Text) :
    pretty (Compiler.Manifest.toJson ⟨identifier, Compiler.version, itemHash, documentHash,
      document⟩) = manifestText identifier itemHash documentHash document := by
  rw [Compiler.Manifest.toJson, pretty_object]
  rfl

/-- A document, or the manifest of an item with its document. -/
def shown (item : AssessmentItem) (d : Text) : (manifest : Bool) → Text
  | false => d
  | true => manifestText item.identifier item.digest (Digest.sha256 d.bytes) d

theorem compiled_of_ok {c : Compiler} {t d : Text} {item : AssessmentItem}
    (hitem : AssessmentItem.ofText t = .ok item) (h : (c.compile item).result = .ok d)
    (manifest : Bool) :
    compiled c manifest t = .ok (shown item d manifest) := by
  unfold compiled
  rw [hitem]
  cases manifest with
  | false => exact h
  | true =>
    have hmanifest : (c.manifest item).result = .ok ⟨item.identifier, Compiler.version,
        item.digest, Digest.sha256 d.bytes, d⟩ := counted_bind_eq_ok.2 ⟨d, h, rfl⟩
    exact map_eq_ok.2 ⟨_, hmanifest, pretty_manifest _ _ _ _⟩

/-- Compiling starts with the checks, whatever the configuration. -/
theorem document_of_checked {t : Text} {e : CompileError} (h : checked t = .error e)
    (c : Compiler) : document c t = .error e := by
  unfold checked at h
  unfold document
  cases hitem : AssessmentItem.ofText t with
  | error e' =>
    rw [hitem] at h
    exact congrArg Except.error (Except.error.inj h)
  | ok item =>
    rw [hitem] at h
    change (Compiler.validate item).result = .error e at h
    change (c.compile item).result = .error e
    unfold Compiler.compile
    generalize Compiler.validate item = validation at h
    obtain ⟨result, checks⟩ := validation
    obtain rfl : result = .error e := h
    rfl

/-- A text that compiles passes the checks, with a widget for each specification. -/
theorem checked_of_compile {c : Compiler} {t d : Text} {item : AssessmentItem}
    (hitem : AssessmentItem.ofText t = .ok item) (h : (c.compile item).result = .ok d) :
    ∃ ws, checked t = .ok ws ∧ Table.names ws = Table.names item.widgets := by
  obtain ⟨r, -⟩ := compile_eq_ok.1 h
  have hvalid : (Compiler.validate item).result = .ok r.widgets :=
    validate_eq_ok.2 ⟨r.prepared, r.accepted⟩
  obtain ⟨_, -, hwidgets⟩ := bind_eq_ok.1 r.prepared
  exact ⟨r.widgets, bind_eq_ok.2 ⟨item, hitem, hvalid⟩, names_of_widgets hwidgets⟩

theorem validated_eq (t : Text) : validated t = (checked t).map Table.names := by
  unfold validated checked
  cases AssessmentItem.ofText t with
  | error e => rfl
  | ok item => rfl

/-- The report on what does not succeed, under the name of what was asked for. -/
def refused (success message : Text) : Outcome :=
  ⟨2, report ["\"error\": " ++ writeString message, "\"" ++ success ++ "\": false"] ++ "\n"⟩

def listed : List Text → Text
  | [] => "[]"
  | slot :: slots =>
    "[\n    " ++ join ",\n    " (writeString slot :: slots.map writeString) ++ "\n  ]"

def accepted (slots : List Text) : Outcome :=
  ⟨0, report ["\"valid\": true", "\"widgets\": " ++ listed slots] ++ "\n"⟩

theorem writePretty_texts (slots : List Text) : writePretty 1 (texts slots) = listed slots := by
  cases slots with
  | nil => rfl
  | cons slot slots =>
    rw [texts, List.map_cons, writePretty, prettyElements_eq, List.append_assoc, List.map_cons,
      List.map_map]
    rfl

theorem printed_validReport (slots : List Text) :
    Outcome.printed 0 (validReport slots) = accepted slots := by
  rw [Outcome.printed, validReport, pretty_object, List.map_cons, List.map_singleton,
    prettyMember, prettyMember, writePretty_texts]
  rfl

theorem ofResult_error {α : Type} {describe : JsonFault → Text} {success : Text}
    (h : success = "success" ∨ success = "valid") (write : α → Text) (e : CompileError) :
    Outcome.ofResult describe success write (.error e) = refused success (e.message describe) := by
  have hkeys : ("error" : Text) < "success" ∧ ("error" : Text) < "valid" := by decide
  have hordered : Ordered (.object [("error", .string (e.message describe)),
      (success, .bool false)]) := by
    refine ordered_object_iff.2 ⟨ascending_cons.2 ⟨?_, List.pairwise_singleton _ _⟩, ?_⟩
    · rintro _ (_ | ⟨_, ⟨⟩⟩)
      rcases h with rfl | rfl
      · exact hkeys.1
      · exact hkeys.2
    · rintro _ (_ | ⟨_, _ | ⟨_, ⟨⟩⟩⟩)
      · rfl
      · rfl
  rw [Outcome.ofResult, hordered, Outcome.printed, pretty_object]
  rcases h with rfl | rfl
  · rfl
  · rfl

def outcome (describe : Text → JsonFault → Text) (read : Source → Option Text)
    (command : Command) : Outcome :=
  run (m := Id) describe read command

/-- The configuration of a run: the standard one if none is named, and else the one that its text
denotes, if there is one. -/
def settled (read : Source → Option Text) : Option Source → Option Configuration
  | none => some .standard
  | some source => (read source).bind fun t => (Configuration.ofText t).toOption

theorem settled_eq (read : Source → Option Text) (source : Option Source) :
    settled read source = configuration? (source.map read) := by
  cases source with
  | none => rfl
  | some s =>
    change (read s).bind _ = configuration? (some (read s))
    cases read s with
    | none => rfl
    | some t => rfl

/-- What is made of a text is printed, or what is wrong with it, and if a text or the
configuration is missing, nothing. -/
structure Reports (describe : Text → JsonFault → Text) (read : Source → Option Text)
    (input : Source) (source : Option Source) (manifest : Bool) (o : Outcome) : Prop where
  made : o.exit = 0 ↔ ∃ configuration t d, settled read source = some configuration ∧
    read input = some t ∧ document (configured configuration) t = .ok d
  prints : ∀ configuration t item d, settled read source = some configuration →
    read input = some t → AssessmentItem.ofText t = .ok item →
      ((configured configuration).compile item).result = .ok d → o = ⟨0, shown item d manifest ++ "\n"⟩
  missing : o.exit = 1 ↔ settled read source = none ∨ read input = none
  silent : settled read source = none ∨ read input = none → o = ⟨1, []⟩
  failed : o.exit = 2 ↔ ∃ configuration t e, settled read source = some configuration ∧
    read input = some t ∧ document (configured configuration) t = .error e
  reports : ∀ configuration t e, settled read source = some configuration →
    read input = some t → document (configured configuration) t = .error e →
      o = refused "success" (e.message (describe t))

section

variable {describe : Text → JsonFault → Text} {read : Source → Option Text} {input : Source}
  {source : Option Source} {manifest : Bool} {configuration : Configuration} {t d : Text}
  {e : CompileError}

theorem outcome_compile : outcome describe read (.compile input source manifest) =
    match settled read source with
    | none => ⟨1, []⟩
    | some configuration =>
      match read input with
      | none => ⟨1, []⟩
      | some t =>
        .ofResult (describe t) "success" id (compiled (configured configuration) manifest t) := by
  rw [settled_eq]
  cases source with
  | none => rfl
  | some s => rfl

theorem outcome_unread (h : settled read source = none ∨ read input = none) :
    outcome describe read (.compile input source manifest) = ⟨1, []⟩ := by
  rw [outcome_compile]
  rcases h with h | h
  · rw [h]
  · rw [h]
    cases settled read source with
    | none => rfl
    | some configuration => rfl

theorem outcome_read (hsettled : settled read source = some configuration)
    (hread : read input = some t) : outcome describe read (.compile input source manifest) =
      .ofResult (describe t) "success" id (compiled (configured configuration) manifest t) := by
  simp only [outcome_compile, hsettled, hread]

theorem outcome_printed {item : AssessmentItem} (hsettled : settled read source = some configuration)
    (hread : read input = some t) (hitem : AssessmentItem.ofText t = .ok item)
    (h : ((configured configuration).compile item).result = .ok d) :
    outcome describe read (.compile input source manifest) = ⟨0, shown item d manifest ++ "\n"⟩ := by
  rw [outcome_read hsettled hread, compiled_of_ok hitem h]
  rfl

theorem outcome_refused (hsettled : settled read source = some configuration)
    (hread : read input = some t) (h : document (configured configuration) t = .error e) :
    outcome describe read (.compile input source manifest) =
      refused "success" (e.message (describe t)) := by
  rw [outcome_read hsettled hread, compiled_of_error h]
  exact ofResult_error (.inl rfl) _ _

theorem outcome_validate : outcome describe read (.validate input) =
    match read input with
    | none => ⟨1, []⟩
    | some t => .ofResult (describe t) "valid" validReport (validated t) := rfl

theorem validate_accepted {ws : Table Widget} (hread : read input = some t)
    (h : checked t = .ok ws) :
    outcome describe read (.validate input) = accepted (Table.names ws) := by
  simp only [outcome_validate, hread, validated_eq, h]
  exact printed_validReport _

theorem validate_refused (hread : read input = some t) (h : checked t = .error e) :
    outcome describe read (.validate input) = refused "valid" (e.message (describe t)) := by
  simp only [outcome_validate, hread, validated_eq, h]
  exact ofResult_error (.inr rfl) _ _

theorem validate_exit : (outcome describe read (.validate input)).exit = 2 ↔
    ∃ t e, read input = some t ∧ checked t = .error e := by
  constructor
  · intro hexit
    cases hread : read input with
    | none =>
      simp only [outcome_validate, hread] at hexit
      contradiction
    | some t =>
      cases hchecked : checked t with
      | ok ws =>
        rw [validate_accepted hread hchecked] at hexit
        contradiction
      | error e => exact ⟨t, e, rfl, hchecked⟩
  · rintro ⟨t, e, hread, hchecked⟩
    rw [validate_refused hread hchecked]
    rfl

/-- There is a document for a text, or an error, unless a text or the configuration is missing. -/
theorem missing_or_document (read : Source → Option Text) (input : Source)
    (source : Option Source) :
    (settled read source = none ∨ read input = none) ∨
      (∃ configuration t d, settled read source = some configuration ∧ read input = some t ∧
        document (configured configuration) t = .ok d) ∨
      ∃ configuration t e, settled read source = some configuration ∧ read input = some t ∧
        document (configured configuration) t = .error e := by
  cases hsettled : settled read source with
  | none => exact .inl (.inl rfl)
  | some configuration =>
    cases hread : read input with
    | none => exact .inl (.inr rfl)
    | some t =>
      cases hdocument : document (configured configuration) t with
      | ok d => exact .inr (.inl ⟨_, _, _, rfl, rfl, hdocument⟩)
      | error e => exact .inr (.inr ⟨_, _, _, rfl, rfl, hdocument⟩)

theorem exit_of_document (hsettled : settled read source = some configuration)
    (hread : read input = some t) (h : document (configured configuration) t = .ok d) :
    (outcome describe read (.compile input source manifest)).exit = 0 := by
  obtain ⟨item, hitem, hcompile⟩ := bind_eq_ok.1 h
  rw [outcome_printed hsettled hread hitem hcompile]

theorem exit_of_error (hsettled : settled read source = some configuration)
    (hread : read input = some t) (h : document (configured configuration) t = .error e) :
    (outcome describe read (.compile input source manifest)).exit = 2 := by
  rw [outcome_refused hsettled hread h]
  rfl

theorem exit_of_missing (h : settled read source = none ∨ read input = none) :
    (outcome describe read (.compile input source manifest)).exit = 1 := by
  rw [outcome_unread h]

theorem reports_compile : Reports describe read input source manifest
    (outcome describe read (.compile input source manifest)) := by
  refine ⟨⟨fun hexit => ?_, ?_⟩, fun _ _ _ _ => outcome_printed, ⟨fun hexit => ?_, exit_of_missing⟩,
    outcome_unread, ⟨fun hexit => ?_, ?_⟩, fun _ _ _ => outcome_refused⟩
  · rcases missing_or_document read input source with h | h | ⟨_, _, _, hsettled, hread, h⟩
    · exact nomatch hexit.symm.trans (exit_of_missing h)
    · exact h
    · exact nomatch hexit.symm.trans (exit_of_error hsettled hread h)
  · rintro ⟨_, _, _, hsettled, hread, h⟩
    exact exit_of_document hsettled hread h
  · rcases missing_or_document read input source with h | ⟨_, _, _, hsettled, hread, h⟩ |
      ⟨_, _, _, hsettled, hread, h⟩
    · exact h
    · exact nomatch hexit.symm.trans (exit_of_document hsettled hread h)
    · exact nomatch hexit.symm.trans (exit_of_error hsettled hread h)
  · rcases missing_or_document read input source with h | ⟨_, _, _, hsettled, hread, h⟩ | h
    · exact nomatch hexit.symm.trans (exit_of_missing h)
    · exact nomatch hexit.symm.trans (exit_of_document hsettled hread h)
    · exact h
  · rintro ⟨_, _, _, hsettled, hread, h⟩
    exact exit_of_error hsettled hread h

end

/-- The runs on one input. Compiling prints the document exactly if there is one, says nothing
if a text or the configuration is missing, and else reports the error. What validating refuses is
refused for the same reason by compiling, under every configuration; and where compiling
succeeds, validating lists the slots of the widgets. -/
theorem runs_agree (describe : Text → JsonFault → Text) (read : Source → Option Text)
    (input : Source) :
    (∀ source manifest, Reports describe read input source manifest
      (outcome describe read (.compile input source manifest))) ∧
    ((outcome describe read (.validate input)).exit = 2 ↔
      ∃ t e, read input = some t ∧ checked t = .error e) ∧
    (∀ t e, read input = some t → checked t = .error e →
      outcome describe read (.validate input) = refused "valid" (e.message (describe t)) ∧
        ∀ source manifest, settled read source ≠ none →
          outcome describe read (.compile input source manifest) =
            refused "success" (e.message (describe t))) ∧
    ∀ source manifest, (outcome describe read (.compile input source manifest)).exit = 0 →
      ∃ t item, read input = some t ∧ AssessmentItem.ofText t = .ok item ∧
        outcome describe read (.validate input) = accepted (Table.names item.widgets) ∧
          (Table.names item.widgets).Pairwise (· < ·) := by
  refine ⟨fun _ _ => reports_compile, validate_exit, ?_, ?_⟩
  · intro t e hread hchecked
    refine ⟨validate_refused hread hchecked, fun source manifest hsettled => ?_⟩
    obtain ⟨configuration, hconfiguration⟩ := Option.ne_none_iff_exists'.1 hsettled
    exact outcome_refused hconfiguration hread (document_of_checked hchecked _)
  · intro source manifest hexit
    obtain ⟨configuration, t, d, -, hread, hdocument⟩ :=
      reports_compile.made.1 hexit
    obtain ⟨item, hitem, hcompile⟩ := bind_eq_ok.1 hdocument
    obtain ⟨ws, hchecked, hnames⟩ := checked_of_compile hitem hcompile
    refine ⟨t, item, hread, hitem, ?_, ascending_of_ofText hitem⟩
    rw [validate_accepted hread hchecked, hnames]

def chartText : Text := lines [
  "\x7b\"identifier\": \"q\",",
  "\"title\": \"\",",
  "\"body\": \"\",",
  "\"widgets\": \x7b",
  "\"b\": \x7b\"type\": \"barChart\",",
  "\"bars\": [\x7b\"label\": \"a\",",
  "\"value\": 1\x7d]\x7d\x7d,",
  "\"interactions\": \x7b\x7d,",
  "\"responseDeclarations\":",
  "[\x7b\"identifier\": \"R\",",
  "\"cardinality\": \"single\",",
  "\"baseType\": \"string\",",
  "\"correct\": \"a\"\x7d],",
  "\"feedback\": \x7b\"correct\": \"\",",
  "\"incorrect\": \"\"\x7d\x7d"]

/-- The item is at the standard input; of the files, one is empty and one names a widget that
there is not. -/
def atHand : Source → Option Text
  | .standardInput => some chartText
  | .file path =>
    if path = "empty" then some []
    else if path = "unknown" then
      some (lines ["\x7b\"widgets\":", "\x7b\"w\":", "\x7b\"type\":\"a\\\"b\"\x7d\x7d\x7d"])
    else none

def atEnd (_ : Text) (_ : JsonFault) : Text := "EOF while parsing a value at line 1 column 0"

/-- The texts that are printed for an item in order, for a text that is no JSON, and for an item
with an unknown widget. Without the configuration that is asked for nothing is printed. -/
theorem runs_agree_printed :
    (∃ item d, AssessmentItem.ofText chartText = .ok item ∧
      (Compiler.standard.compile item).result = .ok d ∧
      outcome atEnd atHand (.compile .standardInput none false) = ⟨0, d ++ "\n"⟩ ∧
      outcome atEnd atHand (.compile .standardInput none true) = ⟨0,
        manifestText "q" item.digest (Digest.sha256 d.bytes) d ++ "\n"⟩) ∧
    outcome atEnd atHand (.validate .standardInput) = ⟨0,
      lines ["\x7b", "  \"valid\": true,", "  \"widgets\": [", "    \"b\"", "  ]", "\x7d", ""]⟩ ∧
    outcome atEnd atHand (.compile (.file "empty") none false) = ⟨2, lines ["\x7b",
      "  \"error\": \"Serialization error: EOF while parsing a value at line 1 column 0\",",
      "  \"success\": false", "\x7d", ""]⟩ ∧
    outcome atEnd atHand (.validate (.file "unknown")) = ⟨2, lines ["\x7b",
      "  \"error\": \"Unsupported widget variant: a\\\"b\",", "  \"valid\": false", "\x7d", ""]⟩ ∧
    outcome atEnd atHand (.compile (.file "unknown") none true) = ⟨2, lines ["\x7b",
      "  \"error\": \"Unsupported widget variant: a\\\"b\",", "  \"success\": false", "\x7d", ""]⟩ ∧
    outcome atEnd atHand (.compile (.file "unknown") (some (.file "missing")) true) = ⟨1, []⟩ := by
  obtain ⟨hchart, -, -, hvalid⟩ := runs_agree atEnd atHand .standardInput
  obtain ⟨hunknown, -, hrefused, -⟩ := runs_agree atEnd atHand (.file "unknown")
  obtain ⟨hempty, -⟩ := runs_agree atEnd atHand (.file "empty")
  have hexit : (outcome atEnd atHand (.compile .standardInput none false)).exit = 0 := by
    decide +kernel
  obtain ⟨configuration, t, d, hsettled, hread, hdocument⟩ := (hchart none false).made.1 hexit
  obtain rfl := Option.some.inj hsettled
  obtain rfl := Option.some.inj hread
  obtain ⟨item, hitem, hcompile⟩ := bind_eq_ok.1 hdocument
  have hidentifier : item.identifier = "q" := by
    have h : (AssessmentItem.ofText chartText).map (·.identifier) = .ok "q" := by decide +kernel
    rw [hitem] at h
    exact Except.ok.inj h
  have hmanifest := (hchart none true).prints _ _ _ _ rfl rfl hitem hcompile
  rw [shown, hidentifier] at hmanifest
  have hchecked : ∀ t ∈ atHand (.file "unknown"), checked t = .error (.unsupported .widget "a\"b") := by
    decide +kernel
  obtain ⟨hvalidate, hcompiles⟩ := hrefused _ _ rfl (hchecked _ rfl)
  have hnone : document Compiler.standard [] = .error (.unreadable .endOfText) := by decide +kernel
  refine ⟨⟨item, d, hitem, hcompile, (hchart none false).prints _ _ _ _ rfl rfl hitem hcompile,
    hmanifest⟩, ?_, ?_, ?_, ?_, ?_⟩
  · decide +kernel
  · exact ((hempty none false).reports _ _ _ rfl rfl hnone).trans (by decide +kernel)
  · exact hvalidate.trans (by decide +kernel)
  · exact (hcompiles none true (by decide)).trans (by decide +kernel)
  · exact (hunknown _ true).silent (.inl rfl)

end AssessmentItems.CommandRuns
