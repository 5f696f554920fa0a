import AssessmentItems.Item
import AssessmentItems.Proofs.ReadRecords
import AssessmentItems.Proofs.UnknownKinds

/-!
Reading the JSON forms of the parts of items. Each declaration, interaction, content and widget
is read back from its own JSON form with the members in order: an interaction if its counts fit
into 32 bits, and a widget if its parameters are ordered and keep clear of its kind and its
description, as they do in all that are read.
-/
namespace AssessmentItems.ReadItems

open Decoding Tables JsonValues Results ReadRecords

theorem decode_cardinality (c : Cardinality) : Cardinality.decode (.string c.name) = .ok c := by
  cases c <;> rfl

theorem decode_baseType (b : BaseType) : BaseType.decode (.string b.name) = .ok b := by
  cases b <;> rfl

theorem ofJson?_scalar (s : Scalar) : Scalar.ofJson? s.toJson.ordered = some s := by
  cases s <;> rfl

theorem decode_correct (c : CorrectValue) : CorrectValue.decode c.toJson.ordered = .ok c := by
  cases c with
  | scalar s => cases s <;> rfl
  | list ss =>
    have hscalars : (ss.map fun s => s.toJson.ordered).mapM Scalar.ofJson? = some ss := by
      induction ss with
      | nil => rfl
      | cons s ss ih =>
        rw [List.map_cons, List.mapM_cons, ofJson?_scalar, ih]
        rfl
    simp only [CorrectValue.toJson, Json.ordered, orderedElements_eq, List.map_map,
      CorrectValue.decode, CorrectValue.ofJson?, Function.comp_def, hscalars, Option.map_some]

theorem decode_declaration (d : ResponseDeclaration) :
    ResponseDeclaration.record.decode d.toJson.ordered = .ok d := by
  obtain ⟨identifier, cardinality, baseType, correct⟩ := d
  refine decode_ordered rfl (by decide) fun members h => ?_
  simp only [Holds, List.forall_mem_cons] at h
  obtain ⟨hidentifier, hcardinality, hbaseType, hcorrect, -⟩ := h
  exact take_field (take_field (take_field (take_field rfl hidentifier rfl)
    hcardinality (decode_cardinality cardinality)) hbaseType (decode_baseType baseType))
    hcorrect (decode_correct correct)

theorem decode_choice (c : Choice) : Choice.record.decode c.toJson.ordered = .ok c := by
  obtain ⟨identifier, content, feedback⟩ := c
  refine decode_ordered rfl (by decide) fun members h => ?_
  simp only [Holds, List.forall_mem_cons] at h
  obtain ⟨hidentifier, hcontent, hfeedback, -⟩ := h
  refine take_field (take_field (take_field rfl hidentifier rfl) hcontent rfl) hfeedback ?_
  cases feedback <;> rfl

theorem decode_option (c : InlineOption) : InlineOption.record.decode c.toJson.ordered = .ok c := by
  obtain ⟨identifier, content⟩ := c
  refine decode_ordered rfl (by decide) fun members h => ?_
  simp only [Holds, List.forall_mem_cons] at h
  obtain ⟨hidentifier, hcontent, -⟩ := h
  exact take_field (take_field rfl hidentifier rfl) hcontent rfl

theorem natural32_ofNat {n : ℕ} (h : n < Nat.pow 2 32) : natural32 (.number (.integer n)) = .ok n :=
  if_pos ⟨Int.natCast_nonneg n, h⟩

def Bounded : Interaction → Prop
  | .choice i => i.maxChoices < Nat.pow 2 32 ∧ i.minChoices < Nat.pow 2 32
  | .textEntry i => ∀ n ∈ i.expectedLength, n < Nat.pow 2 32
  | _ => True

/-- An interaction is read from its kind and the fields of its record. -/
theorem decode_tagged {α : Type} (record : Record α) {wrap : α → Interaction} {kind : Text}
    {entries : List (Text × Json)} {a : α}
    (hkind : named Interaction.readings kind = .ok fun v => (record.decode v).map wrap)
    (hnames : Table.names entries = record.fields.names)
    (hnodup : (("type" : Text) :: record.fields.names).Nodup)
    (h : ∀ members, Holds entries members → record.fields.ofMembers members = .ok a) :
    Interaction.decode (Json.object (("type", .string kind) :: entries)).ordered =
      .ok (wrap a) := by
  have hentries : (Table.names (("type", Json.string kind) :: entries)).Nodup := by
    rw [Table.names, List.map_cons, ← Table.names, hnames]
    exact hnodup
  have hall := holds_ordered hentries
  have htype := hall _ List.mem_cons_self
  have hfields : Holds entries (Table.erase "type"
      (Table.ofEntries (Json.orderedMembers (("type", .string kind) :: entries)))) := by
    intro e he
    rw [find?_erase, if_neg, hall e (List.mem_cons_of_mem _ he)]
    intro heq
    have hname : e.1 ∈ Table.names entries := List.mem_map_of_mem he
    exact (List.nodup_cons.1 hentries).1 (heq ▸ hname)
  have hdecode : record.decode (.object (Table.erase "type"
      (Table.ofEntries (Json.orderedMembers (("type", .string kind) :: entries))))) = .ok a := by
    refine decode_members (fun n hn => ?_) (h _ hfields)
    obtain ⟨e, he, rfl⟩ := List.mem_map.1 hn
    obtain ⟨hmem, hne⟩ := List.mem_filter.1 he
    have hname := names_ordered (List.mem_map_of_mem hmem)
    rw [← hnames]
    exact (List.mem_cons.1 hname).resolve_left (by simpa using hne)
  rw [Json.ordered]
  simp only [Interaction.decode, htype, Json.ordered, Interaction.readingOf, hkind]
  change (record.decode _).map wrap = _
  rw [hdecode]
  rfl

theorem decode_interaction {i : Interaction} (h : Bounded i) :
    Interaction.decode i.toJson.ordered = .ok i := by
  cases i with
  | choice i =>
    obtain ⟨response, shuffle, maxChoices, minChoices, prompt, choices⟩ := i
    refine decode_tagged ChoiceInteraction.record rfl rfl (by decide) fun members hm => ?_
    simp only [Holds, List.forall_mem_cons] at hm
    obtain ⟨hresponse, hshuffle, hmax, hmin, hprompt, hchoices, -⟩ := hm
    refine take_field (take_field (take_field (take_field (take_field (take_field rfl
      hresponse rfl) hshuffle rfl) hmax (natural32_ofNat h.1)) hmin (natural32_ofNat h.2))
      hprompt ?_) hchoices (decode_list fun c _ => decode_choice c)
    cases prompt <;> rfl
  | order i =>
    obtain ⟨response, shuffle, prompt, choices⟩ := i
    refine decode_tagged OrderInteraction.record rfl rfl (by decide) fun members hm => ?_
    simp only [Holds, List.forall_mem_cons] at hm
    obtain ⟨hresponse, hshuffle, hprompt, hchoices, -⟩ := hm
    refine take_field (take_field (take_field (take_field rfl hresponse rfl) hshuffle rfl)
      hprompt ?_) hchoices (decode_list fun c _ => decode_choice c)
    cases prompt <;> rfl
  | textEntry i =>
    obtain ⟨response, expectedLength⟩ := i
    refine decode_tagged TextEntry.record rfl rfl (by decide) fun members hm => ?_
    simp only [Holds, List.forall_mem_cons] at hm
    obtain ⟨hresponse, hlength, -⟩ := hm
    refine take_field (take_field rfl hresponse rfl) hlength ?_
    cases expectedLength with
    | none => rfl
    | some n => exact congrArg (Except.map some) (natural32_ofNat (h n rfl))
  | inlineChoice i =>
    obtain ⟨response, shuffle, choices⟩ := i
    refine decode_tagged InlineChoice.record rfl rfl (by decide) fun members hm => ?_
    simp only [Holds, List.forall_mem_cons] at hm
    obtain ⟨hresponse, hshuffle, hchoices, -⟩ := hm
    exact take_field (take_field (take_field rfl hresponse rfl) hshuffle rfl)
      hchoices (decode_list fun c _ => decode_option c)

mutual

theorem ofJson?_node : ∀ node : Node, Node.ofJson? node.toJson.ordered = some node
  | .text content => rfl
  | .math markup => rfl
  | .paragraph content => by
    change (Node.allOfJson? (Json.orderedElements (Node.listToJson content))).map Node.paragraph = _
    rw [allOfJson?_nodes content]
    rfl
  | .inlineSlot slot => rfl
  | .blockSlot slot => rfl

theorem allOfJson?_nodes :
    ∀ nodes : List Node, Node.allOfJson? (Json.orderedElements (Node.listToJson nodes)) = some nodes
  | [] => rfl
  | node :: rest => by
    rw [Node.listToJson, Json.orderedElements, Node.allOfJson?, ofJson?_node node,
      allOfJson?_nodes rest]
    rfl

end

theorem decode_content (c : Content) : Content.decode c.toJson.ordered = .ok c := by
  cases c with
  | markup t => rfl
  | nodes ns =>
    simp only [Content.toJson, Json.ordered, Content.decode, Node.listOfJson?, allOfJson?_nodes]

theorem decode_feedback (f : Feedback) : Feedback.record.decode f.toJson.ordered = .ok f := by
  obtain ⟨correct, incorrect⟩ := f
  refine decode_ordered rfl (by decide) fun members h => ?_
  simp only [Holds, List.forall_mem_cons] at h
  obtain ⟨hcorrect, hincorrect, -⟩ := h
  exact take_field (take_field rfl hcorrect (decode_content correct)) hincorrect
    (decode_content incorrect)

/-- A specification as it is read: its kind is known, and its parameters are ordered and hold
neither kind nor description. -/
structure Tidy (s : WidgetSpec) : Prop where
  known : UnknownKinds.Known .widget s.kind
  ordered : Ordered (.object s.parameters)
  no_type : "type".toList ∉ Table.names s.parameters
  no_alt : "alt".toList ∉ Table.names s.parameters

def heading (s : WidgetSpec) : Table Json :=
  ("type", .string s.kind) :: (s.alt.map fun alt => (("alt", .string alt) : Text × Json)).toList

theorem toJson_spec (s : WidgetSpec) : s.toJson = .object (heading s ++ s.parameters) := by
  obtain ⟨kind, alt, parameters⟩ := s
  cases alt <;> rfl

theorem mem_heading {s : WidgetSpec} {n : Text} (h : n ∈ Table.names (heading s)) :
    n = "type" ∨ n = "alt" := by
  obtain ⟨kind, alt, parameters⟩ := s
  cases alt with
  | none => exact .inl (List.mem_singleton.1 h)
  | some alt => simpa [heading, Table.names] using h

theorem find?_heading (s : WidgetSpec) :
    Table.find? "alt" (heading s) = s.alt.map Json.string := by
  obtain ⟨kind, alt, parameters⟩ := s
  cases alt <;> rfl

theorem Tidy.nodup {s : WidgetSpec} (h : Tidy s) :
    (Table.names (heading s ++ s.parameters)).Nodup := by
  have hheading : (Table.names (heading s)).Nodup := by
    obtain ⟨kind, alt, parameters⟩ := s
    cases alt <;> simp [heading, Table.names]
  rw [Table.names, List.map_append]
  refine List.nodup_append.2 ⟨hheading, (ordered_object_iff.1 h.ordered).1.nodup, ?_⟩
  rintro n hn m hm rfl
  rcases mem_heading hn with rfl | rfl
  · exact h.no_type hm
  · exact h.no_alt hm

/-- Without the entries for kind and description, the parameters are left. -/
theorem Tidy.erase {s : WidgetSpec} (h : Tidy s) :
    Table.erase "type" (Table.erase "alt"
      (Table.ofEntries (Json.orderedMembers (heading s ++ s.parameters)))) = s.parameters := by
  obtain ⟨hascending, hvalues⟩ := ordered_object_iff.1 h.ordered
  refine Ascending.ext ?_ hascending fun name => ?_
  · exact ((ascending_ofEntries _).sublist List.filter_sublist).sublist List.filter_sublist
  · rw [find?_erase, find?_erase, find?_ordered h.nodup, find?_append]
    split_ifs with hname hname'
    · rw [hname]
      exact (find?_eq_none.2 h.no_type).symm
    · rw [hname']
      exact (find?_eq_none.2 h.no_alt).symm
    · have hnone : Table.find? name (heading s) = none :=
        find?_eq_none.2 fun hmem => (mem_heading hmem).elim hname hname'
      rw [hnone, Option.none_or]
      cases hfind : Table.find? name s.parameters with
      | none => rfl
      | some v => exact congrArg some (hvalues _ (mem_of_find? hfind))

theorem decode_spec {s : WidgetSpec} (h : Tidy s) :
    WidgetSpec.decode s.toJson.ordered = .ok s := by
  have htype := find?_ordered h.nodup "type"
  have halt : Table.find? "alt" (Table.ofEntries (Json.orderedMembers
      (heading s ++ s.parameters))) = s.alt.map Json.string := by
    rw [find?_ordered h.nodup, find?_append, find?_heading, find?_eq_none.2 h.no_alt]
    cases s.alt <;> rfl
  have hfields : WidgetSpec.fields.ofMembers (Table.ofEntries (Json.orderedMembers
      (heading s ++ s.parameters))) = .ok (s.kind, s.alt) := by
    cases hs : s.alt with
    | none =>
      rw [hs] at halt
      exact andThen_eq_ok.2
        ⟨_, none, take_field rfl htype rfl, field_eq_ok.2 (.inr ⟨halt, rfl⟩), rfl⟩
    | some alt =>
      rw [hs] at halt
      exact take_field (take_field rfl htype rfl) halt rfl
  simp only [toJson_spec, Json.ordered, WidgetSpec.decode, hfields, h.erase]

theorem gives_choice {good : Json → Prop} :
    Gives (Parts good) ChoiceInteraction.record.decode fun i => Bounded (.choice i) := by
  refine Yields.gives (.skip (.skip (.andThen gives_natural32 ?_ (.andThen gives_natural32 ?_
    (.skip (.skip (yields_nothing ?_)))))))
  · decide
  · decide
  · intro response shuffle maxChoices hmax minChoices hmin prompt choices
    exact ⟨hmax, hmin⟩

theorem gives_textEntry {good : Json → Prop} :
    Gives (Parts good) TextEntry.record.decode fun i => Bounded (.textEntry i) := by
  refine Yields.gives (.andThen (gives_optional gives_natural32) ?_ (.skip (yields_nothing ?_)))
  · rintro _ ⟨⟩ n hn
    cases hn
  · intro response expectedLength h
    exact h

theorem bounded_of_reading {tag v : Json} {reading : Decoder Interaction} {i : Interaction}
    (htag : Interaction.readingOf tag = .ok reading) (h : reading v = .ok i) : Bounded i := by
  cases tag with
  | string name =>
    have hmem := mem_of_named htag
    simp only [Interaction.readings, List.mem_cons, Prod.mk.injEq, List.not_mem_nil,
      or_false] at hmem
    rcases hmem with ⟨-, rfl⟩ | ⟨-, rfl⟩ | ⟨-, rfl⟩ | ⟨-, rfl⟩
    · obtain ⟨i, hi, rfl⟩ := map_eq_ok.1 h
      exact gives_choice v i (parts_true v) hi
    · obtain ⟨i, -, rfl⟩ := map_eq_ok.1 h
      trivial
    · obtain ⟨i, hi, rfl⟩ := map_eq_ok.1 h
      exact gives_textEntry v i (parts_true v) hi
    · obtain ⟨i, -, rfl⟩ := map_eq_ok.1 h
      trivial
  | _ => cases htag

theorem bounded_of_decode {v : Json} {i : Interaction} (h : Interaction.decode v = .ok i) :
    Bounded i := by
  unfold Interaction.decode at h
  split at h
  · split at h
    · contradiction
    · obtain ⟨reading, htag, h⟩ := bind_eq_ok.1 h
      exact bounded_of_reading htag h
  · contradiction
  · obtain ⟨reading, htag, h⟩ := bind_eq_ok.1 h
    exact bounded_of_reading htag h
  · contradiction

/-- Widgets that are read from ordered values are tidy if their kinds are known. -/
theorem tidy_of_decode {members : Table Json} {s : WidgetSpec} (hv : Ordered (.object members))
    (hknown : ∀ kind, UnknownKinds.TypedObject (.object members) kind →
      UnknownKinds.Known .widget kind)
    (h : WidgetSpec.decode (.object members) = .ok s) : Tidy s := by
  simp only [WidgetSpec.decode] at h
  split at h
  · next kind alt hfields =>
    obtain rfl := Except.ok.inj h
    obtain ⟨hascending, hvalues⟩ := ordered_object_iff.1 hv
    refine ⟨hknown kind ?_, ordered_object_iff.2 ⟨?_, ?_⟩, ?_, ?_⟩
    · obtain ⟨f, _, hbefore, -, heq⟩ := andThen_eq_ok.1 hfields
      obtain ⟨g, k, hnothing, hkind, rfl⟩ := andThen_eq_ok.1 hbefore
      obtain rfl := Except.ok.inj hnothing
      obtain ⟨rfl, -⟩ := Prod.mk.inj heq
      rcases field_eq_ok.1 hkind with ⟨v, hv, hk⟩ | ⟨-, hk⟩
      · cases v with
        | string t =>
          obtain rfl := Except.ok.inj hk
          exact .intro hv
        | _ => cases hk
      · cases hk
    · exact (hascending.sublist List.filter_sublist).sublist List.filter_sublist
    · exact fun m hm => hvalues m (List.mem_of_mem_filter (List.mem_of_mem_filter hm))
    · rw [← find?_eq_none, find?_erase, if_pos rfl]
    · rw [← find?_eq_none, find?_erase, if_neg (by decide), find?_erase, if_pos rfl]
  · contradiction

end AssessmentItems.ReadItems
