import AssessmentItems.Proofs.ItemDepth
import AssessmentItems.Proofs.ReadDepth
import AssessmentItems.Proofs.WrittenValues

/-!
Items that are written and read again. An item that was read has tables in ascending order,
widgets of known kinds whose parameters are ordered, and counts that fit; such an item is read
back from its JSON form, and from the text of that form if its numbers are.
-/
namespace AssessmentItems.SerializedItems

open Decoding Tables JsonValues Results ReadRecords ReadItems ItemDepth WrittenValues ReadDepth
open UnknownKinds AssessmentItem JsonReader

structure Readable (item : AssessmentItem) : Prop where
  widgets : Ascending item.widgets
  tidy : ∀ e ∈ item.widgets, Tidy e.2
  interactions : Ascending item.interactions
  bounded : ∀ e ∈ item.interactions, Bounded e.2

theorem entries_eq {α : Type} (encode : α → Json) (table : Table α) :
    entries encode table = .object (table.map (Prod.map id encode)) := rfl

theorem typed_ordered {entries : List (Text × Json)} {kind k : Text}
    (hnodup : (Table.names (("type", Json.string kind) :: entries)).Nodup)
    (h : TypedObject (Json.object (("type", .string kind) :: entries)).ordered k) : k = kind := by
  rw [Json.ordered] at h
  obtain ⟨h⟩ := h
  rw [holds_ordered hnodup _ List.mem_cons_self] at h
  exact (Json.string.inj (Option.some.inj h)).symm

theorem typed_interaction {i : Interaction} {k : Text} (h : TypedObject i.toJson.ordered k) :
    k = i.kind := by
  cases i <;> exact typed_ordered (by simp [Table.names]) h

theorem known_interaction (i : Interaction) : Known .interaction i.kind := by
  cases i with
  | choice i => exact .head _
  | order i => exact .tail _ (.head _)
  | textEntry i => exact .tail _ (.tail _ (.head _))
  | inlineChoice i => exact .tail _ (.tail _ (.tail _ (.head _)))

theorem typed_spec {s : WidgetSpec} {k : Text} (hs : Tidy s) (h : TypedObject s.toJson.ordered k) :
    k = s.kind := by
  rw [toJson_spec] at h
  exact typed_ordered hs.nodup h

/-- In a table of values in JSON form, each entry comes from one of the table. -/
theorem exists_of_mem_entries {α : Type} {encode : α → Json} {table : Table α}
    {members : Table Json} {e : Text × Json}
    (hmembers : (entries encode table).ordered = .object members)
    (he : e ∈ members) : ∃ a, (e.1, a) ∈ table ∧ e.2 = (encode a).ordered := by
  rw [entries_eq, Json.ordered] at hmembers
  obtain rfl := Json.object.inj hmembers
  obtain ⟨v, hv, heq⟩ := exists_of_mem_ordered he
  obtain ⟨⟨n, a⟩, ha, hpair⟩ := List.mem_map.1 hv
  obtain ⟨rfl, rfl⟩ := Prod.mk.inj hpair
  exact ⟨a, ha, heq⟩

def itemEntries (item : AssessmentItem) : List (Text × Json) :=
  [("identifier", .string item.identifier), ("title", .string item.title),
    ("body", item.body.toJson),
    ("responseDeclarations", .array (item.responseDeclarations.map ResponseDeclaration.toJson)),
    ("widgets", entries WidgetSpec.toJson item.widgets),
    ("interactions", entries Interaction.toJson item.interactions),
    ("feedback", item.feedback.toJson)]

theorem names_item (item : AssessmentItem) : Table.names (itemEntries item) = record.fields.names :=
  rfl

theorem nodup_item (item : AssessmentItem) : (Table.names (itemEntries item)).Nodup := by
  rw [names_item]
  decide

theorem Readable.not_exposed {item : AssessmentItem} (h : Readable item) {category : Category}
    {kind : Text} : ¬ Exposed item.toJson.ordered category kind := by
  rintro ⟨hunknown, members, entries, slot, entry, hmembers, hsection, hentry, hkind⟩
  obtain rfl := Json.object.inj hmembers
  have hholds := holds_ordered (nodup_item item)
  cases category with
  | interaction =>
    have hfind := hholds
      ("interactions", AssessmentItem.entries Interaction.toJson item.interactions)
      (by simp [itemEntries])
    obtain ⟨i, hi, rfl⟩ :=
      exists_of_mem_entries (Option.some.inj (hfind.symm.trans hsection)) hentry
    rw [typed_interaction hkind] at hunknown
    exact hunknown (known_interaction i)
  | widget =>
    have hfind := hholds ("widgets", AssessmentItem.entries WidgetSpec.toJson item.widgets)
      (by simp [itemEntries])
    obtain ⟨s, hs, rfl⟩ :=
      exists_of_mem_entries (Option.some.inj (hfind.symm.trans hsection)) hentry
    have htidy := h.tidy _ hs
    rw [typed_spec htidy hkind] at hunknown
    exact hunknown htidy.known

theorem Readable.decode {item : AssessmentItem} (h : Readable item) :
    record.decode item.toJson.ordered = .ok item := by
  have hwidgets : table WidgetSpec.decode (entries WidgetSpec.toJson item.widgets).ordered =
      .ok item.widgets := by
    rw [entries_eq]
    exact decode_table h.widgets fun e he => decode_spec (h.tidy e he)
  have hinteractions : table Interaction.decode
      (entries Interaction.toJson item.interactions).ordered = .ok item.interactions := by
    rw [entries_eq]
    exact decode_table h.interactions fun e he => decode_interaction (h.bounded e he)
  have hdeclarations : list ResponseDeclaration.record.decode
      (Json.array (item.responseDeclarations.map ResponseDeclaration.toJson)).ordered =
        .ok item.responseDeclarations :=
    decode_list fun d _ => decode_declaration d
  refine decode_ordered (names_item item) (names_item item ▸ nodup_item item) fun members hm => ?_
  obtain ⟨identifier, title, body, responseDeclarations, widgets, interactions, feedback⟩ := item
  simp only [Holds, List.forall_mem_cons] at hm
  obtain ⟨hm₁, hm₂, hm₃, hm₄, hm₅, hm₆, hm₇, -⟩ := hm
  exact take_field (take_field (take_field (take_field (take_field (take_field (take_field rfl
    hm₁ rfl) hm₂ rfl) hm₃ (decode_content body)) hm₄ hdeclarations) hm₅ hwidgets)
    hm₆ hinteractions) hm₇ (decode_feedback feedback)

theorem Readable.ofJson {item : AssessmentItem} (h : Readable item) :
    AssessmentItem.ofJson item.toJson.ordered = .ok item := by
  have hnone : unsupported? item.toJson.ordered = none := by
    cases hreport : unsupported? item.toJson.ordered with
    | none => rfl
    | some report => exact absurd (exposed_of_unsupported? hreport) h.not_exposed
  simp only [AssessmentItem.ofJson, hnone, h.decode]
  rfl

theorem widgets_of_decode {specs : Table Json} {ws : Table WidgetSpec}
    (hspecs : Ordered (.object specs))
    (hknown : ∀ e ∈ specs, ∀ kind, TypedObject e.2 kind → Known .widget kind)
    (h : table WidgetSpec.decode (.object specs) = .ok ws) :
    Ascending ws ∧ ∀ e ∈ ws, Tidy e.2 ∧ depth e.2.toJson < depth (.object specs) := by
  obtain ⟨hascending, hvalues⟩ := ordered_object_iff.1 hspecs
  refine ⟨?_, fun e he => ?_⟩
  · rw [Ascending, names_of_table h]
    exact hascending
  · obtain ⟨w, hw, hspec⟩ := exists_of_mem_table h he
    cases w with
    | object parameters =>
      exact ⟨tidy_of_decode (hvalues _ hw) (hknown _ hw) hspec,
        Nat.lt_of_le_of_lt (depth_spec hspec) (depth_lt_of_member hw)⟩
    | _ => cases hspec

theorem interactions_of_decode {members : Table Json} {is : Table Interaction}
    (hmembers : Ordered (.object members))
    (h : table Interaction.decode (.object members) = .ok is) :
    Ascending is ∧ ∀ e ∈ is, Bounded e.2 := by
  refine ⟨?_, fun e he => ?_⟩
  · rw [Ascending, names_of_table h]
    exact (ordered_object_iff.1 hmembers).1
  · obtain ⟨w, -, hinteraction⟩ := exists_of_mem_table h he
    exact bounded_of_decode hinteraction

/-- What is read from an ordered object can be read again, and its JSON form is nested no deeper
than the object, apart from the few levels that every item may have. -/
theorem readable_of_decode {members : Table Json} {item : AssessmentItem}
    (hordered : Ordered (.object members))
    (hknown : ∀ kind, ¬ Exposed (.object members) .widget kind)
    (h : record.decode (.object members) = .ok item) :
    Readable item ∧
      ∀ d, 4 ≤ d → depth (.object members) ≤ d + 1 → depth item.toJson ≤ d + 1 := by
  have hvalues := (ordered_object_iff.1 hordered).2
  have hless : ∀ {name v}, Table.find? name members = some v →
      depth v < depth (.object members) := fun hv => depth_lt_of_member (mem_of_find? hv)
  let good : Text → Json → Prop := fun name v => Table.find? name members = some v
  have hcontent : Gives (good "body") Content.decode fun c =>
      depth c.toJson < depth (.object members) := fun v c hv hc =>
    Nat.lt_of_le_of_lt (depth_content hc) (hless hv)
  have hfeedback : Gives (good "feedback") Feedback.record.decode fun f =>
      depth f.toJson < depth (.object members) := fun v f hv hf =>
    Nat.lt_of_le_of_lt (depth_feedback hf) (hless hv)
  have hwidgets : Gives (good "widgets") (table WidgetSpec.decode) fun ws =>
      Ascending ws ∧ ∀ e ∈ ws, Tidy e.2 ∧ depth e.2.toJson + 1 < depth (.object members) := by
    intro v ws hv hws
    cases v with
    | object specs =>
      have hlt := hless hv
      obtain ⟨hascending, hspecs⟩ := widgets_of_decode (hvalues _ (mem_of_find? hv))
        (fun e he kind hkind => by
          by_contra hunknown
          exact hknown kind ⟨hunknown, members, specs, e.1, e.2, rfl, hv, he, hkind⟩) hws
      refine ⟨hascending, fun e he => ⟨(hspecs e he).1, ?_⟩⟩
      have hdepth := (hspecs e he).2
      omega
    | _ => cases hws
  have hinteractions : Gives (good "interactions") (table Interaction.decode) fun is =>
      Ascending is ∧ ∀ e ∈ is, Bounded e.2 := by
    intro v is hv his
    cases v with
    | object tagged => exact interactions_of_decode (hvalues _ (mem_of_find? hv)) his
    | _ => cases his
  have hyields : Yields good record.fields fun item => Readable item ∧
      ∀ d, 4 ≤ d → depth (.object members) ≤ d + 1 → depth item.toJson ≤ d + 1 := by
    refine .andThen hfeedback nofun (.andThen hinteractions ?_ (.andThen hwidgets ?_
      (.skip (.andThen hcontent nofun (.skip (.skip (yields_nothing ?_)))))))
    · rintro _ ⟨⟩
      exact ⟨List.Pairwise.nil, nofun⟩
    · rintro _ ⟨⟩
      exact ⟨List.Pairwise.nil, nofun⟩
    · intro identifier title body hbody declarations ws hws is his feedback hfeedback
      refine ⟨⟨hws.1, fun e he => (hws.2 e he).1, his.1, his.2⟩, fun d hd hdepth => ?_⟩
      refine depth_item hd ?_ ?_ fun e he => ?_
      · dsimp only
        omega
      · dsimp only
        omega
      · have hlt := (hws.2 e he).2
        omega
  exact hyields.members members item (fun _ _ hv => hv) (ofMembers_of_decode h)

theorem readable_of_ofJson {members : List (Text × Json)} {item : AssessmentItem}
    (h : AssessmentItem.ofJson (Json.object members).ordered = .ok item) :
    Readable item ∧ ∀ d, 4 ≤ d → depth (Json.object members).ordered ≤ d + 1 →
      depth item.toJson ≤ d + 1 := by
  unfold AssessmentItem.ofJson at h
  split at h
  · contradiction
  · next hnone =>
    have hknown : ∀ kind, ¬ Exposed (Json.object members).ordered .widget kind := by
      intro kind hexposed
      obtain ⟨report, hreport⟩ := exists_unsupported? hexposed
      exact Option.some_ne_none report (hreport.symm.trans hnone)
    exact readable_of_decode (ordered_ordered (.object members)) hknown (mapError_eq_ok.1 h)

/-- The items that are read back from their JSON form are those that are read at all. -/
theorem ofJson_toJson_iff {item : AssessmentItem} :
    AssessmentItem.ofJson item.toJson.ordered = .ok item ↔ Readable item :=
  ⟨fun h => (readable_of_ofJson h).1, Readable.ofJson⟩

/-- The texts of an item, with the members of its objects as they are listed or in order, are
read as the item. -/
def ReadBack (item : AssessmentItem) : Prop :=
  ofText (JsonWriter.write item.toJson) = .ok item ∧ ofText item.canonical = .ok item

theorem Readable.readBack {item : AssessmentItem} (h : Readable item)
    (hdepth : depth item.toJson ≤ deepest) (hnumbers : ∀ n ∈ numbers item.toJson, Rereads n) :
    ReadBack item := by
  constructor
  · exact bind_eq_ok.2 ⟨_, mapError_eq_ok.2 (read_write hdepth hnumbers), h.ofJson⟩
  · exact bind_eq_ok.2 ⟨_, mapError_eq_ok.2 (read_canonical hdepth hnumbers), h.ofJson⟩

/-- An item that is read from an object, in whatever order its members come and whatever forms
are used in it, is read again from its own JSON form. If each of its numbers is read from the
text of the number, the item is also read from its texts, as long as the object is not nested
deeper than what is read from a text, and so whenever the object itself was. -/
theorem serialized_item_read_back {members : List (Text × Json)} {item : AssessmentItem}
    (h : AssessmentItem.ofJson (Json.object members).ordered = .ok item) :
    AssessmentItem.ofJson item.toJson.ordered = .ok item ∧
      ((∀ n ∈ numbers item.toJson, Rereads n) →
        (depth (Json.object members).ordered ≤ deepest → ReadBack item) ∧
          ∀ t, JsonReader.read t = .ok (Json.object members).ordered → ReadBack item) := by
  obtain ⟨hreadable, hdepth⟩ := readable_of_ofJson h
  refine ⟨hreadable.ofJson, fun hnumbers => ?_⟩
  have hback : depth (Json.object members).ordered ≤ deepest → ReadBack item := fun hle =>
    hreadable.readBack (hdepth 126 (by decide) hle) hnumbers
  exact ⟨hback, fun t ht => hback (depth_of_read ht)⟩

/-- An item in other forms than its own: members out of order, records and nodes as arrays, a
variant as an object, and null for what is not given. -/
def authored : List (Text × Json) :=
  [("title", .string "Line"), ("identifier", .string "line"),
    ("feedback", .array [.string "<p>yes</p>", .string "<p>no</p>"]),
    ("body", .array [.array [.string "paragraph", .array [.array [.string "text", .string "Q"]]],
      .object [("type", .string "blockSlot"), ("slot", .string "w")]]),
    ("interactions", .object [("q", .array [.string "textEntry", .string "R", .null])]),
    ("responseDeclarations", .array [.array [.string "R", .object [("single", .null)],
      .string "integer", .number (.integer 3)]]),
    ("widgets", .object [("w", .object [("type", .string "numberLine"),
      ("tickInterval", .number (.integer 1)), ("min", .number (.integer 0)),
      ("alt", .null), ("max", .number (.integer 5))])])]

def authoredItem : AssessmentItem where
  identifier := "line"
  title := "Line"
  body := .nodes [.paragraph [.text "Q"], .blockSlot "w"]
  responseDeclarations := [⟨"R", .single, .integer, .scalar (.number (.integer 3))⟩]
  widgets := [("w", ⟨"numberLine", none, [("max", .number (.integer 5)),
    ("min", .number (.integer 0)), ("tickInterval", .number (.integer 1))]⟩)]
  interactions := [("q", .textEntry ⟨"R", none⟩)]
  feedback := ⟨.markup "<p>yes</p>", .markup "<p>no</p>"⟩

theorem authored_read_back :
    AssessmentItem.ofJson (Json.object authored).ordered = .ok authoredItem ∧
      AssessmentItem.ofJson authoredItem.toJson.ordered = .ok authoredItem ∧
        ReadBack authoredItem := by
  have hread : AssessmentItem.ofJson (Json.object authored).ordered = .ok authoredItem := rfl
  have hnumbers : ∀ n ∈ numbers authoredItem.toJson, Rereads n := by
    intro n hn
    have hcases : n ∈ [JsonNumber.integer 3, .integer 5, .integer 0, .integer 1] := hn
    simp only [List.mem_cons, List.not_mem_nil, or_false] at hcases
    rcases hcases with rfl | rfl | rfl | rfl <;> rfl
  obtain ⟨hvalue, htexts⟩ := serialized_item_read_back hread
  exact ⟨hread, hvalue, (htexts hnumbers).1 (by decide)⟩

end AssessmentItems.SerializedItems
