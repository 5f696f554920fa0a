import AssessmentItems.Item
import Mathlib.Tactic.Common

/-!
Kinds that there are not. An item names the kinds of its interactions and widgets in several
shapes: it is an object or an array itself, and so is each interaction. An unknown kind is
reported as such exactly if it is exposed, under `type` of an object in an item that is an object.
-/
namespace AssessmentItems.UnknownKinds

open AssessmentItem

/-- The entries of a section of an item: the member of its name, or the element at its position. -/
inductive Section (name : Text) (position : ℕ) : Json → Table Json → Prop
  | member {members entries : Table Json}
    (h : Table.find? name members = some (.object entries)) :
    Section name position (.object members) entries
  | element {elements : List Json} {entries : Table Json}
    (h : elements[position]? = some (.object entries)) :
    Section name position (.array elements) entries

inductive TypedObject : Json → Text → Prop
  | intro {members : Table Json} {kind : Text}
    (h : Table.find? "type" members = some (.string kind)) : TypedObject (.object members) kind

inductive TypedArray : Json → Text → Prop
  | intro {kind : Text} {rest : List Json} : TypedArray (.array (.string kind :: rest)) kind

inductive Names (v : Json) : Category → Text → Prop
  | interaction {entries : Table Json} {slot kind : Text} {entry : Json}
    (hsection : Section "interactions" 5 v entries) (hentry : (slot, entry) ∈ entries)
    (hkind : TypedObject entry kind ∨ TypedArray entry kind) : Names v .interaction kind
  | widget {entries : Table Json} {slot kind : Text} {entry : Json}
    (hsection : Section "widgets" 4 v entries) (hentry : (slot, entry) ∈ entries)
    (hkind : TypedObject entry kind) : Names v .widget kind

def Known : Category → Text → Prop
  | .interaction, kind => kind ∈ Interaction.kinds
  | .widget, kind => ∃ w : WidgetKind, w.name = kind

def Unknown (v : Json) (category : Category) (kind : Text) : Prop :=
  Names v category kind ∧ ¬ Known category kind

def sectionName : Category → Text
  | .interaction => "interactions"
  | .widget => "widgets"

/-- An unknown kind of an object in an item that is an object. -/
def Exposed (v : Json) (category : Category) (kind : Text) : Prop :=
  ¬ Known category kind ∧ ∃ members entries slot entry, v = .object members ∧
    Table.find? (sectionName category) members = some (.object entries) ∧
    (slot, entry) ∈ entries ∧ TypedObject entry kind

theorem Exposed.unknown {v : Json} {category : Category} {kind : Text}
    (h : Exposed v category kind) : Unknown v category kind := by
  obtain ⟨hunknown, members, entries, slot, entry, rfl, hsection, hentry, hkind⟩ := h
  refine ⟨?_, hunknown⟩
  cases category with
  | interaction => exact .interaction (.member hsection) hentry (.inl hkind)
  | widget => exact .widget (.member hsection) hentry hkind

theorem entryKind?_eq_some {entry : Json} {kind : Text} :
    entryKind? entry = some kind ↔ TypedObject entry kind := by
  constructor
  · intro h
    cases entry with
    | object members =>
      obtain ⟨tag, htag, hkind⟩ := Option.bind_eq_some_iff.1 h
      cases tag with
      | string t =>
        obtain rfl := Option.some.inj hkind
        exact .intro htag
      | _ => cases hkind
    | _ => cases h
  · rintro ⟨h⟩
    exact Option.bind_eq_some_iff.2 ⟨_, h, rfl⟩

theorem mem_sectionKinds {v : Json} {category : Category} {kind : Text} :
    kind ∈ sectionKinds (sectionName category) v ↔
      ∃ members entries slot entry, v = .object members ∧
        Table.find? (sectionName category) members = some (.object entries) ∧
        (slot, entry) ∈ entries ∧ TypedObject entry kind := by
  constructor
  · intro h
    unfold sectionKinds at h
    split at h
    · next entries hsection =>
      obtain ⟨⟨slot, entry⟩, hentry, hkind⟩ := List.mem_filterMap.1 h
      cases v with
      | object members =>
        exact ⟨members, entries, slot, entry, rfl, hsection, hentry, entryKind?_eq_some.1 hkind⟩
      | _ => cases hsection
    · exact absurd h List.not_mem_nil
  · rintro ⟨members, entries, slot, entry, rfl, hsection, hentry, hkind⟩
    have hget : (Json.object members).get? (sectionName category) = some (.object entries) :=
      hsection
    rw [sectionKinds, hget]
    exact List.mem_filterMap.2 ⟨_, hentry, entryKind?_eq_some.2 hkind⟩

theorem exists_kind {kind : Text} :
    (∃ w : WidgetKind, w.name = kind) ↔ (WidgetKind.ofName? kind).isSome = true := by
  rw [WidgetKind.ofName?, List.find?_isSome]
  constructor
  · rintro ⟨w, hw⟩
    refine ⟨w, ?_, decide_eq_true hw⟩
    cases w <;> decide
  · rintro ⟨w, -, hw⟩
    exact ⟨w, of_decide_eq_true hw⟩

theorem not_known_interaction {kind : Text} :
    ¬ Known .interaction kind ↔ decide (kind ∉ Interaction.kinds) = true := by
  rw [Known, decide_eq_true_iff]

theorem not_known_widget {kind : Text} :
    ¬ Known .widget kind ↔ (WidgetKind.ofName? kind).isNone = true := by
  rw [Known, exists_kind, Option.isNone_iff_eq_none, Option.not_isSome_iff_eq_none]

/-- The first kind that is unknown is that of an interaction, or else of a widget. -/
theorem exposed_of_unsupported? {v : Json} {category : Category} {kind : Text}
    (h : unsupported? v = some (category, kind)) : Exposed v category kind := by
  rw [unsupported?, Option.orElse_eq_orElse, Option.orElse_eq_or, Option.or_eq_some_iff] at h
  rcases h with h | ⟨-, h⟩
  · obtain ⟨found, hfind, heq⟩ := Option.map_eq_some_iff.1 h
    obtain ⟨rfl, rfl⟩ := Prod.mk.inj heq
    have hunknown := List.find?_some hfind
    exact ⟨not_known_interaction.2 hunknown,
      mem_sectionKinds.1 (List.mem_of_find?_eq_some hfind)⟩
  · obtain ⟨found, hfind, heq⟩ := Option.map_eq_some_iff.1 h
    obtain ⟨rfl, rfl⟩ := Prod.mk.inj heq
    have hunknown := List.find?_some hfind
    exact ⟨not_known_widget.2 hunknown,
      mem_sectionKinds.1 (List.mem_of_find?_eq_some hfind)⟩

theorem exists_unsupported? {v : Json} {category : Category} {kind : Text}
    (h : Exposed v category kind) : ∃ report, unsupported? v = some report := by
  obtain ⟨hunknown, hkind⟩ := h
  rw [← Option.isSome_iff_exists, unsupported?, Option.orElse_eq_orElse, Option.orElse_eq_or,
    Option.isSome_or, Bool.or_eq_true, Option.isSome_map, Option.isSome_map, List.find?_isSome,
    List.find?_isSome]
  cases category with
  | interaction => exact .inl ⟨kind, mem_sectionKinds.2 hkind, not_known_interaction.1 hunknown⟩
  | widget => exact .inr ⟨kind, mem_sectionKinds.2 hkind, not_known_widget.1 hunknown⟩

theorem ofJson_eq_unsupported {v : Json} {category : Category} {kind : Text} :
    ofJson v = .error (.unsupported category kind) ↔ unsupported? v = some (category, kind) := by
  unfold ofJson
  cases h : unsupported? v with
  | some report =>
    obtain ⟨c, k⟩ := report
    simp
  | none =>
    dsimp only
    cases record.decode v with
    | error e => exact ⟨nofun, nofun⟩
    | ok item => exact ⟨nofun, nofun⟩

theorem ofJson_unsupported_exposed {v : Json} {category : Category} {kind : Text}
    (h : ofJson v = .error (.unsupported category kind)) : Exposed v category kind :=
  exposed_of_unsupported? (ofJson_eq_unsupported.1 h)

theorem exists_ofJson_unsupported {v : Json} (h : ∃ category kind, Exposed v category kind) :
    ∃ category kind, Exposed v category kind ∧
      ofJson v = .error (.unsupported category kind) := by
  obtain ⟨category, kind, hexposed⟩ := h
  obtain ⟨⟨c, k⟩, hreport⟩ := exists_unsupported? hexposed
  exact ⟨c, k, exposed_of_unsupported? hreport, ofJson_eq_unsupported.2 hreport⟩

/-- If an unknown kind is named, such a kind is reported; nothing else is. -/
def ReportsUnknown (v : Json) : Prop :=
  ((∃ category kind, Unknown v category kind) →
    ∃ category kind, Unknown v category kind ∧
      ofJson v = .error (.unsupported category kind)) ∧
  ∀ category kind, ofJson v = .error (.unsupported category kind) → Unknown v category kind

/-- A value is read as one with an unknown kind exactly if it exposes one, and the report names
one that it exposes. So unknown kinds are reported exactly if one is exposed wherever one is
named. -/
theorem unknown_reported_iff_exposed (v : Json) :
    (∀ category kind, ofJson v = .error (.unsupported category kind) →
      Exposed v category kind) ∧
    ((∃ category kind, ofJson v = .error (.unsupported category kind)) ↔
      ∃ category kind, Exposed v category kind) ∧
    (ReportsUnknown v ↔
      ((∃ category kind, Unknown v category kind) → ∃ category kind, Exposed v category kind)) := by
  refine ⟨fun _ _ => ofJson_unsupported_exposed, ⟨?_, ?_⟩, ?_, ?_⟩
  · rintro ⟨category, kind, h⟩
    exact ⟨category, kind, ofJson_unsupported_exposed h⟩
  · intro h
    obtain ⟨category, kind, -, hreport⟩ := exists_ofJson_unsupported h
    exact ⟨category, kind, hreport⟩
  · rintro ⟨hreported, -⟩ hunknown
    obtain ⟨category, kind, -, hreport⟩ := hreported hunknown
    exact ⟨category, kind, ofJson_unsupported_exposed hreport⟩
  · intro hexposed
    refine ⟨fun hunknown => ?_, fun _ _ h => (ofJson_unsupported_exposed h).unknown⟩
    obtain ⟨category, kind, h, hreport⟩ := exists_ofJson_unsupported (hexposed hunknown)
    exact ⟨category, kind, h.unknown, hreport⟩

def spaceship : Json :=
  .array [.string "unknown", .string "Unknown", .string "<p>Q</p>",
    .array [.object [("baseType", .string "string"), ("cardinality", .string "single"),
      ("correct", .string "x"), ("identifier", .string "R")]],
    .object [("w", .object [("type", .string "spaceship")])],
    .object [],
    .object [("correct", .string "<p>yes</p>"), ("incorrect", .string "<p>no</p>")]]

/-- The item that names a kind that there is not is read without an error. -/
theorem spaceship_accepted : (ofJson spaceship).isOk = true ∧ ¬ ReportsUnknown spaceship := by
  refine ⟨by decide, fun h => ?_⟩
  have hwidget : Names spaceship .widget "spaceship" :=
    .widget (.element rfl) (List.mem_singleton.2 rfl) (.intro rfl)
  have hunknown : ¬ Known .widget "spaceship" := not_known_widget.2 (by decide)
  obtain ⟨category, kind, -, hreport⟩ := h.1 ⟨_, _, hwidget, hunknown⟩
  obtain ⟨-, members, -, -, -, hobject, -⟩ := ofJson_unsupported_exposed hreport
  exact Json.noConfusion hobject

end AssessmentItems.UnknownKinds
