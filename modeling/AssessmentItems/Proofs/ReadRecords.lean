import AssessmentItems.Decoding
import AssessmentItems.Proofs.JsonValues
import AssessmentItems.Proofs.Results

/-!
Records that are read. A record is read from its fields in whatever order they stand among the
members; and what is read, from an object or an array, has the properties that follow from those
of the values of its fields.
-/
namespace AssessmentItems.ReadRecords

open Decoding Tables JsonValues Results

variable {α β : Type} {name : Text} {decode : Decoder α} {absent : Option α}

theorem field_eq_ok {position : ℕ} {members : Table Json} {a : α} :
    (Fields.field position name decode absent).ofMembers members = .ok a ↔
      (∃ v, Table.find? name members = some v ∧ decode v = .ok a) ∨
        (Table.find? name members = none ∧ absent = some a) := by
  cases hfind : Table.find? name members with
  | some v => simp [Fields.field, hfind, mapError_eq_ok]
  | none => cases absent <;> simp [Fields.field, hfind]

theorem andThen_eq_ok {before : Fields (α → β)} {members : Table Json} {b : β} :
    (before.andThen name decode absent).ofMembers members = .ok b ↔
      ∃ f a, before.ofMembers members = .ok f ∧
        (Fields.field before.names.length name decode absent).ofMembers members = .ok a ∧
          f a = b := by
  simp only [Fields.andThen]
  cases before.ofMembers members <;>
    cases (Fields.field before.names.length name decode absent).ofMembers members <;> simp

/-- A field that is found and in order is taken over. -/
theorem take_field {before : Fields (α → β)} {members : Table Json} {f : α → β} {v : Json} {a : α}
    (hbefore : before.ofMembers members = .ok f) (hfind : Table.find? name members = some v)
    (hdecode : decode v = .ok a) :
    (before.andThen name decode absent).ofMembers members = .ok (f a) :=
  andThen_eq_ok.2 ⟨f, a, hbefore, field_eq_ok.2 (.inl ⟨v, hfind, hdecode⟩), rfl⟩

theorem decode_members {record : Record α} {members : Table Json} {a : α}
    (hnames : ∀ n ∈ Table.names members, n ∈ record.fields.names)
    (h : record.fields.ofMembers members = .ok a) : record.decode (.object members) = .ok a := by
  have hunknown : record.unknown? members = none := by
    unfold Record.unknown?
    split_ifs
    · rw [Option.map_eq_none_iff, List.find?_eq_none]
      intro n hn
      simpa using hnames n hn
    · rfl
  simp only [Record.decode, Record.ofMembers, h, hunknown]

/-- The members of an object stand under the same names when they are put in order. -/
theorem find?_ordered {entries : List (Text × Json)} (hnames : (Table.names entries).Nodup)
    (name : Text) : Table.find? name (Table.ofEntries (Json.orderedMembers entries)) =
      (Table.find? name entries).map Json.ordered := by
  rw [orderedMembers_eq, find?_ofEntries_of_nodup (by rwa [names_map]), find?_map]

theorem names_ordered {entries : List (Text × Json)} {n : Text}
    (h : n ∈ Table.names (Table.ofEntries (Json.orderedMembers entries))) :
    n ∈ Table.names entries := by
  obtain ⟨m, hm, rfl⟩ := List.mem_map.1 h
  obtain ⟨v, hv, -⟩ := exists_of_mem_ordered hm
  exact List.mem_map.2 ⟨_, hv, rfl⟩

/-- Members under which the entries of a record are found, each put in order. -/
def Holds (entries : List (Text × Json)) (members : Table Json) : Prop :=
  ∀ e ∈ entries, Table.find? e.1 members = some e.2.ordered

theorem holds_ordered {entries : List (Text × Json)} (hnames : (Table.names entries).Nodup) :
    Holds entries (Table.ofEntries (Json.orderedMembers entries)) := by
  intro e he
  rw [find?_ordered hnames, find?_of_mem hnames he]
  rfl

/-- A record is read from an object with its fields, in whatever order they come. -/
theorem decode_ordered {record : Record α} {entries : List (Text × Json)} {a : α}
    (hnames : Table.names entries = record.fields.names) (hnodup : record.fields.names.Nodup)
    (h : ∀ members, Holds entries members → record.fields.ofMembers members = .ok a) :
    record.decode (Json.object entries).ordered = .ok a :=
  decode_members (fun _ hn => hnames ▸ names_ordered hn) (h _ (holds_ordered (hnames ▸ hnodup)))

theorem decode_list {encode : α → Json} {as : List α}
    (h : ∀ a ∈ as, decode (encode a).ordered = .ok a) :
    list decode (Json.array (as.map encode)).ordered = .ok as := by
  rw [Json.ordered, orderedElements_eq, List.map_map]
  simp only [list]
  induction as with
  | nil => rfl
  | cons a as ih =>
    obtain ⟨hfirst, hrest⟩ := List.forall_mem_cons.1 h
    rw [List.map_cons, List.mapM_cons, Function.comp_apply, hfirst, ih hrest]
    rfl

theorem decode_table {encode : α → Json} {entries : Table α} (hentries : Ascending entries)
    (h : ∀ e ∈ entries, decode (encode e.2).ordered = .ok e.2) :
    table decode (Json.object (entries.map (Prod.map id encode))).ordered = .ok entries := by
  rw [Json.ordered, orderedMembers_eq,
    Ascending.ofEntries_eq (ascending_map.2 (ascending_map.2 hentries)), List.map_map]
  simp only [table]
  clear hentries
  induction entries with
  | nil => rfl
  | cons e entries ih =>
    obtain ⟨hfirst, hrest⟩ := List.forall_mem_cons.1 h
    obtain ⟨n, a⟩ := e
    rw [List.map_cons, List.mapM_cons, ih hrest]
    change (decode (encode a).ordered >>= fun b => Except.ok (n, b)) >>= _ = _
    rw [hfirst]
    rfl

/-- Whatever a value with one property is read as has another. -/
def Gives (good : Json → Prop) (decode : Decoder α) (P : α → Prop) : Prop :=
  ∀ v a, good v → decode v = .ok a → P a

/-- Whatever fields with a property are read as has another. -/
structure Yields (good : Text → Json → Prop) (fields : Fields α) (P : α → Prop) : Prop where
  members : ∀ members a, (∀ name v, Table.find? name members = some v → good name v) →
    fields.ofMembers members = .ok a → P a
  elements : ∀ elements a rest, (∀ v ∈ elements, ∀ name, good name v) →
    fields.ofElements elements = .ok (a, rest) → P a ∧ ∀ v ∈ rest, ∀ name, good name v

variable {good : Text → Json → Prop} {P : α → Prop}

theorem yields_nothing {a : α} (h : P a) : Yields good (Fields.nothing a) P where
  members _ b _ hb := Except.ok.inj hb ▸ h
  elements elements b rest hgood hb := by
    obtain ⟨rfl, rfl⟩ := Prod.mk.inj (Except.ok.inj hb)
    exact ⟨h, hgood⟩

theorem Yields.andThen {before : Fields (α → β)} {Q : β → Prop}
    (hdecode : Gives (good name) decode P)
    (habsent : ∀ a ∈ absent, P a) (h : Yields good before fun f => ∀ a, P a → Q (f a)) :
    Yields good (before.andThen name decode absent) Q where
  members members b hgood hb := by
    obtain ⟨f, a, hf, ha, rfl⟩ := andThen_eq_ok.1 hb
    refine h.members members f hgood hf a ?_
    rcases field_eq_ok.1 ha with ⟨v, hv, ha⟩ | ⟨-, ha⟩
    · exact hdecode v a (hgood name v hv) ha
    · exact habsent a ha
  elements elements b rest hgood hb := by
    obtain ⟨⟨f, held⟩, hf, hb⟩ := bind_eq_ok.1 hb
    obtain ⟨⟨a, rest'⟩, ha, hb⟩ := bind_eq_ok.1 hb
    obtain ⟨rfl, rfl⟩ := Prod.mk.inj (Except.ok.inj hb)
    obtain ⟨hP, hheld⟩ := h.elements elements f held hgood hf
    cases held with
    | nil =>
      cases absent with
      | none => cases ha
      | some default =>
        obtain ⟨rfl, rfl⟩ := Prod.mk.inj (Except.ok.inj ha)
        exact ⟨hP _ (habsent _ rfl), nofun⟩
    | cons v held =>
      simp only [Fields.field] at ha
      cases hv : decode v with
      | error cause => simp [hv] at ha
      | ok value =>
        simp only [hv, Except.ok.injEq, Prod.mk.injEq] at ha
        obtain ⟨rfl, rfl⟩ := ha
        obtain ⟨hfirst, hheld⟩ := List.forall_mem_cons.1 hheld
        exact ⟨hP _ (hdecode v _ (hfirst name) hv), hheld⟩

/-- A field whose value does not matter. -/
theorem Yields.skip {before : Fields (α → β)} {Q : β → Prop}
    (h : Yields good before fun f => ∀ a, Q (f a)) :
    Yields good (before.andThen name decode absent) Q := by
  refine Yields.andThen (P := fun _ => True) (fun _ _ _ _ => trivial) (fun _ _ => trivial) ?_
  exact ⟨fun members f hgood hf a _ => h.members members f hgood hf a,
    fun elements f rest hgood hf =>
      ⟨fun a _ => (h.elements elements f rest hgood hf).1 a,
        (h.elements elements f rest hgood hf).2⟩⟩

/-- A record is read from the fields of an object, if from an object at all. -/
theorem ofMembers_of_decode {record : Record α} {members : Table Json} {a : α}
    (h : record.decode (.object members) = .ok a) : record.fields.ofMembers members = .ok a := by
  simp only [Record.decode, Record.ofMembers] at h
  split at h
  · next hmembers _ =>
    obtain rfl := Except.ok.inj h
    exact hmembers
  all_goals contradiction

def Parts (good : Json → Prop) : Json → Prop
  | .array elements => ∀ v ∈ elements, good v
  | .object members => ∀ m ∈ members, good m.2
  | _ => True

theorem parts_true (v : Json) : Parts (fun _ => True) v := by
  cases v with
  | array elements => exact fun _ _ => trivial
  | object members => exact fun _ _ => trivial
  | _ => trivial

theorem Yields.gives {good : Json → Prop} {record : Record α}
    (h : Yields (fun _ => good) record.fields P) : Gives (Parts good) record.decode P := by
  intro v a hv ha
  cases v with
  | object members =>
    refine h.members members a (fun name w hw => ?_) (ofMembers_of_decode ha)
    exact hv _ (mem_of_find? hw)
  | array elements =>
    simp only [Record.decode, Record.ofElements] at ha
    split at ha
    · contradiction
    · contradiction
    · next helements =>
      obtain rfl := Except.ok.inj ha
      exact (h.elements _ _ _ (fun w hw _ => hv w hw) helements).1
    · contradiction
  | _ => cases ha

theorem gives_optional {good : Json → Prop} (h : Gives good decode P) :
    Gives good (Decoding.optional decode) fun o => ∀ a ∈ o, P a := by
  intro v o hv ho a ha
  obtain rfl := Option.mem_def.1 ha
  cases v with
  | null => cases ho
  | _ =>
    obtain ⟨b, hb, heq⟩ := map_eq_ok.1 ho
    obtain rfl := Option.some.inj heq
    exact h _ b hv hb

theorem gives_natural32 {good : Json → Prop} : Gives good natural32 (· < Nat.pow 2 32) := by
  intro v n _ hn
  unfold natural32 at hn
  split at hn
  · split_ifs at hn with hfits
    obtain rfl := Except.ok.inj hn
    exact hfits.2
  · contradiction

theorem mem_of_named {variants : List (Text × α)} {a : α} (h : named variants name = .ok a) :
    (name, a) ∈ variants := by
  unfold named at h
  split at h
  · next n value hfind =>
    obtain rfl := Except.ok.inj h
    obtain rfl : n = name := by simpa using List.find?_some hfind
    exact List.mem_of_find?_eq_some hfind
  · contradiction

/-- The names of a table of values are those of the object that it is read from. -/
theorem names_of_table {members : Table Json} {entries : Table α}
    (h : table decode (.object members) = .ok entries) :
    Table.names entries = Table.names members := by
  simp only [table] at h
  induction members generalizing entries with
  | nil =>
    obtain rfl := Except.ok.inj h
    rfl
  | cons m members ih =>
    rw [List.mapM_cons] at h
    obtain ⟨e, he, h⟩ := bind_eq_ok.1 h
    obtain ⟨rest, hrest, h⟩ := bind_eq_ok.1 h
    obtain ⟨a, -, ha⟩ := bind_eq_ok.1 he
    obtain rfl := Except.ok.inj ha
    obtain rfl := Except.ok.inj h
    exact congrArg (m.1 :: ·) (ih hrest)

theorem exists_of_mem_table {members : Table Json} {entries : Table α} {e : Text × α}
    (h : table decode (.object members) = .ok entries) (he : e ∈ entries) :
    ∃ v, (e.1, v) ∈ members ∧ decode v = .ok e.2 := by
  obtain ⟨⟨n, v⟩, hv, hentry⟩ := mem_of_mapM h he
  obtain ⟨a, ha, heq⟩ := bind_eq_ok.1 hentry
  obtain rfl := Except.ok.inj heq
  exact ⟨v, hv, ha⟩

end AssessmentItems.ReadRecords
