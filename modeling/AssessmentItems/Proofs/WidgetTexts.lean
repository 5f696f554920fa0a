import AssessmentItems.Compiler
import AssessmentItems.Proofs.Results
import AssessmentItems.Proofs.Tables
import Mathlib.Data.List.Basic

/-!
Widgets without their texts. The texts of a table can be emptied before it is read from its
parameters or after, so they do not decide whether a widget is in order.
-/
namespace AssessmentItems

mutual

/-- The value with its texts emptied, save those in objects. -/
def Json.unworded : Json → Json
  | .string _ => .string []
  | .array elements => .array (Json.unwordedElements elements)
  | v => v

def Json.unwordedElements : List Json → List Json
  | [] => []
  | v :: rest => v.unworded :: Json.unwordedElements rest

end

def WidgetSpec.unworded (spec : WidgetSpec) : WidgetSpec where
  kind := spec.kind
  alt := spec.alt.map fun _ => []
  parameters :=
    if WidgetKind.ofName? spec.kind = some .dataTable then
      spec.parameters.map (Prod.map id Json.unworded)
    else spec.parameters

def DataTable.unworded (w : DataTable) : DataTable where
  caption := w.caption.map fun _ => []
  columns := w.columns.map fun _ => []
  rows := w.rows.map (List.map fun _ => [])

def Widget.unworded : Widget → Widget
  | .dataTable w => .dataTable w.unworded
  | w => w

namespace WidgetTexts

open Decoding Results Tables

theorem unwordedElements_eq (elements : List Json) :
    Json.unwordedElements elements = elements.map Json.unworded := by
  induction elements with
  | nil => rfl
  | cons v rest ih => rw [Json.unwordedElements, ih, List.map_cons]

theorem toOption_mapM {ε α β : Type} {f : α → Except ε β} {u : α → α} {w : β → β}
    (h : ∀ a, (f (u a)).toOption = (f a).toOption.map w) (as : List α) :
    ((as.map u).mapM f).toOption = (as.mapM f).toOption.map (List.map w) := by
  have hcons : ∀ a (as : List α), ((a :: as).mapM f).toOption =
      (f a).toOption.bind fun b => ((as.mapM f).toOption).map (b :: ·) := by
    intro a as
    rw [List.mapM_cons]
    cases f a with
    | error e => rfl
    | ok b =>
      cases as.mapM f with
      | error e => rfl
      | ok bs => rfl
  induction as with
  | nil => rfl
  | cons a as ih =>
    rw [List.map_cons, hcons, hcons, h, ih]
    cases (f a).toOption with
    | none => rfl
    | some b => simp [Function.comp_def]

/-- Whether texts can be emptied before a value is read instead of after. -/
def Wordless {α : Type} (decode : Decoder α) (empty : α → α) : Prop :=
  ∀ v : Json, (decode v.unworded).toOption = (decode v).toOption.map empty

theorem wordless_text : Wordless text fun _ => [] := by
  intro v
  cases v <;> rfl

section

variable {α β : Type} {decode : Decoder α} {empty : α → α}

theorem Wordless.optional (h : Wordless decode empty) :
    Wordless (Decoding.optional decode) (Option.map empty) := by
  have hmap : ∀ x y : Except DecodeError α, y.toOption = x.toOption.map empty →
      (y.map some).toOption = (x.map some).toOption.map (Option.map empty) := by
    intro x y hxy
    cases x with
    | error e => cases y with
      | error e' => rfl
      | ok b => simp [Except.toOption] at hxy
    | ok a => cases y with
      | error e' => simp [Except.toOption] at hxy
      | ok b =>
        obtain rfl : b = empty a := by simpa [Except.toOption] using hxy
        rfl
  intro v
  cases v with
  | null => rfl
  | bool b => exact hmap _ _ (h (.bool b))
  | number n => exact hmap _ _ (h (.number n))
  | string t => exact hmap _ _ (h (.string t))
  | array elements => exact hmap _ _ (h (.array elements))
  | object members => exact hmap _ _ (h (.object members))

theorem Wordless.list (h : Wordless decode empty) :
    Wordless (Decoding.list decode) (List.map empty) := by
  intro v
  cases v with
  | array elements =>
    rw [Json.unworded, unwordedElements_eq]
    exact toOption_mapM h elements
  | _ => rfl

/-- What fields are read as from members whose texts are emptied, beside what they are read as
from the members. -/
def Follows (fields : Fields α) (r : α → α → Prop) : Prop :=
  ∀ members : Table Json, Option.Rel r (fields.ofMembers members).toOption
    (fields.ofMembers (members.map (Prod.map id Json.unworded))).toOption

theorem follows_nothing {r : α → α → Prop} {value : α} (h : r value value) :
    Follows (Fields.nothing value) r :=
  fun _ => .some h

theorem toOption_field (h : Wordless decode empty) {absent : Option α}
    (habsent : absent.map empty = absent) (position : ℕ) (name : Text) (members : Table Json) :
    ((Fields.field position name decode absent).ofMembers
      (members.map (Prod.map id Json.unworded))).toOption =
        ((Fields.field position name decode absent).ofMembers members).toOption.map empty := by
  have hforget : ∀ x : Except DecodeError α,
      (x.mapError (Failure.member name)).toOption = x.toOption := by
    intro x
    cases x <;> rfl
  simp only [Fields.field, find?_map]
  cases Table.find? name members with
  | some v => simp only [Option.map_some, hforget, h v]
  | none =>
    cases absent with
    | none => rfl
    | some value => exact habsent.symm

theorem Follows.andThen {before : Fields (α → β)} {r : β → β → Prop} {absent : Option α}
    {name : Text} (hbefore : Follows before fun f g => ∀ a, r (f a) (g (empty a)))
    (h : Wordless decode empty) (habsent : absent.map empty = absent) :
    Follows (before.andThen name decode absent) r := by
  have hsplit : ∀ members, ((before.andThen name decode absent).ofMembers members).toOption =
      (before.ofMembers members).toOption.bind fun f =>
        ((Fields.field before.names.length name decode absent).ofMembers
          members).toOption.map f := by
    intro members
    simp only [Fields.andThen]
    cases before.ofMembers members with
    | error e =>
      cases (Fields.field before.names.length name decode absent).ofMembers members <;> rfl
    | ok f =>
      cases (Fields.field before.names.length name decode absent).ofMembers members <;> rfl
  intro members
  have hread := hbefore members
  rw [hsplit, hsplit, toOption_field h habsent]
  generalize (before.ofMembers members).toOption = f? at hread ⊢
  generalize (before.ofMembers (members.map (Prod.map id Json.unworded))).toOption = g? at hread ⊢
  cases hread with
  | none => exact .none
  | some hfg =>
    cases ((Fields.field before.names.length name decode absent).ofMembers members).toOption with
    | none => exact .none
    | some a => exact .some (hfg a)

theorem toOption_ofMembers (record : Record α) (members : Table Json) :
    (record.ofMembers members).toOption =
      if record.unknown? members = none then (record.fields.ofMembers members).toOption
      else none := by
  unfold Record.ofMembers
  cases record.fields.ofMembers members <;> cases record.unknown? members <;> rfl

theorem wordless_record {record : Record α}
    (h : Follows record.fields fun a b => b = empty a) (members : Table Json) :
    (record.ofMembers (members.map (Prod.map id Json.unworded))).toOption =
      (record.ofMembers members).toOption.map empty := by
  have hnames : Table.names (members.map (Prod.map id Json.unworded)) = Table.names members := by
    simp [Table.names]
  have hunknown : record.unknown? (members.map (Prod.map id Json.unworded)) =
      record.unknown? members := by
    simp only [Record.unknown?, hnames]
  have hread := h members
  rw [toOption_ofMembers, toOption_ofMembers, hunknown]
  generalize (record.fields.ofMembers members).toOption = a? at hread ⊢
  generalize (record.fields.ofMembers (members.map (Prod.map id Json.unworded))).toOption = b?
    at hread ⊢
  split_ifs
  · cases hread with
    | none => rfl
    | some heq => exact congrArg some heq
  · rfl

end

theorem toOption_dataTable (members : Table Json) :
    (DataTable.record.decode (.object (members.map (Prod.map id Json.unworded)))).toOption =
      (DataTable.record.decode (.object members)).toOption.map DataTable.unworded := by
  refine wordless_record ?_ members
  refine Follows.andThen (Follows.andThen (Follows.andThen (follows_nothing ?_)
    wordless_text.optional rfl) wordless_text.list rfl) wordless_text.list.list rfl
  exact fun _ _ _ => rfl

/-- The shape of a table decides whether it is in order. -/
theorem problem?_unworded (w : DataTable) : w.unworded.problem? = w.problem? := by
  have hrows : ∀ (columns index : ℕ) (rows : List (List Text)),
      DataTable.raggedRow? columns index (rows.map (List.map fun _ => [])) =
        DataTable.raggedRow? columns index rows := by
    intro columns index rows
    induction rows generalizing index with
    | nil => rfl
    | cons row rows ih => simp only [List.map_cons, DataTable.raggedRow?, List.length_map, ih]
  simp only [DataTable.problem?, DataTable.unworded, List.isEmpty_map, List.length_map, hrows]

theorem toOption_ofParameters (members : Table Json) :
    (Widget.ofParameters .dataTable (members.map (Prod.map id Json.unworded))).toOption =
      (Widget.ofParameters .dataTable members).toOption.map Widget.unworded := by
  have hread : ∀ ms : Table Json, (Widget.ofParameters .dataTable ms).toOption =
      (DataTable.record.decode (.object ms)).toOption.bind fun w =>
        if w.problem? = none then some (.dataTable w) else none := by
    intro ms
    have hdecode : Widget.decode .dataTable (.object ms) =
        (DataTable.record.decode (.object ms)).map .dataTable := rfl
    rw [Widget.ofParameters, hdecode]
    cases DataTable.record.decode (.object ms) with
    | error e => rfl
    | ok w =>
      have hproblem : (Widget.dataTable w).problem? = w.problem? := rfl
      have hok : (Except.ok w : Except DecodeError DataTable).toOption = some w := rfl
      simp only [Except.map, hproblem, hok, Option.bind_some]
      cases w.problem? <;> rfl
  rw [hread, hread, toOption_dataTable]
  cases (DataTable.record.decode (.object members)).toOption with
  | none => rfl
  | some w =>
    simp only [Option.map_some, Option.bind_some, problem?_unworded]
    split_ifs <;> rfl

theorem kind_of_ofParameters {kind : WidgetKind} {members : Table Json} {w : Widget}
    (h : Widget.ofParameters kind members = .ok w) : w.kind = kind := by
  have hdecode : Widget.decode kind (.object members) = .ok w := by
    unfold Widget.ofParameters at h
    split at h
    · contradiction
    · next w' hw' =>
      split at h
      · contradiction
      · rw [hw', Except.ok.inj h]
  cases kind
  all_goals
    obtain ⟨_, -, rfl⟩ := map_eq_ok.1 hdecode
    rfl

theorem toOption_widget (slot : Text) (spec : WidgetSpec) :
    (Compiler.widget slot spec.unworded).toOption =
      (Compiler.widget slot spec).toOption.map Widget.unworded := by
  have hforget : ∀ x : Except WidgetProblem Widget,
      (x.mapError fun problem => CompileError.schema (Path.member "widgets" slot)
        (.widget problem)).toOption = x.toOption := by
    intro x
    cases x <;> rfl
  have hkind : spec.unworded.kind = spec.kind := rfl
  simp only [Compiler.widget, hkind]
  cases hname : WidgetKind.ofName? spec.kind with
  | none => rfl
  | some kind =>
    simp only [hforget, WidgetSpec.unworded, hname]
    by_cases hdata : kind = .dataTable
    · subst hdata
      rw [if_pos rfl]
      exact toOption_ofParameters spec.parameters
    · rw [if_neg (fun h => hdata (Option.some.inj h))]
      cases hwidget : Widget.ofParameters kind spec.parameters with
      | error e => rfl
      | ok w =>
        have hsame : w.unworded = w := by
          rw [← kind_of_ofParameters hwidget] at hdata
          cases w with
          | dataTable w => exact absurd rfl hdata
          | _ => rfl
        exact congrArg some hsame.symm

end WidgetTexts
end AssessmentItems
