import AssessmentItems.Structure
import AssessmentItems.Proofs.LiteralForms
import Mathlib.Data.List.Nodup

/-!
The items whose structure is accepted. What makes an item well-formed is said here without the
order of the checks and the identifiers that they have met: declarations and options are told
apart, correct values are literals that can be chosen, and each interaction is linked to a
declaration.
-/
namespace AssessmentItems.WellFormedItems

open Text Structure LiteralForms

def IsSlotName (t : Text) : Prop :=
  t ≠ [] ∧ ∀ c ∈ t, isPlainLetter c = true ∨ isPlainDigit c = true ∨ c = '_' ∨ c = '-'

structure WellDeclared (d : ResponseDeclaration) : Prop where
  identifier : IsIdentifier d.identifier
  values : d.values ≠ []
  single : d.cardinality = .single → d.values.length = 1
  literals : ∀ value ∈ d.values, IsLiteral d.baseType value

structure WellOffered (options : List Text) : Prop where
  nonempty : options ≠ []
  identifiers : ∀ id ∈ options, IsIdentifier id
  distinct : options.Nodup

def WellLimited : Interaction → Prop
  | .choice i => i.maxChoices = 0 ∨ i.minChoices ≤ i.maxChoices
  | .textEntry i => i.expectedLength ≠ some 0
  | .order _ | .inlineChoice _ => True

structure WellPosed (ds : List ResponseDeclaration) (i : Interaction) : Prop where
  declared : ∃ d ∈ ds, d.identifier = i.responseIdentifier
  limits : WellLimited i
  offered : ∀ options, i.choiceIdentifiers = some options → WellOffered options
  correct : ∀ options, i.choiceIdentifiers = some options →
    ∀ d ∈ ds, d.identifier = i.responseIdentifier → d.baseType = .identifier →
      ∀ value ∈ d.values, value ∈ options

structure WellFormed (item : AssessmentItem) : Prop where
  identifier : ∃ c ∈ item.identifier, isSpace c = false
  declarations : item.responseDeclarations ≠ []
  declared : ∀ d ∈ item.responseDeclarations, WellDeclared d
  distinct : (item.responseDeclarations.map ResponseDeclaration.identifier).Nodup
  widgets : ∀ slot ∈ item.widgets.names, IsSlotName slot
  interactions : ∀ slot ∈ item.interactions.names, IsSlotName slot
  disjoint : ∀ slot ∈ item.widgets.names, slot ∉ item.interactions.names
  posed : ∀ slot i, (slot, i) ∈ item.interactions → WellPosed item.responseDeclarations i

theorem report_eq_none {found : Bool} {path : Text} {problem : SchemaProblem} :
    report found path problem = none ↔ found = false := by
  cases found <;> simp [report]

theorem isSpace_of_isIdentifier {t : Text} (h : IsIdentifier t) : t.any isSpace = false := by
  simpa [List.any_eq_false] using h.2

/-- The separate report on values that hold white space refuses no value that is a literal. -/
theorem ofValue_eq_none {path : Text} {type : BaseType} {value : Text} :
    ofValue path type value = none ↔ IsLiteral type value := by
  simp only [ofValue, Option.orElse_eq_none, report_eq_none, Bool.not_eq_false', accepts_iff,
    Bool.and_eq_false_iff, decide_eq_false_iff_not]
  constructor
  · exact And.right
  · intro h
    refine ⟨?_, h⟩
    by_cases htype : type = .identifier
    · subst htype
      exact .inr (isSpace_of_isIdentifier h)
    · exact .inl htype

theorem ofDeclaration_eq_none {path : Text} {d : ResponseDeclaration} :
    ofDeclaration path d = none ↔ WellDeclared d := by
  simp only [ofDeclaration, Option.orElse_eq_none, report_eq_none, Bool.not_eq_false',
    isIdentifier_iff, List.findSome?_eq_none_iff, ofValue_eq_none, Bool.and_eq_false_iff,
    decide_eq_false_iff_not, List.isEmpty_eq_false_iff, ne_eq, not_not]
  constructor
  · rintro ⟨hidentifier, hvalues, hsingle, hliterals⟩
    exact ⟨hidentifier, hvalues, fun h => hsingle.resolve_left (not_not.2 h), hliterals⟩
  · rintro ⟨hidentifier, hvalues, hsingle, hliterals⟩
    exact ⟨hidentifier, hvalues, or_iff_not_imp_left.2 fun h => hsingle (not_not.1 h), hliterals⟩

theorem ofDeclarations_eq_none {index : ℕ} {earlier : List Text}
    {ds : List ResponseDeclaration} :
    ofDeclarations index earlier ds = none ↔
      (∀ d ∈ ds, WellDeclared d) ∧ (ds.map ResponseDeclaration.identifier).Nodup ∧
        ∀ d ∈ ds, d.identifier ∉ earlier := by
  induction ds generalizing index earlier with
  | nil => simp [ofDeclarations]
  | cons d ds ih =>
    simp only [ofDeclarations, Option.orElse_eq_none, report_eq_none, ofDeclaration_eq_none,
      decide_eq_false_iff_not, ih, List.forall_mem_cons, List.map_cons, List.nodup_cons,
      List.mem_map, not_exists, not_and]
    constructor
    · rintro ⟨hd, hearlier, hds, hdistinct, hnew⟩
      exact ⟨⟨hd, hds⟩, ⟨fun e he => List.ne_of_not_mem_cons (hnew e he), hdistinct⟩, hearlier,
        fun e he => List.not_mem_of_not_mem_cons (hnew e he)⟩
    · rintro ⟨⟨hd, hds⟩, ⟨hother, hdistinct⟩, hearlier, hnew⟩
      exact ⟨hd, hearlier, hds, hdistinct,
        fun e he => List.not_mem_cons_of_ne_of_not_mem (hother e he) (hnew e he)⟩

theorem check_eq_ok {item : AssessmentItem} : check item = .ok () ↔ finding? item = none := by
  unfold check
  cases finding? item <;> simp

end AssessmentItems.WellFormedItems
