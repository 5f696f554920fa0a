import AssessmentItems.Proofs.ByteOrder
import AssessmentItems.Proofs.ClassMembers
import AssessmentItems.Proofs.Grading
import AssessmentItems.Proofs.LegalSpellings
import AssessmentItems.Proofs.WellFormedItems

/-!
The values that are accepted for a response. The declared ones come first, as they were declared
but without repetitions, and then the other spellings that are literals, in the order of their
encodings. So a response that is expanded has each of its values once; identifiers are taken as
they were declared, with their repetitions.
-/
namespace AssessmentItems.AcceptedValues

open Text AnswerClass Scoring Structure Elements ResponseProcessing Grading ByteOrder LiteralForms
  WellFormedItems LegalSpellings
open ClassMembers hiding accepted

theorem distinct_concat (values : List Text) (value : Text) :
    distinct (values ++ [value]) =
      if value ∈ values then distinct values else distinct values ++ [value] := by
  rw [distinct, List.foldl_append]
  change (if value ∈ distinct values then distinct values else distinct values ++ [value]) = _
  simp only [mem_distinct]

/-- Each value stands where it stood first. -/
theorem distinct_eq_eraseDups (values : List Text) : distinct values = values.eraseDups := by
  induction values using List.reverseRecOn with
  | nil => rfl
  | append_singleton values value ih =>
    rw [distinct_concat, List.eraseDups_append, ih]
    split_ifs with hmem
    · simp [List.removeAll, hmem]
    · simp [List.removeAll, hmem, List.eraseDups_cons]

theorem nodup_distinct (values : List Text) : (distinct values).Nodup := by
  induction values using List.reverseRecOn with
  | nil => exact List.nodup_nil
  | append_singleton values value ih =>
    rw [distinct_concat]
    split_ifs with hmem
    · exact ih
    · have hdisjoint : List.Disjoint (distinct values) [value] := by
        simpa [mem_distinct] using hmem
      exact ih.append (List.nodup_singleton value) hdisjoint

theorem nodup_of_ascends {ts : List Text} (h : Ascends ts) : ts.Nodup := by
  refine List.Pairwise.imp ?_ h
  rintro s _ hlt rfl
  exact List.lt_irrefl s hlt

theorem ascends_ascending (ts : List Text) : Ascends (ascending ts) := by
  induction ts with
  | nil => exact List.Pairwise.nil
  | cons t ts ih => exact ih.insertAscending t

def others (d : ResponseDeclaration) : List Text :=
  (spellings d.values).filter fun value => d.baseType.accepts value && value ∉ d.values

theorem mem_others {d : ResponseDeclaration} {t : Text} :
    t ∈ others d ↔
      (∃ value ∈ d.values, t ∈ expand value) ∧ d.baseType.accepts t = true ∧ t ∉ d.values := by
  simp [others, spellings, mem_ascending]

theorem ascends_others (d : ResponseDeclaration) : Ascends (others d) :=
  List.Pairwise.filter _ (ascends_ascending _)

section

variable {d : ResponseDeclaration} (hordered : d.cardinality ≠ .ordered)
  (htype : d.baseType ≠ .identifier)
include hordered htype

theorem accepted_eq : accepted d = d.values.eraseDups ++ others d := by
  rw [accepted, if_neg (not_or.2 ⟨hordered, htype⟩), distinct_eq_eraseDups]
  rfl

theorem nodup_accepted : (accepted d).Nodup := by
  rw [accepted_eq hordered htype, ← distinct_eq_eraseDups]
  refine (nodup_distinct _).append (nodup_of_ascends (ascends_others d)) ?_
  intro t hdeclared hother
  exact (mem_others.1 hother).2.2 (mem_distinct.1 hdeclared)

/-- Of declared literals, those members of their classes are accepted that are literals. -/
theorem mem_accepted (hliterals : ∀ value ∈ d.values, IsLiteral d.baseType value) {t : Text} :
    t ∈ accepted d ↔ IsLiteral d.baseType t ∧ ∃ value ∈ d.values, t ∈ expand value := by
  rw [accepted_eq hordered htype, List.mem_append, List.mem_eraseDups, mem_others, accepts_iff]
  constructor
  · rintro (hdeclared | ⟨hclass, hliteral, -⟩)
    · exact ⟨hliterals t hdeclared, t, hdeclared, (sound_expand t).start⟩
    · exact ⟨hliteral, hclass⟩
  · rintro ⟨hliteral, hclass⟩
    by_cases hdeclared : t ∈ d.values
    · exact .inl hdeclared
    · exact .inr ⟨hclass, hliteral, hdeclared⟩

end

/-- Declarations that differ in the order of their values accept the same ones. -/
theorem accepted_perm {d e : ResponseDeclaration} (hordered : d.cardinality ≠ .ordered)
    (htype : d.baseType ≠ .identifier)
    (hliterals : ∀ value ∈ d.values, IsLiteral d.baseType value)
    (hcardinality : e.cardinality = d.cardinality) (hbase : e.baseType = d.baseType)
    (hvalues : e.values.Perm d.values) : (accepted e).Perm (accepted d) := by
  have hordered' : e.cardinality ≠ .ordered := hcardinality ▸ hordered
  have htype' : e.baseType ≠ .identifier := hbase ▸ htype
  have hliterals' : ∀ value ∈ e.values, IsLiteral e.baseType value := fun value hvalue =>
    hbase ▸ hliterals value (hvalues.mem_iff.1 hvalue)
  refine (List.perm_ext_iff_of_nodup (nodup_accepted hordered' htype')
    (nodup_accepted hordered htype)).2 fun t => ?_
  rw [mem_accepted hordered' htype' hliterals', mem_accepted hordered htype hliterals, hbase]
  simp only [hvalues.mem_iff]

/-- A response that is expanded accepts its declared values, each where it was first declared, and
then in ascending order of their bytes all other members of their classes that are literals. So
the order of the declared values does not matter to what is accepted. -/
theorem accepted_in_order (d : ResponseDeclaration) (path : Text)
    (hvalid : ofDeclaration path d = none) (hordered : d.cardinality ≠ .ordered)
    (htype : d.baseType ≠ .identifier) :
    (∃ rest, accepted d = d.values.eraseDups ++ rest ∧
      rest.Pairwise (fun s t => s.bytes < t.bytes) ∧
      ∀ t, t ∈ rest ↔ (∃ value ∈ d.values, t ∈ expand value) ∧ d.baseType.accepts t = true ∧
        t ∉ d.values) ∧
    (∀ value ∈ d.values, value ∈ accepted d) ∧
    (∀ t ∈ accepted d, IsLiteral d.baseType t) ∧
    ∀ e : ResponseDeclaration, e.cardinality = d.cardinality → e.baseType = d.baseType →
      e.values.Perm d.values → (accepted e).Perm (accepted d) := by
  have hliterals := (ofDeclaration_eq_none.1 hvalid).literals
  have hmem {t : Text} := mem_accepted hordered htype hliterals (t := t)
  refine ⟨⟨others d, accepted_eq hordered htype, ?_, fun t => mem_others⟩, ?_, ?_, ?_⟩
  · exact (ascends_others d).imp bytes_lt
  · intro value hvalue
    exact hmem.2 ⟨hliterals value hvalue, value, hvalue, (sound_expand value).start⟩
  · exact fun t ht => (hmem.1 ht).1
  · exact fun e => accepted_perm hordered htype hliterals

def repeatedFraction : ResponseDeclaration :=
  ⟨"R", .multiple, .string, .list [.text "3/4", .text "2", .text "3/4"]⟩

theorem accepted_in_order_fraction :
    ofDeclaration "responseDeclarations[0]" repeatedFraction = none ∧
      repeatedFraction.cardinality ≠ .ordered ∧ repeatedFraction.baseType ≠ .identifier ∧
      ∃ rest, accepted repeatedFraction = ["3/4".toList, "2".toList] ++ rest ∧
        rest.Pairwise (fun s t => s.bytes < t.bytes) ∧ ("0.75" : Text) ∈ rest := by
  have hvalid : ofDeclaration "responseDeclarations[0]" repeatedFraction = none := by decide
  have hordered : repeatedFraction.cardinality ≠ .ordered := by decide
  have htype : repeatedFraction.baseType ≠ .identifier := by decide
  obtain ⟨⟨rest, haccepted, hascends, hmem⟩, -⟩ :=
    accepted_in_order repeatedFraction _ hvalid hordered htype
  have hdecimal : ("0.75" : Text) ∈ AnswerRules.variants "3/4" := by decide +kernel
  refine ⟨hvalid, hordered, htype, rest, haccepted, hascends, (hmem _).2 ⟨⟨"3/4", ?_, ?_⟩, ?_⟩⟩
  · exact List.mem_cons_self
  · exact mem_expand.2 (mem_closure_of_mem_variants (AnswerClosure.mem_closure_self _) hdecimal)
  · exact ⟨rfl, by decide⟩

theorem nodup_accepted_iff {d : ResponseDeclaration} (hordered : d.cardinality ≠ .ordered) :
    (accepted d).Nodup ↔ (d.baseType = .identifier → d.values.Nodup) := by
  by_cases htype : d.baseType = .identifier
  · rw [accepted, if_pos (.inr htype)]
    exact ⟨fun h _ => h, fun h => h htype⟩
  · exact ⟨fun _ h => absurd h htype, fun _ => nodup_accepted hordered htype⟩

/-- The entries that a declaration lists, as they are read back, are distinct unless an identifier
was declared twice. -/
theorem entries_distinct_iff (d : ResponseDeclaration) (hordered : d.cardinality ≠ .ordered) :
    ∃ content, read? (declarationMarkup d) = some [.element (declarationTag d) content] ∧
      ((listed content).Nodup ↔ (d.baseType = .identifier → d.values.Nodup)) := by
  obtain ⟨content, hreads, hlisted⟩ := reads_declaration d
  refine ⟨content, hreads.read?, ?_⟩
  rw [hlisted]
  exact nodup_accepted_iff hordered

theorem entries_distinct_fraction :
    repeatedFraction.cardinality ≠ .ordered ∧ ∃ content,
      read? (declarationMarkup repeatedFraction) =
        some [.element (declarationTag repeatedFraction) content] ∧ (listed content).Nodup := by
  have hordered : repeatedFraction.cardinality ≠ .ordered := by decide
  obtain ⟨content, hread, hnodup⟩ := entries_distinct_iff repeatedFraction hordered
  exact ⟨hordered, content, hread, hnodup.2 fun htype => absurd htype (by decide)⟩

def repeatedIdentifier : ResponseDeclaration :=
  ⟨"R", .multiple, .identifier, .list [.text "A", .text "A"]⟩

/-- The declaration is accepted, and lists the identifier twice. -/
theorem entries_repeated :
    ofDeclaration "responseDeclarations[0]" repeatedIdentifier = none ∧
      repeatedIdentifier.cardinality = .multiple ∧ ∃ content,
        read? (declarationMarkup repeatedIdentifier) =
          some [.element (declarationTag repeatedIdentifier) content] ∧
        listed content = ["A".toList, "A".toList] ∧ ¬ (listed content).Nodup := by
  obtain ⟨content, hreads, hlisted⟩ := reads_declaration repeatedIdentifier
  have hvalues : accepted repeatedIdentifier = ["A".toList, "A".toList] := by decide
  refine ⟨by decide, rfl, content, hreads.read?, hlisted.trans hvalues, ?_⟩
  rw [hlisted, hvalues]
  decide

end AssessmentItems.AcceptedValues
