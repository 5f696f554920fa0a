import AssessmentItems.Proofs.ClassMembers

/-!
The rules that are reported for a value, beside its class. The report asks each rule on its own,
and the class is searched with all rules at once. Since no rule gives the empty text, and every
class has room for what the rules derive, the two agree: a rule is reported exactly if the class
has a member from it beside the value, and none is reported exactly if the value is alone.
-/
namespace AssessmentItems.ReportedRules

open Text AnswerRules AnswerClass AnswerClosure ClassMembers

variable {rule : Rule} {value m : Text}

theorem mem_matchingRules : rule ∈ matchingRules value ↔ ∃ m ∈ rule.spellings value, m ≠ value := by
  have hall : rule ∈ Rule.all := by cases rule <;> decide
  simp [matchingRules, hall]

theorem mem_variants_of_rule (h : m ∈ rule.spellings value) : m ∈ variants value :=
  List.mem_flatMap.2 ⟨rule, by cases rule <;> decide, h⟩

/-- What a rule gives is accepted. -/
theorem mem_expand_of_rule (h : m ∈ rule.spellings value) : m ∈ expand value :=
  mem_expand.2 (mem_closure_of_mem_variants (mem_closure_self value) (mem_variants_of_rule h))

theorem matchingRules_eq_nil :
    matchingRules value = [] ↔ ∀ m ∈ variants value, m = value := by
  simp only [List.eq_nil_iff_forall_not_mem, mem_matchingRules, not_exists, not_and, not_not]
  constructor
  · intro h m hm
    obtain ⟨rule, -, hrule⟩ := List.mem_flatMap.1 hm
    exact h rule m hrule
  · exact fun h rule m hm => h m (mem_variants_of_rule hm)

/-- A value is alone in its class exactly if it implies nothing but itself. -/
theorem expand_eq_singleton : expand value = [value] ↔ ∀ m ∈ variants value, m = value := by
  refine ⟨fun h m hm => ?_, expand_alone⟩
  obtain ⟨rule, -, hrule⟩ := List.mem_flatMap.1 hm
  have hmem := mem_expand_of_rule hrule
  rw [h] at hmem
  exact List.mem_singleton.1 hmem

/-- The report agrees with the class: it is empty exactly if the value is alone in its class, and
it has the rules that give a member beside the value. No rule gives the empty text. -/
theorem report_agrees (value : Text) :
    (matchingRules value = [] ↔ expand value = [value]) ∧
    (∀ rule, rule ∈ matchingRules value ↔
      ∃ m ∈ expand value, m ∈ rule.spellings value ∧ m ≠ value) ∧
    ∀ rule : Rule, [] ∉ rule.spellings value := by
  refine ⟨matchingRules_eq_nil.trans expand_eq_singleton.symm, fun rule => ?_, fun rule h => ?_⟩
  · rw [mem_matchingRules]
    constructor
    · rintro ⟨m, hm, hne⟩
      exact ⟨m, mem_expand_of_rule hm, hm, hne⟩
    · rintro ⟨m, -, hm, hne⟩
      exact ⟨m, hm, hne⟩
  · exact ne_nil_of_mem_variants (mem_variants_of_rule h) rfl

end AssessmentItems.ReportedRules
