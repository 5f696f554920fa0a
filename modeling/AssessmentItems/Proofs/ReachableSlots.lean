import AssessmentItems.Proofs.SlotFailures

/-!
What a resolution depends on. It looks up the names that chains of references lead to from the
content, and no others. So two tables that agree on these names lead to the same text, or to the
same failure, whatever else they hold.
-/
namespace AssessmentItems.ReachableSlots

open Text Scanning Slots Pieces SlotChains SlotFailures

def Reached (slots : SlotTable) (content name : Text) : Prop :=
  ∃ before, Chain slots (referenced content) (before ++ [name])

/-- Two tables have the same content, or none, under each name that is reached in the first. -/
def AgreeFrom (slots slots' : SlotTable) (content : Text) : Prop :=
  ∀ name, Reached slots content name → Table.find? name slots = Table.find? name slots'

section

variable {slots slots' : SlotTable} {content name inner : Text}

theorem AgreeFrom.here (h : AgreeFrom slots slots' content) (hname : name ∈ referenced content) :
    Table.find? name slots = Table.find? name slots' := h name ⟨[], .last hname⟩

/-- What is reached from the content of a slot is reached from where the slot is. -/
theorem AgreeFrom.within (h : AgreeFrom slots slots' content) (hname : name ∈ referenced content)
    (hinner : Table.find? name slots = some inner) : AgreeFrom slots slots' inner := by
  rintro n ⟨before, hchain⟩
  exact h n ⟨name :: before, .next hname hinner hchain⟩

/-- References do not lead out of names that hold, with each of their slots, all that the slot
refers to. -/
theorem Reached.mem_of_closed {names : List Text} (h : Reached slots content name)
    (hcontent : referenced content ⊆ names)
    (hclosed : ∀ n ∈ names, ∀ inner ∈ Table.find? n slots, referenced inner ⊆ names) :
    name ∈ names := by
  obtain ⟨before, hchain⟩ := h
  generalize referenced content = starts at hchain hcontent
  induction before generalizing starts with
  | nil =>
    cases hchain with
    | last hstart => exact hcontent hstart
    | next hstart => exact hcontent hstart
  | cons first before ih =>
    rw [List.cons_append] at hchain
    generalize hrest : before ++ [name] = rest at hchain
    cases hchain with
    | last => simp at hrest
    | next hstart hinner hchain =>
      subst hrest
      exact ih _ hchain (hclosed first (hcontent hstart) _ hinner)

/-- Two replacements that agree on the placeholders among some pieces splice alike. -/
theorem splice_congr {replace replace' : Text → Except SlotError Text}
    {ps : List (Piece Placeholder)}
    (h : ∀ p ∈ occurrences ps, replace p.name = replace' p.name) :
    splice replace ps = splice replace' ps := by
  induction ps with
  | nil => rfl
  | cons piece ps ih =>
    cases piece with
    | character c => simp only [splice, ih h]
    | occurrence p =>
      rw [occurrences_occurrence, List.forall_mem_cons] at h
      simp only [splice, ih h.2, h.1]

/-- A visit looks up one name and goes on with what it finds. -/
theorem visit_congr {room : ℕ} {active : List Text}
    (hname : Table.find? name slots = Table.find? name slots')
    (hbelow : ∀ inner below, Table.find? name slots = some inner → room = below + 1 →
      substitute slots below (active ++ [name]) inner =
        substitute slots' below (active ++ [name]) inner) :
    visit slots room active name = visit slots' room active name := by
  rw [visit, visit, enter, enter, ← hname]
  cases hinner : Table.find? name slots with
  | none => rfl
  | some inner =>
    cases room with
    | zero => rfl
    | succ below => simp only [hbelow inner below hinner rfl]

/-- Any level of a substitution is the same in tables that agree. -/
theorem substitute_congr (room : ℕ) (active : List Text) (h : AgreeFrom slots slots' content) :
    substitute slots room active content = substitute slots' room active content := by
  induction room using Nat.strong_induction_on generalizing active content with
  | _ room ih =>
    rw [substitute_eq_splice, substitute_eq_splice]
    refine splice_congr fun p hp => ?_
    have hname : p.name ∈ referenced content := mem_placed.1 (List.mem_map_of_mem hp)
    refine visit_congr (h.here hname) fun inner below hinner hroom => ?_
    exact ih below (by omega) _ (h.within hname hinner)

end

/-- Tables that agree on all names that a content leads to resolve it to the same text, or refuse
it for the same reason. -/
theorem resolve_of_reached {slots slots' : SlotTable} {content : Text}
    (h : ∀ name, Reached slots content name →
      Table.find? name slots = Table.find? name slots') :
    resolve slots content = resolve slots' content := by
  rw [resolve, resolve, substitute_congr maxDepth [] h]

/-- Beside a cycle, a slot that is missing from one of the tables makes no difference. -/
theorem resolve_of_reached_cycle :
    let slots : SlotTable := [("a", placeholder "b"), ("b", placeholder "a"), ("c", "1")]
    let slots' : SlotTable := [("a", placeholder "b"), ("b", placeholder "a")]
    let content : Text := "<p>" ++ placeholder "a" ++ "</p>"
    (∀ name, Reached slots content name → Table.find? name slots = Table.find? name slots') ∧
      slots ≠ slots' ∧ resolve slots content = .error (.cycle ["a", "b", "a"]) ∧
      resolve slots content = resolve slots' content := by
  intro slots slots' content
  let names : List Text := ["a", "b"]
  have hcontent : referenced content ⊆ names := by decide +kernel
  have hclosed : ∀ n ∈ names, ∀ inner ∈ Table.find? n slots, referenced inner ⊆ names := by
    decide +kernel
  have hagree : ∀ n ∈ names, Table.find? n slots = Table.find? n slots' := by decide +kernel
  have h : ∀ name, Reached slots content name → Table.find? name slots = Table.find? name slots' :=
    fun name hname => hagree name (hname.mem_of_closed hcontent hclosed)
  exact ⟨h, by decide +kernel, by decide +kernel, resolve_of_reached h⟩

end AssessmentItems.ReachableSlots
