import AssessmentItems.AnswerRules

/-!
The class of an answer: every spelling that the rules reach from it, one step after
another. The search keeps the accepted spellings and those whose own variants are
still to be drawn, and gives up at a fixed number of spellings.
-/
namespace AssessmentItems.AnswerClass

open Text AnswerRules

/-- The most spellings that one class may hold. -/
def capacity : Nat := 256

/-- Accepted spellings after some were offered: the search is full, or goes on with the
frontier of spellings whose variants are still to be drawn. -/
inductive Absorbed where
  | full (accepted : List Text)
  | within (accepted frontier : List Text)
deriving Repr, DecidableEq

/-- Accepts the offered spellings that are new and not empty, while there is room. -/
def absorb (accepted frontier : List Text) : List Text → Absorbed
  | [] => .within accepted frontier
  | t :: rest =>
    if t = [] ∨ t ∈ accepted then absorb accepted frontier rest
    else if capacity ≤ accepted.length then .full accepted
    else absorb (insertAscending t accepted) (t :: frontier) rest

private theorem length_insertAscending (t : Text) (ts : List Text) (h : t ∉ ts) :
    (insertAscending t ts).length = ts.length + 1 := by
  induction ts with
  | nil => rfl
  | cons u rest ih =>
    have hne : t ≠ u := fun e => h (e ▸ List.mem_cons_self)
    have hrest : t ∉ rest := fun m => h (List.mem_cons_of_mem _ m)
    simp only [insertAscending]
    split
    · rfl
    · rw [List.length_cons, ih hrest, List.length_cons]

/-- Each spelling accepted takes room from the class and adds one to the frontier. -/
theorem absorb_measure (offered accepted frontier accepted' frontier' : List Text)
    (h : absorb accepted frontier offered = .within accepted' frontier') :
    2 * (capacity - accepted'.length) + frontier'.length ≤
      2 * (capacity - accepted.length) + frontier.length := by
  induction offered generalizing accepted frontier with
  | nil =>
    simp only [absorb, Absorbed.within.injEq] at h
    exact Nat.le_of_eq (by rw [h.1, h.2])
  | cons t rest ih =>
    simp only [absorb] at h
    split at h
    · exact ih _ _ h
    · next hnew =>
      split at h
      · contradiction
      · next hroom =>
        have hle := ih _ _ h
        rw [length_insertAscending t accepted (fun m => hnew (.inr m))] at hle
        simp only [List.length_cons] at hle
        omega

/-- Draws the variants of the frontier, latest first, until none is new. -/
def close (accepted frontier : List Text) : List Text :=
  match frontier with
  | [] => accepted
  | t :: frontier =>
    match _step : absorb accepted frontier (ascending (variants t)) with
    | .full accepted => accepted
    | .within accepted frontier => close accepted frontier
termination_by 2 * (capacity - accepted.length) + frontier.length
decreasing_by
  have hle := absorb_measure _ _ _ _ _ _step
  simp only [List.length_cons]
  omega

/-- All accepted spellings of a value, in ascending order; the value is one of them. -/
def expand (value : Text) : List Text := close [value] [value]

end AssessmentItems.AnswerClass
