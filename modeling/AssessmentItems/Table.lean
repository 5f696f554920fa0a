import AssessmentItems.Text

/-!
Tables from names to values: entries in ascending order of their names, each name once.
-/
namespace AssessmentItems

abbrev Table (α : Type) := List (Text × α)

namespace Table

/-- Enters a value under a name, in place of the one that is there. -/
def insert (name : Text) (value : α) : Table α → Table α
  | [] => [(name, value)]
  | (n, v) :: rest =>
    if name < n then (name, value) :: (n, v) :: rest
    else if name = n then (name, value) :: rest
    else (n, v) :: insert name value rest

/-- The table of some entries; of several under one name the last stays. -/
def ofEntries (entries : List (Text × α)) : Table α :=
  entries.foldl (fun table (name, value) => insert name value table) []

/-- The value under a name. -/
def find? (name : Text) : Table α → Option α
  | [] => none
  | (n, v) :: rest => if n = name then some v else find? name rest

def names (table : Table α) : List Text := table.map Prod.fst

/-- The table without the entry under a name. -/
def erase (name : Text) (table : Table α) : Table α := table.filter fun (n, _) => n ≠ name

theorem find?_insert (name n : Text) (value : α) (table : Table α) :
    find? n (insert name value table) = if n = name then some value else find? n table := by
  induction table with
  | nil => simp [insert, find?, eq_comm]
  | cons entry rest ih =>
    obtain ⟨m, v⟩ := entry
    simp only [insert]
    split
    · simp [find?, eq_comm]
    · split
      · next heq =>
        subst heq
        by_cases h : name = n
        · simp [find?, h]
        · simp [find?, h, Ne.symm h]
      · next hne =>
        simp only [find?, ih]
        by_cases h : m = n
        · subst h
          simp [Ne.symm hne]
        · simp [h]

end Table
end AssessmentItems
