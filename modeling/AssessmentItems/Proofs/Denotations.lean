import AssessmentItems.Proofs.JsonValues

/-!
What a JSON value says. An object says a finite map, in which the last of several members with
one key counts, and an array the list of what its elements say. Values say the same exactly if
they are the same once they are put in order.
-/
namespace AssessmentItems.Denotations

open Json JsonValues Tables

variable {elements : List Json} {members : List (Text × Json)} {v w : Json}

/-- What is said; an object is known by what is under each key. -/
inductive Datum where
  | null
  | bool (b : Bool)
  | number (n : JsonNumber)
  | string (t : Text)
  | array (elements : List Datum)
  | object (members : Text → Option Datum)

mutual

def denote : Json → Datum
  | .null => .null
  | .bool b => .bool b
  | .number n => .number n
  | .string t => .string t
  | .array elements => .array (denoteElements elements)
  | .object members => .object (denoteMembers members)

def denoteElements : List Json → List Datum
  | [] => []
  | v :: rest => denote v :: denoteElements rest

/-- What is under a key; a later member counts more than an earlier one. -/
def denoteMembers : List (Text × Json) → Text → Option Datum
  | [], _ => none
  | (k, v) :: rest, key => (denoteMembers rest key).or (if k = key then some (denote v) else none)

end

theorem denoteElements_eq (elements : List Json) :
    denoteElements elements = elements.map denote := by
  induction elements with
  | nil => rfl
  | cons v rest ih => rw [denoteElements, ih, List.map_cons]

theorem denoteMembers_eq (members : List (Text × Json)) (key : Text) :
    denoteMembers members key = (Table.find? key members.reverse).map denote := by
  induction members with
  | nil => rfl
  | cons m rest ih =>
    obtain ⟨k, v⟩ := m
    rw [denoteMembers, ih, List.reverse_cons, find?_append, Option.map_or]
    congr 1
    simp only [Table.find?]
    split_ifs <;> rfl

/-- A member of the object in order, found by its key. -/
theorem find?_ordered (members : List (Text × Json)) (key : Text) :
    Table.find? key (Table.ofEntries (orderedMembers members)) =
      (Table.find? key members.reverse).map ordered := by
  rw [find?_ofEntries, orderedMembers_eq, ← List.map_reverse, find?_map]

theorem find?_reverse {entries : Table Json} (h : Ascending entries) (key : Text) :
    Table.find? key entries.reverse = Table.find? key entries := by
  rw [← find?_ofEntries, h.ofEntries_eq]

theorem mem_of_find?_reverse {key : Text}
    (h : Table.find? key members.reverse = some v) : (key, v) ∈ members :=
  List.mem_reverse.1 (mem_of_find? h)

/-- Putting a value in order does not change what it says. -/
theorem denote_ordered (v : Json) : denote v.ordered = denote v := by
  induction v using parts_induction with
  | array elements ih =>
    rw [Json.ordered, denote, denote, orderedElements_eq, denoteElements_eq, denoteElements_eq,
      List.map_map]
    exact congrArg Datum.array (List.map_congr_left ih)
  | object members ih =>
    rw [Json.ordered, denote, denote]
    refine congrArg Datum.object (funext fun key => ?_)
    rw [denoteMembers_eq, denoteMembers_eq, find?_reverse (ascending_ofEntries _), find?_ordered,
      Option.map_map]
    cases hfound : Table.find? key members.reverse with
    | none => rfl
    | some v => exact congrArg some (ih _ (mem_of_find?_reverse hfound))
  | _ => rfl

theorem map_ordered_eq {others : List Json}
    (ih : ∀ v ∈ elements, ∀ w, denote v = denote w → v.ordered = w.ordered)
    (h : elements.map denote = others.map denote) :
    elements.map ordered = others.map ordered := by
  induction elements generalizing others with
  | nil =>
    rw [List.map_nil, eq_comm, List.map_eq_nil_iff] at h
    rw [h]
  | cons v elements ihrest =>
    cases others with
    | nil => cases h
    | cons w others =>
      obtain ⟨hv, hrest⟩ := List.cons.inj h
      rw [List.forall_mem_cons] at ih
      rw [List.map_cons, List.map_cons, ih.1 w hv, ihrest ih.2 hrest]

/-- Values say the same exactly if they are the same in order. -/
theorem ordered_eq_iff : v.ordered = w.ordered ↔ denote v = denote w := by
  refine ⟨fun h => by rw [← denote_ordered v, h, denote_ordered], fun h => ?_⟩
  induction v using parts_induction generalizing w with
  | array elements ih =>
    cases w with
    | array others =>
      rw [denote, denote, Datum.array.injEq, denoteElements_eq, denoteElements_eq] at h
      rw [Json.ordered, Json.ordered, orderedElements_eq, orderedElements_eq]
      exact congrArg Json.array (map_ordered_eq (fun v hv w => ih v hv) h)
    | _ => cases h
  | object members ih =>
    cases w with
    | object others =>
      rw [denote, denote, Datum.object.injEq] at h
      rw [Json.ordered, Json.ordered]
      refine congrArg Json.object ?_
      refine (ascending_ofEntries _).ext (ascending_ofEntries _) fun key => ?_
      have hkey := congrFun h key
      rw [denoteMembers_eq, denoteMembers_eq] at hkey
      rw [find?_ordered, find?_ordered]
      cases hfound : Table.find? key members.reverse with
      | none =>
        rw [hfound, Option.map_none, eq_comm, Option.map_eq_none_iff] at hkey
        rw [hkey]
      | some v =>
        rw [hfound, Option.map_some, eq_comm, Option.map_eq_some_iff] at hkey
        obtain ⟨w, hw, hsame⟩ := hkey
        rw [hw, Option.map_some, Option.map_some, ih _ (mem_of_find?_reverse hfound) hsame.symm]
    | _ => cases h
  | _ => cases w <;> cases h; rfl

end AssessmentItems.Denotations
