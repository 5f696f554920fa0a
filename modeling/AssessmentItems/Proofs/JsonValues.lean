import AssessmentItems.Json
import AssessmentItems.Proofs.Tables

/-!
JSON values as trees: how deep they are nested, which numbers stand in them, and when they are
ordered. Putting a value in order leaves ordered values as they are, and adds neither depth nor
numbers.
-/
namespace AssessmentItems.JsonValues

open Json Tables

variable {elements : List Json} {members : List (Text × Json)} {v : Json}

/-- Induction over the elements of arrays and the members of objects. -/
@[elab_as_elim]
theorem parts_induction {P : Json → Prop} (null : P .null) (bool : ∀ b, P (.bool b))
    (number : ∀ n, P (.number n)) (string : ∀ t, P (.string t))
    (array : ∀ elements, (∀ v ∈ elements, P v) → P (.array elements))
    (object : ∀ members, (∀ m ∈ members, P m.2) → P (.object members)) (v : Json) : P v := by
  refine @Json.rec P (fun elements => ∀ v ∈ elements, P v) (fun members => ∀ m ∈ members, P m.2)
    (fun m => P m.2) null bool number string array object ?_ ?_ ?_ ?_ ?_ v
  · exact fun _ h => absurd h List.not_mem_nil
  · exact fun _ _ hfirst hrest => List.forall_mem_cons.2 ⟨hfirst, hrest⟩
  · exact fun _ h => absurd h List.not_mem_nil
  · exact fun _ _ hfirst hrest => List.forall_mem_cons.2 ⟨hfirst, hrest⟩
  · exact fun _ _ h => h

mutual

/-- The most arrays and objects of a value that are open at one time in its text. -/
def depth : Json → ℕ
  | .array elements => elementsDepth elements + 1
  | .object members => membersDepth members + 1
  | _ => 0

def elementsDepth : List Json → ℕ
  | [] => 0
  | v :: rest => max (depth v) (elementsDepth rest)

def membersDepth : List (Text × Json) → ℕ
  | [] => 0
  | (_, v) :: rest => max (depth v) (membersDepth rest)

end

theorem depth_array_le {n : ℕ} :
    depth (.array elements) ≤ n + 1 ↔ ∀ v ∈ elements, depth v ≤ n := by
  rw [depth, Nat.add_le_add_iff_right]
  induction elements with
  | nil => simp [elementsDepth]
  | cons v rest ih => rw [elementsDepth, Nat.max_le, ih, List.forall_mem_cons]

theorem depth_object_le {n : ℕ} :
    depth (.object members) ≤ n + 1 ↔ ∀ m ∈ members, depth m.2 ≤ n := by
  rw [depth, Nat.add_le_add_iff_right]
  induction members with
  | nil => simp [membersDepth]
  | cons m rest ih =>
    obtain ⟨k, v⟩ := m
    rw [membersDepth, Nat.max_le, ih, List.forall_mem_cons]

theorem depth_lt_of_element (h : v ∈ elements) : depth v < depth (.array elements) :=
  Nat.lt_succ_of_le (depth_array_le.1 (Nat.le_refl _) v h)

theorem depth_lt_of_member {m : Text × Json} (h : m ∈ members) :
    depth m.2 < depth (.object members) :=
  Nat.lt_succ_of_le (depth_object_le.1 (Nat.le_refl _) m h)

mutual

def numbers : Json → List JsonNumber
  | .number n => [n]
  | .array elements => elementsNumbers elements
  | .object members => membersNumbers members
  | _ => []

def elementsNumbers : List Json → List JsonNumber
  | [] => []
  | v :: rest => numbers v ++ elementsNumbers rest

def membersNumbers : List (Text × Json) → List JsonNumber
  | [] => []
  | (_, v) :: rest => numbers v ++ membersNumbers rest

end

theorem mem_numbers_array {n : JsonNumber} :
    n ∈ numbers (.array elements) ↔ ∃ v ∈ elements, n ∈ numbers v := by
  rw [numbers]
  induction elements with
  | nil => simp [elementsNumbers]
  | cons v rest ih => rw [elementsNumbers, List.mem_append, ih, List.exists_mem_cons_iff]

theorem mem_numbers_object {n : JsonNumber} :
    n ∈ numbers (.object members) ↔ ∃ m ∈ members, n ∈ numbers m.2 := by
  rw [numbers]
  induction members with
  | nil => simp [membersNumbers]
  | cons m rest ih =>
    obtain ⟨k, v⟩ := m
    rw [membersNumbers, List.mem_append, ih, List.exists_mem_cons_iff]

private theorem map_eq_self_iff {α : Type} {f : α → α} {as : List α} :
    as.map f = as ↔ ∀ a ∈ as, f a = a := by
  simpa only [List.map_id, id_eq] using List.map_inj_left (l := as) (f := f) (g := id)

theorem orderedElements_eq (elements : List Json) :
    orderedElements elements = elements.map ordered := by
  induction elements with
  | nil => rfl
  | cons v rest ih => rw [orderedElements, ih, List.map_cons]

theorem orderedMembers_eq (members : List (Text × Json)) :
    orderedMembers members = members.map (Prod.map id ordered) := by
  induction members with
  | nil => rfl
  | cons m rest ih =>
    obtain ⟨k, v⟩ := m
    rw [orderedMembers, ih]
    rfl

def Ordered (v : Json) : Prop := v.ordered = v

theorem ordered_array_iff : Ordered (.array elements) ↔ ∀ v ∈ elements, Ordered v := by
  rw [Ordered, Json.ordered, orderedElements_eq, Json.array.injEq]
  constructor
  · intro h v hv
    exact map_eq_self_iff.1 h v hv
  · intro h
    exact map_eq_self_iff.2 h

theorem ordered_object_iff :
    Ordered (.object members) ↔ Ascending members ∧ ∀ m ∈ members, Ordered m.2 := by
  rw [Ordered, Json.ordered, orderedMembers_eq, Json.object.injEq]
  constructor
  · intro h
    have hascending : Ascending members := h ▸ ascending_ofEntries _
    rw [Ascending.ofEntries_eq (ascending_map.2 hascending)] at h
    refine ⟨hascending, fun m hm => ?_⟩
    exact congrArg Prod.snd (map_eq_self_iff.1 h m hm)
  · rintro ⟨hascending, hmembers⟩
    rw [Ascending.ofEntries_eq (ascending_map.2 hascending)]
    refine map_eq_self_iff.2 fun m hm => ?_
    exact Prod.ext rfl (hmembers m hm)

/-- What a member of an ordered object was before. -/
theorem exists_of_mem_ordered {m : Text × Json}
    (h : m ∈ Table.ofEntries (orderedMembers members)) :
    ∃ v, (m.1, v) ∈ members ∧ m.2 = v.ordered := by
  have hmem := mem_of_mem_ofEntries h
  rw [orderedMembers_eq] at hmem
  obtain ⟨⟨k, v⟩, hv, rfl⟩ := List.mem_map.1 hmem
  exact ⟨v, hv, rfl⟩

theorem ordered_ordered (v : Json) : Ordered v.ordered := by
  induction v using parts_induction with
  | array elements ih =>
    rw [Json.ordered, orderedElements_eq]
    refine ordered_array_iff.2 fun w hw => ?_
    obtain ⟨v, hv, rfl⟩ := List.mem_map.1 hw
    exact ih v hv
  | object members ih =>
    rw [Json.ordered]
    refine ordered_object_iff.2 ⟨ascending_ofEntries _, fun m hm => ?_⟩
    obtain ⟨v, hv, heq⟩ := exists_of_mem_ordered hm
    rw [heq]
    exact ih _ hv
  | _ => rfl

theorem depth_ordered_le (v : Json) : depth v.ordered ≤ depth v := by
  induction v using parts_induction with
  | array elements ih =>
    rw [Json.ordered, orderedElements_eq, depth.eq_1 elements]
    refine depth_array_le.2 fun w hw => ?_
    obtain ⟨v, hv, rfl⟩ := List.mem_map.1 hw
    exact Nat.le_trans (ih v hv) (Nat.le_of_lt_succ (depth_lt_of_element hv))
  | object members ih =>
    rw [Json.ordered, depth.eq_2 members]
    refine depth_object_le.2 fun m hm => ?_
    obtain ⟨v, hv, heq⟩ := exists_of_mem_ordered hm
    rw [heq]
    exact Nat.le_trans (ih _ hv) (Nat.le_of_lt_succ (depth_lt_of_member hv))
  | _ => exact Nat.le_refl _

theorem mem_numbers_of_ordered {n : JsonNumber} (h : n ∈ numbers v.ordered) : n ∈ numbers v := by
  induction v using parts_induction with
  | array elements ih =>
    rw [Json.ordered, orderedElements_eq, mem_numbers_array] at h
    obtain ⟨w, hw, hn⟩ := h
    obtain ⟨v, hv, rfl⟩ := List.mem_map.1 hw
    exact mem_numbers_array.2 ⟨v, hv, ih v hv hn⟩
  | object members ih =>
    rw [Json.ordered, mem_numbers_object] at h
    obtain ⟨m, hm, hn⟩ := h
    obtain ⟨v, hv, heq⟩ := exists_of_mem_ordered hm
    exact mem_numbers_object.2 ⟨_, hv, ih _ hv (heq ▸ hn)⟩
  | _ => exact h

end AssessmentItems.JsonValues
