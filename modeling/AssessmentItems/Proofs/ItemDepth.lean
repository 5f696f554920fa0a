import AssessmentItems.Proofs.ReadItems

/-!
How deep the JSON forms of items are nested. Content and widgets have forms no deeper than the
values that they are read from, and all else is nested a few levels at most.
-/
namespace AssessmentItems.ItemDepth

open Decoding Tables JsonValues Results ReadRecords ReadItems
open AssessmentItem

theorem listToJson_eq (nodes : List Node) : Node.listToJson nodes = nodes.map Node.toJson := by
  induction nodes with
  | nil => rfl
  | cons node rest ih => rw [Node.listToJson, ih, List.map_cons]

theorem withNodes_eq (members : List (Text × Json)) :
    Node.withNodes members = members.map (Prod.map id fun v => (v, Node.listOfJson? v)) := by
  induction members with
  | nil => rfl
  | cons m members ih =>
    obtain ⟨k, v⟩ := m
    rw [Node.withNodes, ih]
    rfl

theorem exists_of_mem_allOfJson? {elements : List Json} {nodes : List Node} {node : Node}
    (h : Node.allOfJson? elements = some nodes) (hnode : node ∈ nodes) :
    ∃ v ∈ elements, Node.ofJson? v = some node := by
  induction elements generalizing nodes with
  | nil =>
    obtain rfl := Option.some.inj h
    exact absurd hnode List.not_mem_nil
  | cons v rest ih =>
    obtain ⟨first, hfirst, h⟩ := Option.bind_eq_some_iff.1 h
    obtain ⟨others, hothers, h⟩ := Option.bind_eq_some_iff.1 h
    obtain rfl := Option.some.inj h
    rcases List.mem_cons.1 hnode with rfl | hnode
    · exact ⟨v, List.mem_cons_self, hfirst⟩
    · obtain ⟨w, hw, hread⟩ := ih hothers hnode
      exact ⟨w, List.mem_cons_of_mem _ hw, hread⟩

/-- A node is nested one level deeper than the nodes in it. -/
theorem depth_build {kind : Node.Kind} {field : Json} {children : Option (List Node)} {node : Node}
    {d : ℕ} (h : kind.build? field children = some node)
    (hchildren : ∀ ns ∈ children, depth (.array (Node.listToJson ns)) ≤ d) :
    depth node.toJson ≤ d + 1 := by
  unfold Node.Kind.build? at h
  split at h
  case h_3 =>
    obtain ⟨ns, hns, rfl⟩ := Option.map_eq_some_iff.1 h
    refine depth_object_le.2 fun m hm => ?_
    simp only [List.mem_cons, List.not_mem_nil, or_false] at hm
    rcases hm with rfl | rfl
    · exact Nat.zero_le _
    · exact hchildren ns hns
  case h_6 => contradiction
  all_goals
    obtain rfl := Option.some.inj h
    exact depth_object_le.2 (by simp [depth])

theorem depth_nodes (v : Json) :
    (∀ node, Node.ofJson? v = some node → depth node.toJson ≤ depth v) ∧
      ∀ ns, Node.listOfJson? v = some ns → depth (.array (Node.listToJson ns)) ≤ depth v := by
  induction v using parts_induction with
  | array elements ih =>
    constructor
    · intro node h
      unfold Node.ofJson? at h
      split at h
      · contradiction
      · next tag field heq =>
        obtain rfl := Json.array.inj heq
        obtain ⟨kind, -, h⟩ := Option.bind_eq_some_iff.1 h
        have hfield : field ∈ [tag, field] := List.mem_cons_of_mem _ List.mem_cons_self
        exact Nat.le_trans (depth_build h fun ns hns => (ih field hfield).2 ns hns)
          (depth_lt_of_element hfield)
      · contradiction
    · intro ns h
      rw [depth.eq_1 elements, listToJson_eq]
      refine depth_array_le.2 fun w hw => ?_
      obtain ⟨node, hnode, rfl⟩ := List.mem_map.1 hw
      obtain ⟨v, hv, hread⟩ := exists_of_mem_allOfJson? h hnode
      exact Nat.le_trans ((ih v hv).1 node hread) (Nat.le_of_lt_succ (depth_lt_of_element hv))
  | object members ih =>
    refine ⟨fun node h => ?_, fun ns h => by cases h⟩
    unfold Node.ofJson? at h
    obtain ⟨kind, -, h⟩ := Option.bind_eq_some_iff.1 h
    obtain ⟨⟨field, children⟩, hfield, h⟩ := Option.bind_eq_some_iff.1 h
    rw [withNodes_eq, find?_map] at hfield
    obtain ⟨v, hv, heq⟩ := Option.map_eq_some_iff.1 hfield
    obtain ⟨rfl, rfl⟩ := Prod.mk.inj heq
    have hmem := mem_of_find? hv
    exact Nat.le_trans (depth_build h fun ns hns => (ih _ hmem).2 ns hns) (depth_lt_of_member hmem)
  | _ =>
    constructor
    · intro node h
      cases h
    · intro ns h
      cases h

theorem depth_content {v : Json} {c : Content} (h : Content.decode v = .ok c) :
    depth c.toJson ≤ depth v := by
  unfold Content.decode at h
  split at h
  · obtain rfl := Except.ok.inj h
    exact Nat.le_refl _
  · split at h
    · next ns hns =>
      obtain rfl := Except.ok.inj h
      exact (depth_nodes v).2 ns hns
    · contradiction

theorem depth_spec {members : Table Json} {s : WidgetSpec}
    (h : WidgetSpec.decode (.object members) = .ok s) :
    depth s.toJson ≤ depth (.object members) := by
  simp only [WidgetSpec.decode] at h
  split at h
  · next kind alt hfields =>
    obtain rfl := Except.ok.inj h
    rw [toJson_spec, depth.eq_2 members]
    refine depth_object_le.2 fun m hm => ?_
    rcases List.mem_append.1 hm with hm | hm
    · cases alt <;> simp [heading] at hm
      · simp [hm, depth]
      · rcases hm with rfl | rfl <;> exact Nat.zero_le _
    · have hmember : m ∈ members := List.mem_of_mem_filter (List.mem_of_mem_filter hm)
      exact Nat.le_of_lt_succ (depth_lt_of_member hmember)
  · contradiction

theorem depth_feedback {v : Json} {f : Feedback} (h : Feedback.record.decode v = .ok f) :
    depth f.toJson ≤ depth v := by
  have hgives : Gives (Parts fun w => depth w < depth v) Feedback.record.decode fun f =>
      depth f.correct.toJson < depth v ∧ depth f.incorrect.toJson < depth v := by
    have hcontent : Gives (fun w => depth w < depth v) Content.decode fun c =>
        depth c.toJson < depth v :=
      fun w c hw hc => Nat.lt_of_le_of_lt (depth_content hc) hw
    refine Yields.gives (.andThen hcontent nofun (.andThen hcontent nofun (yields_nothing ?_)))
    exact fun correct hcorrect incorrect hincorrect => ⟨hcorrect, hincorrect⟩
  have hparts : Parts (fun w => depth w < depth v) v := by
    cases v with
    | array elements => exact fun w hw => depth_lt_of_element hw
    | object members => exact fun m hm => depth_lt_of_member hm
    | _ => trivial
  obtain ⟨hcorrect, hincorrect⟩ := hgives v f hparts h
  simp only [Feedback.toJson, depth, membersDepth]
  omega

theorem depth_optional {α : Type} {encode : α → Json} {d : ℕ} (h : ∀ a, depth (encode a) ≤ d)
    (o : Option α) : depth (Interaction.optionalToJson encode o) ≤ d := by
  cases o with
  | none => exact Nat.zero_le _
  | some a => exact h a

theorem depth_array_map {α : Type} {encode : α → Json} {d : ℕ} (h : ∀ a, depth (encode a) ≤ d)
    (as : List α) : depth (.array (as.map encode)) ≤ d + 1 := by
  refine depth_array_le.2 fun v hv => ?_
  obtain ⟨a, -, rfl⟩ := List.mem_map.1 hv
  exact h a

theorem depth_choice (c : Choice) : depth c.toJson ≤ 1 := by
  obtain ⟨identifier, content, feedback⟩ := c
  cases feedback <;> exact depth_object_le.2 (by simp [depth])

theorem depth_option (c : InlineOption) : depth c.toJson ≤ 1 :=
  depth_object_le.2 (by simp [depth])

theorem depth_interaction (i : Interaction) : depth i.toJson ≤ 3 := by
  have hprompt : ∀ prompt : Option Text,
      depth (Interaction.optionalToJson Json.string prompt) ≤ 2 :=
    depth_optional fun _ => Nat.zero_le _
  cases i with
  | choice i =>
    refine depth_object_le.2 ?_
    simp only [List.forall_mem_cons]
    exact ⟨Nat.zero_le _, Nat.zero_le _, Nat.zero_le _, Nat.zero_le _, Nat.zero_le _,
      hprompt i.prompt, depth_array_map depth_choice i.choices, nofun⟩
  | order i =>
    refine depth_object_le.2 ?_
    simp only [List.forall_mem_cons]
    exact ⟨Nat.zero_le _, Nat.zero_le _, Nat.zero_le _, hprompt i.prompt,
      depth_array_map depth_choice i.choices, nofun⟩
  | textEntry i =>
    refine depth_object_le.2 ?_
    simp only [List.forall_mem_cons]
    exact ⟨Nat.zero_le _, Nat.zero_le _, depth_optional (fun _ => Nat.zero_le _) _, nofun⟩
  | inlineChoice i =>
    refine depth_object_le.2 ?_
    simp only [List.forall_mem_cons]
    exact ⟨Nat.zero_le _, Nat.zero_le _, Nat.zero_le _, depth_array_map depth_option i.choices,
      nofun⟩

theorem depth_scalar_value (s : Scalar) : depth s.toJson ≤ 0 := by
  cases s <;> exact Nat.le_refl _

theorem depth_declaration (d : ResponseDeclaration) : depth d.toJson ≤ 2 := by
  have hcorrect : depth d.correct.toJson ≤ 1 := by
    cases d.correct with
    | scalar s => exact Nat.le_succ_of_le (depth_scalar_value s)
    | list ss => exact depth_array_map depth_scalar_value ss
  refine depth_object_le.2 ?_
  simp [depth, hcorrect]

/-- Apart from content and widgets, items are nested up to five levels. -/
theorem depth_item {item : AssessmentItem} {d : ℕ} (hd : 4 ≤ d)
    (hbody : depth item.body.toJson ≤ d) (hfeedback : depth item.feedback.toJson ≤ d)
    (hwidgets : ∀ e ∈ item.widgets, depth e.2.toJson < d) : depth item.toJson ≤ d + 1 := by
  have hdeclarations := depth_array_map depth_declaration item.responseDeclarations
  have hspecs : depth (entries WidgetSpec.toJson item.widgets) ≤ d - 1 + 1 := by
    refine depth_object_le.2 fun m hm => ?_
    obtain ⟨e, he, rfl⟩ := List.mem_map.1 hm
    exact Nat.le_sub_one_of_lt (hwidgets e he)
  have hinteractions : depth (entries Interaction.toJson item.interactions) ≤ 3 + 1 := by
    refine depth_object_le.2 fun m hm => ?_
    obtain ⟨e, -, rfl⟩ := List.mem_map.1 hm
    exact depth_interaction e.2
  refine depth_object_le.2 ?_
  simp only [List.forall_mem_cons]
  exact ⟨Nat.zero_le _, Nat.zero_le _, hbody, by omega, by omega, by omega, hfeedback, nofun⟩

end AssessmentItems.ItemDepth
