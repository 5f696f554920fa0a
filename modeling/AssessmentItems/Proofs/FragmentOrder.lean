import AssessmentItems.Proofs.SlotTables

/-!
The fragments of an item and their order. A fragment is addressed by the indices on the way down
to it, in the body, in the feedback or in an interaction. The fragments of an item are exactly
those that stand at an address, and they come in the lexicographic order of their addresses,
which is the order of the document.
-/
namespace AssessmentItems.FragmentOrder

open SlotTables Fragment

abbrev Address := List ℕ

inductive InNode : Text → Node → Address → Fragment → Prop
  | math {path markup : Text} : InNode path (.math markup) [] ⟨.mixed, path, markup⟩
  | paragraph {path : Text} {content : List Node} {i : ℕ} {node : Node} {address : Address}
    {f : Fragment} (hnode : content[i]? = some node)
    (h : InNode (Path.element (Path.member path "content") i) node address f) :
    InNode path (.paragraph content) (i :: address) f

inductive InContent : Text → Content → Address → Fragment → Prop
  | markup {path t : Text} : InContent path (.markup t) [] ⟨.block, path, t⟩
  | nodes {path : Text} {ns : List Node} {i : ℕ} {node : Node} {address : Address}
    {f : Fragment} (hnode : ns[i]? = some node)
    (h : InNode (Path.element path i) node address f) :
    InContent path (.nodes ns) (i :: address) f

inductive InChoice (path : Text) (c : Choice) : Address → Fragment → Prop
  | content : InChoice path c [] ⟨.block, choicePath path c.identifier, c.content⟩
  | feedback {t : Text} (h : c.feedback = some t) :
    InChoice path c [0] ⟨.mixed, Path.member (choicePath path c.identifier) "feedback", t⟩

inductive InInteraction (path : Text) : Interaction → Address → Fragment → Prop
  | choicePrompt {i : ChoiceInteraction} {t : Text} (h : i.prompt = some t) :
    InInteraction path (.choice i) [0] ⟨.mixed, Path.member path "prompt", t⟩
  | orderPrompt {i : OrderInteraction} {t : Text} (h : i.prompt = some t) :
    InInteraction path (.order i) [0] ⟨.mixed, Path.member path "prompt", t⟩
  | choiceOption {i : ChoiceInteraction} {k : ℕ} {c : Choice} {address : Address}
    {f : Fragment} (hchoice : i.choices[k]? = some c) (h : InChoice path c address f) :
    InInteraction path (.choice i) ((k + 1) :: address) f
  | orderOption {i : OrderInteraction} {k : ℕ} {c : Choice} {address : Address}
    {f : Fragment} (hchoice : i.choices[k]? = some c) (h : InChoice path c address f) :
    InInteraction path (.order i) ((k + 1) :: address) f
  | inlineOption {i : InlineChoice} {k : ℕ} {c : InlineOption} (hchoice : i.choices[k]? = some c) :
    InInteraction path (.inlineChoice i) [k + 1]
      ⟨.inlineOnly, choicePath path c.identifier, c.content⟩

/-- The body and the two texts of feedback stand before the interactions, which come in the order
of their slots. -/
inductive InItem (item : AssessmentItem) : Address → Fragment → Prop
  | content {part : ℕ} {path : Text} {content : Content} {address : Address} {f : Fragment}
    (hcontent : (contents item)[part]? = some (path, content))
    (h : InContent path content address f) : InItem item (part :: address) f
  | interaction {k : ℕ} {slot : Text} {i : Interaction} {address : Address} {f : Fragment}
    (hinteraction : item.interactions[k]? = some (slot, i))
    (h : InInteraction (Path.member "interactions" slot) i address f) :
    InItem item (3 :: k :: address) f

/-- A list of the fragments that stand at the addresses described, in ascending order. -/
def Lists (sites : Address → Fragment → Prop) (fs : List Fragment) : Prop :=
  ∃ entries : List (Address × Fragment), entries.map Prod.snd = fs ∧
    entries.Pairwise (fun p q => p.1 < q.1) ∧ ∀ address f, (address, f) ∈ entries ↔ sites address f

section

variable {sites : Address → Fragment → Prop} {fs : List Fragment}

theorem Lists.congr {sites' : Address → Fragment → Prop} (h : Lists sites fs)
    (heq : ∀ address f, sites address f ↔ sites' address f) : Lists sites' fs := by
  obtain ⟨entries, hfs, hascending, hmem⟩ := h
  exact ⟨entries, hfs, hascending, fun address f => (hmem address f).trans (heq address f)⟩

theorem lists_nil (h : ∀ address f, ¬ sites address f) : Lists sites [] :=
  ⟨[], rfl, .nil, fun address f => ⟨nofun, fun hf => absurd hf (h address f)⟩⟩

theorem lists_singleton (address : Address) {f : Fragment}
    (h : ∀ a g, sites a g ↔ a = address ∧ g = f) : Lists sites [f] := by
  refine ⟨[(address, f)], rfl, List.pairwise_singleton _ _, fun a g => ?_⟩
  rw [h, List.mem_singleton, Prod.mk.injEq]

/-- The lists of the parts at consecutive indices, put together. -/
theorem lists_flatten (parts : ℕ → Address → Fragment → Prop) (lists : List (List Fragment))
    (start : ℕ) (h : ∀ i, Lists (parts i) (lists[i]?.getD [])) :
    Lists (fun address f => ∃ i rest, address = (start + i) :: rest ∧ parts i rest f)
      lists.flatten := by
  induction lists generalizing start parts with
  | nil =>
    refine lists_nil fun address f => ?_
    rintro ⟨i, rest, -, hf⟩
    obtain ⟨entries, hempty, -, hmem⟩ := h i
    rw [List.map_eq_nil_iff.1 hempty] at hmem
    exact absurd ((hmem rest f).2 hf) List.not_mem_nil
  | cons first lists ih =>
    obtain ⟨entries, hfirst, hascending, hmem⟩ := h 0
    obtain ⟨others, hothers, hascending', hmem'⟩ :=
      ih (fun i => parts (i + 1)) (start + 1) fun i => h (i + 1)
    refine ⟨entries.map (fun p => (start :: p.1, p.2)) ++ others, ?_, ?_, fun address f => ?_⟩
    · rw [List.map_append, List.map_map, hothers, List.flatten_cons]
      exact congrArg (· ++ _) hfirst
    · refine List.pairwise_append.2 ⟨?_, hascending', ?_⟩
      · refine List.pairwise_map.2 (hascending.imp fun hlt => ?_)
        exact List.cons_lt_cons_iff.2 (.inr ⟨rfl, hlt⟩)
      · rintro p hp ⟨address, f⟩ hq
        obtain ⟨p, -, rfl⟩ := List.mem_map.1 hp
        obtain ⟨i, rest, rfl, -⟩ := (hmem' address f).1 hq
        exact List.cons_lt_cons_iff.2 (.inl (by omega))
    · rw [List.mem_append, List.mem_map, hmem']
      constructor
      · rintro (⟨⟨rest, g⟩, hp, heq⟩ | ⟨i, rest, rfl, hf⟩)
        · obtain ⟨rfl, rfl⟩ := Prod.mk.inj heq
          exact ⟨0, rest, rfl, (hmem rest g).1 hp⟩
        · exact ⟨i + 1, rest, by rw [Nat.add_assoc, Nat.add_comm 1], hf⟩
      · rintro ⟨i, rest, rfl, hf⟩
        cases i with
        | zero => exact .inl ⟨(rest, f), (hmem rest f).2 hf, rfl⟩
        | succ i => exact .inr ⟨i, rest, by rw [Nat.add_assoc, Nat.add_comm 1], hf⟩

/-- The lists of the elements of a list, put together. -/
theorem lists_flatMap {α : Type} (parts : α → Address → Fragment → Prop)
    {list : α → List Fragment} (as : List α) (start : ℕ)
    (h : ∀ a ∈ as, Lists (parts a) (list a)) :
    Lists (fun address f => ∃ i a rest, as[i]? = some a ∧ address = (start + i) :: rest ∧
      parts a rest f) (as.flatMap list) := by
  have hlists := lists_flatten (fun i rest f => ∃ a, as[i]? = some a ∧ parts a rest f)
    (as.map list) start fun i => by
      rw [List.getElem?_map]
      cases hi : as[i]? with
      | none => exact lists_nil fun _ _ => by simp
      | some a =>
        refine (h a (List.mem_of_getElem? hi)).congr fun address f => ?_
        simp
  rw [← List.flatMap_def] at hlists
  refine hlists.congr fun address f => ?_
  constructor
  · rintro ⟨i, rest, haddress, a, ha, hf⟩
    exact ⟨i, a, rest, ha, haddress, hf⟩
  · rintro ⟨i, a, rest, ha, haddress, hf⟩
    exact ⟨i, rest, haddress, a, ha, hf⟩

end

theorem ofNodes_eq (path : Text) (index : ℕ) (ns : List Node) :
    ofNodes path index ns =
      (ns.mapIdx fun i node => ofNode (Path.element path (index + i)) node).flatten := by
  induction ns generalizing index with
  | nil => rfl
  | cons node ns ih =>
    rw [ofNodes, ih, List.mapIdx_cons, List.flatten_cons]
    simp only [Nat.add_zero, Nat.add_assoc, Nat.add_comm 1]

/-- The nodes of a list, if their own fragments are in order. -/
theorem lists_nodes {path : Text} {ns : List Node}
    (h : ∀ i node, ns[i]? = some node →
      Lists (InNode (Path.element path i) node) (ofNode (Path.element path i) node)) :
    Lists (fun address f => ∃ i node rest, ns[i]? = some node ∧ address = i :: rest ∧
      InNode (Path.element path i) node rest f) (ofNodes path 0 ns) := by
  rw [ofNodes_eq]
  simp only [Nat.zero_add]
  refine (lists_flatten (fun i rest f => ∃ node, ns[i]? = some node ∧
    InNode (Path.element path i) node rest f) _ 0 fun i => ?_).congr fun address f => ?_
  · rw [List.getElem?_mapIdx]
    cases hi : ns[i]? with
    | none => exact lists_nil fun _ _ => by simp
    | some node => exact (h i node hi).congr fun address f => by simp
  · simp only [Nat.zero_add]
    constructor
    · rintro ⟨i, rest, haddress, node, hi, hf⟩
      exact ⟨i, node, rest, hi, haddress, hf⟩
    · rintro ⟨i, node, rest, hi, haddress, hf⟩
      exact ⟨i, rest, haddress, node, hi, hf⟩

mutual

theorem lists_ofNode (path : Text) : ∀ node, Lists (InNode path node) (ofNode path node)
  | .math markup =>
    lists_singleton [] fun address f => by
      constructor
      · rintro ⟨⟩
        exact ⟨rfl, rfl⟩
      · rintro ⟨rfl, rfl⟩
        exact .math
  | .paragraph content =>
    (lists_nodes fun i node h =>
        lists_ofNode_mem (Path.element (Path.member path "content") i) content node
          (List.mem_of_getElem? h)).congr fun address f => by
      constructor
      · rintro ⟨i, node, rest, hi, rfl, hf⟩
        exact .paragraph hi hf
      · rintro ⟨⟩
        exact ⟨_, _, _, ‹_›, rfl, ‹_›⟩
  | .text _ => lists_nil fun _ _ => nofun
  | .inlineSlot _ => lists_nil fun _ _ => nofun
  | .blockSlot _ => lists_nil fun _ _ => nofun

theorem lists_ofNode_mem (path : Text) : ∀ (ns : List Node), ∀ node ∈ ns,
    Lists (InNode path node) (ofNode path node)
  | [] => fun _ h => absurd h List.not_mem_nil
  | node :: rest => List.forall_mem_cons.2 ⟨lists_ofNode path node, lists_ofNode_mem path rest⟩

end

theorem lists_ofContent (path : Text) (content : Content) :
    Lists (InContent path content) (ofContent path content) := by
  cases content with
  | markup t =>
    refine lists_singleton [] fun address f => ?_
    constructor
    · rintro ⟨⟩
      exact ⟨rfl, rfl⟩
    · rintro ⟨rfl, rfl⟩
      exact .markup
  | nodes ns =>
    refine (lists_nodes fun i node _ => lists_ofNode _ node).congr fun address f => ?_
    constructor
    · rintro ⟨i, node, rest, hi, rfl, hf⟩
      exact .nodes hi hf
    · rintro ⟨⟩
      exact ⟨_, _, _, ‹_›, rfl, ‹_›⟩

theorem lists_ofChoice (path : Text) (c : Choice) :
    Lists (InChoice path c) (ofChoice path c) := by
  cases hfeedback : c.feedback with
  | none =>
    rw [ofChoice, hfeedback]
    refine lists_singleton [] fun address f => ?_
    constructor
    · rintro (_ | h)
      · exact ⟨rfl, rfl⟩
      · simp [hfeedback] at h
    · rintro ⟨rfl, rfl⟩
      exact .content
  | some t =>
    rw [ofChoice, hfeedback]
    refine ⟨[([], _), ([0], _)], rfl, ?_, fun address f => ?_⟩
    · exact List.pairwise_pair.2 (List.nil_lt_cons _ _)
    · simp only [List.mem_cons, Prod.mk.injEq, List.not_mem_nil, or_false]
      constructor
      · rintro (⟨rfl, rfl⟩ | ⟨rfl, rfl⟩)
        · exact .content
        · exact .feedback hfeedback
      · rintro (_ | h)
        · exact .inl ⟨rfl, rfl⟩
        · obtain rfl := Option.some.inj (hfeedback.symm.trans h)
          exact .inr ⟨rfl, rfl⟩

/-- A prompt, at index 0, and options from index 1 on. -/
theorem lists_prompted {α : Type} {parts : α → Address → Fragment → Prop}
    {list : α → List Fragment} {options : List α} (path : Text) (prompt : Option Text)
    (h : ∀ option ∈ options, Lists (parts option) (list option)) :
    Lists (fun address f =>
      (∃ t, prompt = some t ∧ address = [0] ∧ f = ⟨.mixed, Path.member path "prompt", t⟩) ∨
        ∃ k option rest, options[k]? = some option ∧ address = (k + 1) :: rest ∧
          parts option rest f)
      (ofPrompt path prompt ++ options.flatMap list) := by
  have hlists := lists_flatten (fun i rest f =>
      (∃ t, prompt = some t ∧ i = 0 ∧ rest = [] ∧ f = ⟨.mixed, Path.member path "prompt", t⟩) ∨
        ∃ k option, options[k]? = some option ∧ i = k + 1 ∧ parts option rest f)
    (ofPrompt path prompt :: options.map list) 0 fun i => by
      cases i with
      | zero =>
        cases prompt with
        | none => exact lists_nil fun _ _ => by simp
        | some t => exact lists_singleton [] fun _ _ => by simp
      | succ k =>
        rw [List.getElem?_cons_succ, List.getElem?_map]
        cases hk : options[k]? with
        | none => exact lists_nil fun _ _ => by simp [hk]
        | some option =>
          refine (h option (List.mem_of_getElem? hk)).congr fun address f => ?_
          simp [hk]
  rw [List.flatten_cons, ← List.flatMap_def] at hlists
  refine hlists.congr fun address f => ?_
  simp only [Nat.zero_add]
  constructor
  · rintro ⟨i, rest, rfl, ⟨t, hprompt, rfl, rfl, rfl⟩ | ⟨k, option, hk, rfl, hf⟩⟩
    · exact .inl ⟨t, hprompt, rfl, rfl⟩
    · exact .inr ⟨k, option, rest, hk, rfl, hf⟩
  · rintro (⟨t, hprompt, rfl, rfl⟩ | ⟨k, option, rest, hk, rfl, hf⟩)
    · exact ⟨0, [], rfl, .inl ⟨t, hprompt, rfl, rfl, rfl⟩⟩
    · exact ⟨k + 1, rest, rfl, .inr ⟨k, option, hk, rfl, hf⟩⟩

theorem lists_ofInteraction (path : Text) (i : Interaction) :
    Lists (InInteraction path i) (ofInteraction path i) := by
  cases i with
  | choice i =>
    refine (lists_prompted path i.prompt fun c _ => lists_ofChoice path c).congr fun address f => ?_
    constructor
    · rintro (⟨t, hprompt, rfl, rfl⟩ | ⟨k, c, rest, hk, rfl, hf⟩)
      · exact .choicePrompt hprompt
      · exact .choiceOption hk hf
    · rintro ⟨⟩
      · exact .inl ⟨_, ‹_›, rfl, rfl⟩
      · exact .inr ⟨_, _, _, ‹_›, rfl, ‹_›⟩
  | order i =>
    refine (lists_prompted path i.prompt fun c _ => lists_ofChoice path c).congr fun address f => ?_
    constructor
    · rintro (⟨t, hprompt, rfl, rfl⟩ | ⟨k, c, rest, hk, rfl, hf⟩)
      · exact .orderPrompt hprompt
      · exact .orderOption hk hf
    · rintro ⟨⟩
      · exact .inl ⟨_, ‹_›, rfl, rfl⟩
      · exact .inr ⟨_, _, _, ‹_›, rfl, ‹_›⟩
  | textEntry i => exact lists_nil fun _ _ => nofun
  | inlineChoice i =>
    rw [ofInteraction, List.map_eq_flatMap]
    refine (lists_flatMap (fun c rest f =>
      rest = [] ∧ f = ⟨.inlineOnly, choicePath path c.identifier, c.content⟩) _ 1 fun c _ =>
        lists_singleton [] fun _ _ => Iff.rfl).congr fun address f => ?_
    constructor
    · rintro ⟨k, c, rest, hk, rfl, rfl, rfl⟩
      rw [Nat.add_comm]
      exact .inlineOption hk
    · rintro ⟨⟩
      exact ⟨_, _, _, ‹_›, by rw [Nat.add_comm], rfl, rfl⟩

section

variable {item : AssessmentItem} {part : ℕ} {address : Address} {f : Fragment}

theorem inItem_content {path : Text} {content : Content}
    (hcontent : (contents item)[part]? = some (path, content)) :
    InItem item (part :: address) f ↔ InContent path content address f := by
  constructor
  · intro h
    cases h with
    | content hother h =>
      obtain ⟨rfl, rfl⟩ := Prod.mk.inj (Option.some.inj (hcontent.symm.trans hother))
      exact h
    | interaction hinteraction h => simp [contents] at hcontent
  · exact .content hcontent

theorem inItem_interaction :
    InItem item (3 :: address) f ↔ ∃ k entry rest, item.interactions[k]? = some entry ∧
      address = (0 + k) :: rest ∧
        InInteraction (Path.member "interactions" entry.1) entry.2 rest f := by
  constructor
  · intro h
    cases h with
    | content hcontent h => simp [contents] at hcontent
    | interaction hinteraction h => exact ⟨_, _, _, hinteraction, by rw [Nat.zero_add], h⟩
  · rintro ⟨k, entry, rest, hinteraction, rfl, h⟩
    rw [Nat.zero_add]
    exact .interaction hinteraction h

theorem not_inItem : ¬ InItem item ((part + 4) :: address) f := by
  intro h
  cases h with
  | content hcontent h => simp [contents] at hcontent

end

/-- The fragments of an item, in the order of the document. -/
theorem lists_ofItem (item : AssessmentItem) : Lists (InItem item) (ofItem item) := by
  have hinteractions := lists_flatMap _ item.interactions 0 fun entry _ =>
    lists_ofInteraction (Path.member "interactions" entry.1) entry.2
  have hlists := lists_flatten (fun part rest f => InItem item (part :: rest) f)
    [ofContent "body" item.body, ofContent "feedback.correct" item.feedback.correct,
      ofContent "feedback.incorrect" item.feedback.incorrect,
      item.interactions.flatMap fun entry : Text × Interaction =>
        ofInteraction (Path.member "interactions" entry.1) entry.2] 0 fun part =>
      match part with
      | 0 => (lists_ofContent _ _).congr fun _ _ => (inItem_content rfl).symm
      | 1 => (lists_ofContent _ _).congr fun _ _ => (inItem_content rfl).symm
      | 2 => (lists_ofContent _ _).congr fun _ _ => (inItem_content rfl).symm
      | 3 => hinteractions.congr fun _ _ => inItem_interaction.symm
      | _ + 4 => lists_nil fun _ _ => not_inItem
  simp only [List.flatten_cons, List.flatten_nil, List.append_nil, ← List.append_assoc] at hlists
  refine hlists.congr fun address f => ?_
  constructor
  · rintro ⟨part, rest, rfl, hf⟩
    rwa [Nat.zero_add]
  · intro hf
    cases hf with
    | content hcontent h => exact ⟨_, _, by rw [Nat.zero_add], .content hcontent h⟩
    | interaction hinteraction h => exact ⟨_, _, by rw [Nat.zero_add], .interaction hinteraction h⟩

end AssessmentItems.FragmentOrder
