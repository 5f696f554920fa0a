import AssessmentItems.Proofs.NestingDepth

/-!
Where nodes may stand. A tree is rendered exactly if its top holds paragraphs and block slots,
these paragraphs hold text, math and inline slots, and every slot is there; the markup is then
that of the nodes in order. Otherwise the failure is that of the first node in the order of the
document that stands in a wrong place or has no slot. Nodes are addressed by the indices on the
way down to them, and their order is that of the addresses.
-/
namespace AssessmentItems.PlacedNodes

open Escaping Slots ContentMarkup Results NestingDepth

def Placed : Node → Prop
  | .paragraph content => ∀ node ∈ content, node.isInline = true
  | .blockSlot _ => True
  | .text _ | .math _ | .inlineSlot _ => False

/-- The slots that a node at the top names, in a paragraph by its nodes. -/
def slotsOf : Node → List Text
  | .paragraph content => content.filterMap slotOf?
  | node => (slotOf? node).toList

def inlineMarkup (slots : SlotTable) : Node → Text
  | .text content => escapeText content
  | .math markup => "<math xmlns=\"http://www.w3.org/1998/Math/MathML\">" ++ markup ++ "</math>"
  | .inlineSlot slot => (Table.find? slot slots).getD []
  | .paragraph _ | .blockSlot _ => []

def topMarkup (slots : SlotTable) : Node → Text
  | .paragraph content => "<p>" ++ content.flatMap (inlineMarkup slots) ++ "</p>"
  | .blockSlot slot => "<div>" ++ (Table.find? slot slots).getD [] ++ "</div>"
  | .text _ | .math _ | .inlineSlot _ => []

section

variable {slots : SlotTable} {path t : Text} {node : Node}

theorem sequence_eq_ok {render : Text → Node → Except CompileError Text} {good : Node → Prop}
    {markup : Node → Text} {ns : List Node} {index : ℕ}
    (h : ∀ path node t, render path node = .ok t ↔ good node ∧ t = markup node) :
    ContentMarkup.sequence render path index ns = .ok t ↔
      (∀ node ∈ ns, good node) ∧ t = ns.flatMap markup := by
  induction ns generalizing index t with
  | nil => simp [ContentMarkup.sequence, eq_comm]
  | cons node rest ih =>
    simp only [ContentMarkup.sequence, bind_eq_ok, h, ih, List.forall_mem_cons, List.flatMap_cons]
    constructor
    · rintro ⟨_, ⟨hnode, rfl⟩, _, ⟨hrest, rfl⟩, ht⟩
      exact ⟨⟨hnode, hrest⟩, (Except.ok.inj ht).symm⟩
    · rintro ⟨⟨hnode, hrest⟩, rfl⟩
      exact ⟨_, ⟨hnode, rfl⟩, _, ⟨hrest, rfl⟩, rfl⟩

/-- A computation that gives one value under a condition, with a function behind it. -/
theorem map_eq_ok_iff {x : Except CompileError Text} {good : Prop} {u : Text}
    (h : ∀ v, x = .ok v ↔ good ∧ v = u) (f : Text → Text) :
    x.map f = .ok t ↔ good ∧ t = f u := by
  rw [map_eq_ok]
  simp only [h]
  constructor
  · rintro ⟨_, ⟨hgood, rfl⟩, rfl⟩
    exact ⟨hgood, rfl⟩
  · rintro ⟨hgood, rfl⟩
    exact ⟨_, ⟨hgood, rfl⟩, rfl⟩

theorem filling_eq_ok_iff {slot : Text} : filling slots slot = .ok t ↔
    (Table.find? slot slots).isSome = true ∧ t = (Table.find? slot slots).getD [] := by
  rw [filling_eq_ok]
  cases Table.find? slot slots <;> simp [eq_comm]

theorem inlineNode_eq_ok : inlineNode slots path node = .ok t ↔
    (node.isInline = true ∧ ∀ slot ∈ slotOf? node, (Table.find? slot slots).isSome = true) ∧
      t = inlineMarkup slots node := by
  cases node with
  | text content =>
    change Except.ok (escapeText content) = .ok t ↔ _ ∧ t = escapeText content
    rw [Except.ok.injEq, eq_comm]
    simp [Node.isInline, slotOf?]
  | math markup =>
    change Except.ok (mathElement markup) = .ok t ↔ _ ∧ t = mathElement markup
    rw [Except.ok.injEq, eq_comm]
    simp [Node.isInline, slotOf?]
  | inlineSlot slot =>
    change filling slots slot = .ok t ↔ _ ∧ t = (Table.find? slot slots).getD []
    simp [filling_eq_ok_iff, Node.isInline, slotOf?]
  | paragraph content => simp [inlineNode, Node.isInline]
  | blockSlot slot => simp [inlineNode, Node.isInline]

theorem topNode_eq_ok : topNode slots path node = .ok t ↔
    (Placed node ∧ ∀ slot ∈ slotsOf node, (Table.find? slot slots).isSome = true) ∧
      t = topMarkup slots node := by
  cases node with
  | paragraph content =>
    have hslots : (∀ node ∈ content, node.isInline = true ∧
        ∀ slot ∈ slotOf? node, (Table.find? slot slots).isSome = true) ↔
        Placed (.paragraph content) ∧
          ∀ slot ∈ slotsOf (.paragraph content), (Table.find? slot slots).isSome = true := by
      rw [Placed, slotsOf, forall₂_and, List.forall_mem_filterMap]
      rfl
    have hinline : ∀ path node t, inlineNode slots path node = .ok t ↔
        (node.isInline = true ∧ ∀ slot ∈ slotOf? node, (Table.find? slot slots).isSome = true) ∧
          t = inlineMarkup slots node := fun _ _ _ => inlineNode_eq_ok
    rw [topNode, ← hslots]
    exact map_eq_ok_iff (fun _ => sequence_eq_ok hinline) _
  | blockSlot slot =>
    have hslots : (Placed (.blockSlot slot) ∧
        ∀ n ∈ slotsOf (.blockSlot slot), (Table.find? n slots).isSome = true) ↔
        (Table.find? slot slots).isSome = true := by
      simp [Placed, slotsOf, slotOf?]
    rw [topNode, hslots]
    exact map_eq_ok_iff (fun _ => filling_eq_ok_iff) _
  | text content => simp [topNode, Placed]
  | math markup => simp [topNode, Placed]
  | inlineSlot slot => simp [topNode, Placed]

end

def IsFirst (faults : List ℕ → CompileError → Prop) (address : List ℕ) (e : CompileError) : Prop :=
  faults address e ∧ ∀ other e', faults other e' → ¬ other < address

/-- A result fails exactly if there are faults, with the first of them. -/
structure Reports (result : Except CompileError Text) (faults : List ℕ → CompileError → Prop) :
    Prop where
  succeeds : (∃ t, result = .ok t) ↔ ∀ address e, ¬ faults address e
  fails : ∀ e, result = .error e ↔ ∃ address, IsFirst faults address e

def FaultIn (faults : Text → Node → List ℕ → CompileError → Prop) (path : Text) (index : ℕ)
    (ns : List Node) (address : List ℕ) (e : CompileError) : Prop :=
  ∃ i node rest, address = i :: rest ∧ ns[i]? = some node ∧
    faults (Path.element path (index + i)) node rest e

section

variable {result : Except CompileError Text} {faults : List ℕ → CompileError → Prop}

theorem reports_ok {t : Text} (h : ∀ address e, ¬ faults address e) : Reports (.ok t) faults where
  succeeds := iff_of_true ⟨t, rfl⟩ h
  fails e := iff_of_false nofun fun ⟨address, hfault, _⟩ => h address e hfault

/-- A failure with the only fault that there is. -/
theorem reports_error {e : CompileError}
    (h : ∀ address e', faults address e' ↔ address = [] ∧ e' = e) :
    Reports (.error e) faults where
  succeeds := iff_of_false nofun fun hno => hno [] e ((h _ _).2 ⟨rfl, rfl⟩)
  fails e' := by
    simp only [IsFirst, h]
    constructor
    · rintro ⟨⟩
      exact ⟨[], ⟨rfl, rfl⟩, fun other _ _ => List.not_lt_nil other⟩
    · rintro ⟨_, ⟨-, rfl⟩, -⟩
      rfl

theorem Reports.congr {faults' : List ℕ → CompileError → Prop} (h : Reports result faults)
    (heq : ∀ address e, faults address e ↔ faults' address e) : Reports result faults' := by
  have hfaults : faults = faults' := funext₂ fun address e => propext (heq address e)
  rwa [← hfaults]

theorem Reports.map (h : Reports result faults) (f : Text → Text) :
    Reports (result.map f) faults := by
  cases result with
  | ok t => exact reports_ok (h.succeeds.1 ⟨t, rfl⟩)
  | error e => exact ⟨iff_of_false nofun fun hno => (nomatch h.succeeds.2 hno), h.fails⟩

end

section

variable {faults : Text → Node → List ℕ → CompileError → Prop} {path : Text} {index : ℕ}
  {node : Node} {ns : List Node} {e : CompileError}

theorem not_faultIn_nil {address : List ℕ} : ¬ FaultIn faults path index [] address e := by
  rintro ⟨i, node, rest, -, hnode, -⟩
  simp at hnode

/-- A fault of a list of nodes is one of its first node, or one of the others. -/
theorem faultIn_cons {address : List ℕ} :
    FaultIn faults path index (node :: ns) address e ↔
      (∃ rest, address = 0 :: rest ∧ faults (Path.element path index) node rest e) ∨
        ∃ i rest, address = (i + 1) :: rest ∧
          FaultIn faults path (index + 1) ns (i :: rest) e := by
  have hindex : ∀ i, index + (i + 1) = index + 1 + i := fun i => by omega
  constructor
  · rintro ⟨_ | i, other, rest, rfl, hother, h⟩
    · obtain rfl := Option.some.inj hother
      exact .inl ⟨rest, rfl, h⟩
    · exact .inr ⟨i, rest, rfl, i, other, rest, rfl, hother, hindex i ▸ h⟩
  · rintro (⟨rest, rfl, h⟩ | ⟨i, rest, rfl, _, other, _, ⟨⟩, hother, h⟩)
    · exact ⟨0, node, rest, rfl, rfl, h⟩
    · exact ⟨i + 1, other, rest, rfl, hother, (hindex i).symm ▸ h⟩

/-- The first fault of a list of nodes is the first of its first node, or if this has none the
first of the others. -/
theorem exists_isFirst_cons :
    (∃ address, IsFirst (FaultIn faults path index (node :: ns)) address e) ↔
      (∃ address, IsFirst (faults (Path.element path index) node) address e) ∨
        (∀ address e', ¬ faults (Path.element path index) node address e') ∧
          ∃ address, IsFirst (FaultIn faults path (index + 1) ns) address e := by
  simp only [IsFirst, faultIn_cons]
  constructor
  · rintro ⟨_, ⟨rest, rfl, hfault⟩ | ⟨i, rest, rfl, hfault⟩, hfirst⟩
    · refine .inl ⟨rest, hfault, fun other e' hother hlt => ?_⟩
      exact hfirst _ e' (.inl ⟨other, rfl, hother⟩) (List.cons_lt_cons_self.2 hlt)
    · refine .inr ⟨fun other e' hother => ?_, i :: rest, hfault, ?_⟩
      · exact hfirst _ e' (.inl ⟨other, rfl, hother⟩) (.rel (Nat.succ_pos i))
      · rintro _ e' ⟨j, node, tail, rfl, hnode, hother⟩ hlt
        refine hfirst _ e' (.inr ⟨j, tail, rfl, j, node, tail, rfl, hnode, hother⟩) ?_
        simpa [List.cons_lt_cons_iff] using hlt
  · rintro (⟨rest, hfault, hfirst⟩ | ⟨hnone, _, ⟨i, node, rest, rfl, hnode, hfault⟩, hfirst⟩)
    · refine ⟨0 :: rest, .inl ⟨rest, rfl, hfault⟩, ?_⟩
      rintro _ e' (⟨other, rfl, hother⟩ | ⟨j, tail, rfl, -⟩) hlt
      · exact hfirst other e' hother (List.cons_lt_cons_self.1 hlt)
      · simp [List.cons_lt_cons_iff] at hlt
    · refine ⟨(i + 1) :: rest, .inr ⟨i, rest, rfl, i, node, rest, rfl, hnode, hfault⟩, ?_⟩
      rintro _ e' (⟨other, rfl, hother⟩ | ⟨j, tail, rfl, hother⟩) hlt
      · exact hnone other e' hother
      · refine hfirst _ e' hother ?_
        simpa [List.cons_lt_cons_iff] using hlt

/-- Nodes one after another report the faults of each, in their order. -/
theorem reports_sequence {render : Text → Node → Except CompileError Text}
    (h : ∀ path node, Reports (render path node) (faults path node)) :
    Reports (ContentMarkup.sequence render path index ns) (FaultIn faults path index ns) := by
  induction ns generalizing index with
  | nil => exact reports_ok fun _ _ => not_faultIn_nil
  | cons node rest ih =>
    have hfirst := h (Path.element path index) node
    have hrest : Reports (ContentMarkup.sequence render path (index + 1) rest)
        (FaultIn faults path (index + 1) rest) := ih
    constructor
    · simp only [ContentMarkup.sequence, bind_eq_ok]
      constructor
      · rintro ⟨_, u, hu, v, hv, -⟩ address e hfault
        rcases faultIn_cons.1 hfault with ⟨tail, -, hfault⟩ | ⟨i, tail, -, hfault⟩
        · exact hfirst.succeeds.1 ⟨u, hu⟩ _ _ hfault
        · exact hrest.succeeds.1 ⟨v, hv⟩ _ _ hfault
      · intro hnone
        obtain ⟨u, hu⟩ := hfirst.succeeds.2 fun tail e hfault =>
          hnone _ e (faultIn_cons.2 (.inl ⟨tail, rfl, hfault⟩))
        obtain ⟨v, hv⟩ := hrest.succeeds.2 fun address e hfault => by
          obtain ⟨i, other, tail, rfl, hother, hfault⟩ := hfault
          refine hnone _ e (faultIn_cons.2 (.inr ⟨i, tail, rfl, ?_⟩))
          exact ⟨i, other, tail, rfl, hother, hfault⟩
        exact ⟨_, u, hu, v, hv, rfl⟩
    · intro e
      rw [exists_isFirst_cons, ← hfirst.fails, ← hfirst.succeeds, ← hrest.fails,
        ContentMarkup.sequence, bind_eq_error]
      refine or_congr_right ⟨?_, ?_⟩
      · rintro ⟨u, hu, h⟩
        rcases bind_eq_error.1 h with hothers | ⟨v, -, hok⟩
        · exact ⟨⟨u, hu⟩, hothers⟩
        · cases hok
      · rintro ⟨⟨u, hu⟩, hothers⟩
        exact ⟨u, hu, bind_eq_error.2 (.inl hothers)⟩

end

inductive InlineFault (slots : SlotTable) (path : Text) : Node → List ℕ → CompileError → Prop
  | block {node : Node} (hblock : node.isInline = false) :
      InlineFault slots path node [] (.schema path .blockInParagraph)
  | missing {slot : Text} (hnone : Table.find? slot slots = none) :
      InlineFault slots path (.inlineSlot slot) [] (.slots (.missing slot))

inductive TopFault (slots : SlotTable) (path : Text) : Node → List ℕ → CompileError → Prop
  | inline {node : Node} (hinline : node.isInline = true) :
      TopFault slots path node [] (.schema path .inlineAtTop)
  | missing {slot : Text} (hnone : Table.find? slot slots = none) :
      TopFault slots path (.blockSlot slot) [] (.slots (.missing slot))
  | inParagraph {content : List Node} {address : List ℕ} {e : CompileError}
      (h : FaultIn (InlineFault slots) (Path.member path "content") 0 content address e) :
      TopFault slots path (.paragraph content) address e

section

variable {slots : SlotTable}

/-- A slot has its content, or is missing. -/
theorem reports_filling {slot : Text} {faults : List ℕ → CompileError → Prop}
    (h : ∀ address e, faults address e ↔ Table.find? slot slots = none ∧ address = [] ∧
      e = .slots (.missing slot)) : Reports (filling slots slot) faults := by
  rw [filling]
  cases hfind : Table.find? slot slots with
  | none => exact reports_error fun address e => by rw [h, hfind]; exact and_iff_right rfl
  | some inner => exact reports_ok fun address e hfault => by simp [h, hfind] at hfault

theorem reports_inlineNode (path : Text) (node : Node) :
    Reports (inlineNode slots path node) (InlineFault slots path node) := by
  have hblock : node.isInline = false → ∀ address e, InlineFault slots path node address e ↔
      address = [] ∧ e = .schema path .blockInParagraph := by
    intro hblock address e
    constructor
    · rintro (_ | _)
      · exact ⟨rfl, rfl⟩
      · contradiction
    · rintro ⟨rfl, rfl⟩
      exact .block hblock
  cases node with
  | text content => exact reports_ok nofun
  | math markup => exact reports_ok nofun
  | inlineSlot slot =>
    refine reports_filling fun address e => ⟨?_, ?_⟩
    · rintro (hblock | hnone)
      · contradiction
      · exact ⟨hnone, rfl, rfl⟩
    · rintro ⟨hnone, rfl, rfl⟩
      exact .missing hnone
  | paragraph content => exact reports_error (hblock rfl)
  | blockSlot slot => exact reports_error (hblock rfl)

theorem reports_topNode (path : Text) (node : Node) :
    Reports (topNode slots path node) (TopFault slots path node) := by
  have hinline : node.isInline = true → ∀ address e, TopFault slots path node address e ↔
      address = [] ∧ e = .schema path .inlineAtTop := by
    intro hinline address e
    constructor
    · rintro (_ | _ | _)
      · exact ⟨rfl, rfl⟩
      · contradiction
      · contradiction
    · rintro ⟨rfl, rfl⟩
      exact .inline hinline
  cases node with
  | paragraph content =>
    refine ((reports_sequence reports_inlineNode).map _).congr fun address e => ⟨.inParagraph, ?_⟩
    rintro (hinline | _ | h)
    · contradiction
    · exact h
  | blockSlot slot =>
    refine (reports_filling fun address e => ⟨?_, ?_⟩).map _
    · rintro (hinline | hnone | _)
      · contradiction
      · exact ⟨hnone, rfl, rfl⟩
    · rintro ⟨hnone, rfl, rfl⟩
      exact .missing hnone
  | text content => exact reports_error (hinline rfl)
  | math markup => exact reports_error (hinline rfl)
  | inlineSlot slot => exact reports_error (hinline rfl)

end

/-- What a tree fails with, at the address of the node: an inline node at the top, a block node in
a paragraph of the top, or a slot of one of these that is missing. -/
inductive Offends (slots : SlotTable) (path : Text) (ns : List Node) :
    (address : List ℕ) → CompileError → Prop
  | inlineAtTop {i : ℕ} {node : Node} (hnode : ns[i]? = some node)
      (hinline : node.isInline = true) :
      Offends slots path ns [i] (.schema (path ++ "[" ++ Text.ofNat i ++ "]") .inlineAtTop)
  | blockInParagraph {i j : ℕ} {content : List Node} {node : Node}
      (hparagraph : ns[i]? = some (.paragraph content)) (hnode : content[j]? = some node)
      (hblock : node.isInline = false) :
      Offends slots path ns [i, j] (.schema
        (path ++ "[" ++ Text.ofNat i ++ "].content[" ++ Text.ofNat j ++ "]") .blockInParagraph)
  | missingBlock {i : ℕ} {slot : Text} (hnode : ns[i]? = some (.blockSlot slot))
      (hnone : Table.find? slot slots = none) :
      Offends slots path ns [i] (.slots (.missing slot))
  | missingInline {i j : ℕ} {content : List Node} {slot : Text}
      (hparagraph : ns[i]? = some (.paragraph content))
      (hnode : content[j]? = some (.inlineSlot slot)) (hnone : Table.find? slot slots = none) :
      Offends slots path ns [i, j] (.slots (.missing slot))

theorem element_member_element (path : Text) (i j : ℕ) :
    Path.element (Path.member (Path.element path i) "content") j =
      path ++ "[" ++ Text.ofNat i ++ "].content[" ++ Text.ofNat j ++ "]" := by
  simp [Path.element, Path.member]

theorem faultIn_iff_offends {slots : SlotTable} {path : Text} {ns : List Node}
    {address : List ℕ} {e : CompileError} :
    FaultIn (TopFault slots) path 0 ns address e ↔ Offends slots path ns address e := by
  simp only [FaultIn, Nat.zero_add]
  constructor
  · rintro ⟨i, node, rest, rfl, hnode, hinline | hnone | ⟨j, child, _, rfl, hchild, hfault⟩⟩
    · exact .inlineAtTop hnode hinline
    · exact .missingBlock hnode hnone
    · rw [Nat.zero_add] at hfault
      rcases hfault with hblock | hnone
      · rw [element_member_element]
        exact .blockInParagraph hnode hchild hblock
      · exact .missingInline hnode hchild hnone
  · rintro (⟨hnode, hinline⟩ | ⟨hparagraph, hnode, hblock⟩ | ⟨hnode, hnone⟩ |
      ⟨hparagraph, hnode, hnone⟩)
    · exact ⟨_, _, _, rfl, hnode, .inline hinline⟩
    · refine ⟨_, _, _, rfl, hparagraph, .inParagraph ⟨_, _, _, rfl, hnode, ?_⟩⟩
      rw [Nat.zero_add, ← element_member_element]
      exact .block hblock
    · exact ⟨_, _, _, rfl, hnode, .missing hnone⟩
    · exact ⟨_, _, _, rfl, hparagraph, .inParagraph ⟨_, _, _, rfl, hnode, .missing hnone⟩⟩

/-- A tree is rendered exactly if all its nodes are well placed and all its slots are there, and
then as the markup of its nodes in order. Otherwise it fails with the first node, in the order of
the document, that is misplaced or has no slot. -/
theorem nodes_rendered_iff (slots : SlotTable) (path : Text) (ns : List Node) :
    (∀ t, render slots path (.nodes ns) = .ok t ↔
      (∀ node ∈ ns, Placed node) ∧
        (∀ slot ∈ ns.flatMap slotsOf, (Table.find? slot slots).isSome = true) ∧
        t = ns.flatMap (topMarkup slots)) ∧
    ∀ e, render slots path (.nodes ns) = .error e ↔
      ∃ address, Offends slots path ns address e ∧
        ∀ other e', Offends slots path ns other e' → ¬ other < address := by
  have hreports : Reports (render slots path (.nodes ns)) (Offends slots path ns) :=
    (reports_sequence reports_topNode).congr fun _ _ => faultIn_iff_offends
  refine ⟨fun t => ?_, hreports.fails⟩
  have htop : ∀ path node t, topNode slots path node = .ok t ↔
      (Placed node ∧ ∀ slot ∈ slotsOf node, (Table.find? slot slots).isSome = true) ∧
        t = topMarkup slots node := fun _ _ _ => topNode_eq_ok
  rw [render, sequence_eq_ok htop, forall₂_and, and_assoc, List.forall_mem_flatMap]

/-- A tree with all kinds of nodes in their places, and a tree with a misplaced node before a slot
that is missing. -/
theorem nodes_rendered_iff_filled :
    let slots : SlotTable := [("a", "<b>1</b>"), ("fig", "<p>F</p>")]
    render slots "body" (.nodes
      [.paragraph [.text "s < t & u", .math "<mi>x</mi>", .inlineSlot "a"], .blockSlot "fig"]) =
      .ok (("<p>s &lt; t &amp; u<math xmlns=\"http://www.w3.org/1998/Math/MathML\">" : Text) ++
        "<mi>x</mi></math><b>1</b></p><div><p>F</p></div>") ∧
    render slots "body" (.nodes [.blockSlot "fig", .paragraph [.text "Q", .paragraph []],
      .blockSlot "t"]) = .error (.schema "body[1].content[1]" .blockInParagraph) ∧
    render slots "body" (.nodes [.blockSlot "t", .text "Q"]) = .error (.slots (.missing "t")) := by
  intro slots
  refine ⟨((nodes_rendered_iff slots "body" _).1 _).2 ⟨?_, ?_, ?_⟩, rfl, rfl⟩
  · simp only [List.forall_mem_cons, Placed]
    exact ⟨by simp [Node.isInline], trivial, nofun⟩
  · decide
  · decide

end AssessmentItems.PlacedNodes
