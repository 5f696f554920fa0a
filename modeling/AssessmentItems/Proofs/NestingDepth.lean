import AssessmentItems.ContentMarkup
import AssessmentItems.Proofs.SlotChains

/-!
How deep slots are nested in content that was rendered and resolved. A chain of references
that begins in markup stays within the limit. The slots of nodes are filled while nodes are
rendered, before the limit counts, so a chain that begins at such a slot can have one slot
more. It has none more exactly if each slot of a node could be filled as a placeholder is.
-/
namespace AssessmentItems.NestingDepth

open Slots ContentMarkup Results Placeholders Substitution SlotChains Tags

mutual

def leaves : Node → List Node
  | .paragraph content => leavesOf content
  | .text content => [.text content]
  | .math markup => [.math markup]
  | .inlineSlot slot => [.inlineSlot slot]
  | .blockSlot slot => [.blockSlot slot]

def leavesOf : List Node → List Node
  | [] => []
  | node :: rest => leaves node ++ leavesOf rest

end

def slotOf? : Node → Option Text
  | .inlineSlot slot | .blockSlot slot => some slot
  | .text _ | .math _ | .paragraph _ => none

def markupOf? : Node → Option Text
  | .math markup => some markup
  | .text _ | .paragraph _ | .inlineSlot _ | .blockSlot _ => none

def slotNodes : Content → List Text
  | .markup _ => []
  | .nodes ns => (leavesOf ns).filterMap slotOf?

def markups : Content → List Text
  | .markup t => [t]
  | .nodes ns => (leavesOf ns).filterMap markupOf?

def named (content : Content) : List Text :=
  slotNodes content ++ (markups content).flatMap referenced

theorem mem_leavesOf {leaf : Node} {ns : List Node} :
    leaf ∈ leavesOf ns ↔ ∃ node ∈ ns, leaf ∈ leaves node := by
  induction ns with
  | nil => simp [leavesOf]
  | cons node ns ih => simp [leavesOf, ih]

/-- What a node refers to stands in a text: its markup, and what fills its slot. -/
structure Brought (slots : SlotTable) (t : Text) (node : Node) : Prop where
  markup : ∀ markup, markupOf? node = some markup → markup <:+: t
  slot : ∀ slot, slotOf? node = some slot →
    ∃ inner, Table.find? slot slots = some inner ∧ inner <:+: t

section

variable {slots : SlotTable} {path t u : Text} {node leaf : Node} {ns : List Node}

theorem Brought.mono (h : Brought slots t node) (htu : t <:+: u) : Brought slots u node where
  markup markup hmarkup := (h.markup markup hmarkup).trans htu
  slot slot hslot := by
    obtain ⟨inner, hinner, hpart⟩ := h.slot slot hslot
    exact ⟨inner, hinner, hpart.trans htu⟩

theorem filling_eq_ok {slot : Text} :
    filling slots slot = .ok t ↔ Table.find? slot slots = some t := by
  unfold filling
  cases Table.find? slot slots <;> simp

theorem sequence_part {render : Text → Node → Except CompileError Text} {index : ℕ}
    (h : sequence render path index ns = .ok t) (hnode : node ∈ ns) :
    ∃ path u, render path node = .ok u ∧ u <:+: t := by
  induction ns generalizing index t with
  | nil => simp at hnode
  | cons first rest ih =>
    obtain ⟨u, hu, h⟩ := bind_eq_ok.1 h
    obtain ⟨v, hv, ht⟩ := bind_eq_ok.1 h
    obtain rfl := Except.ok.inj ht
    rcases List.mem_cons.1 hnode with rfl | hnode
    · exact ⟨_, u, hu, (List.prefix_append u v).isInfix⟩
    · obtain ⟨path, w, hw, hpart⟩ := ih hv hnode
      exact ⟨path, w, hw, hpart.trans (List.suffix_append u v).isInfix⟩

theorem brought_of_inlineNode (h : inlineNode slots path node = .ok t)
    (hleaf : leaf ∈ leaves node) : Brought slots t leaf := by
  cases node with
  | text content =>
    obtain rfl := List.mem_singleton.1 hleaf
    exact ⟨nofun, nofun⟩
  | math markup =>
    obtain rfl := List.mem_singleton.1 hleaf
    obtain rfl := Except.ok.inj h
    refine ⟨?_, nofun⟩
    rintro _ ⟨⟩
    exact ⟨_, _, rfl⟩
  | inlineSlot slot =>
    obtain rfl := List.mem_singleton.1 hleaf
    refine ⟨nofun, ?_⟩
    rintro _ ⟨⟩
    exact ⟨t, filling_eq_ok.1 h, List.infix_rfl⟩
  | paragraph content => simp [inlineNode] at h
  | blockSlot slot => simp [inlineNode] at h

theorem brought_of_topNode (h : topNode slots path node = .ok t) (hleaf : leaf ∈ leaves node) :
    Brought slots t leaf := by
  cases node with
  | paragraph content =>
    obtain ⟨u, hu, rfl⟩ := map_eq_ok.1 h
    obtain ⟨node, hnode, hleaf⟩ := mem_leavesOf.1 hleaf
    obtain ⟨_, v, hv, hpart⟩ := sequence_part hu hnode
    exact (brought_of_inlineNode hv hleaf).mono (hpart.trans ⟨_, _, rfl⟩)
  | blockSlot slot =>
    obtain rfl := List.mem_singleton.1 hleaf
    obtain ⟨u, hu, rfl⟩ := map_eq_ok.1 h
    refine ⟨nofun, ?_⟩
    rintro _ ⟨⟩
    exact ⟨u, filling_eq_ok.1 hu, _, _, rfl⟩
  | text content => simp [topNode] at h
  | math markup => simp [topNode] at h
  | inlineSlot slot => simp [topNode] at h

end

section

variable {slots : SlotTable} {path t name : Text} {content : Content}

theorem markup_part (h : render slots path content = .ok t) {markup : Text}
    (hmarkup : markup ∈ markups content) : markup <:+: t := by
  cases content with
  | markup whole =>
    obtain rfl := List.mem_singleton.1 hmarkup
    obtain rfl := Except.ok.inj h
    exact List.infix_rfl
  | nodes ns =>
    obtain ⟨leaf, hleaf, hmarkup⟩ := List.mem_filterMap.1 hmarkup
    obtain ⟨node, hnode, hleaf⟩ := mem_leavesOf.1 hleaf
    obtain ⟨_, u, hu, hpart⟩ := sequence_part h hnode
    exact ((brought_of_topNode hu hleaf).mono hpart).markup markup hmarkup

theorem slot_part (h : render slots path content = .ok t) (hname : name ∈ slotNodes content) :
    ∃ inner, Table.find? name slots = some inner ∧ inner <:+: t := by
  cases content with
  | markup whole => simp [slotNodes] at hname
  | nodes ns =>
    obtain ⟨leaf, hleaf, hname⟩ := List.mem_filterMap.1 hname
    obtain ⟨node, hnode, hleaf⟩ := mem_leavesOf.1 hleaf
    obtain ⟨_, u, hu, hpart⟩ := sequence_part h hnode
    exact ((brought_of_topNode hu hleaf).mono hpart).slot name hname

/-- Where the references of a rendered content are limited, so are those of each slot among
its nodes, with room for the slot itself. -/
theorem limited_slotNode {length : ℕ} (h : render slots path content = .ok t)
    (hlimited : Limited slots length (referenced t)) (hname : name ∈ slotNodes content) :
    Limited slots (length + 1) [name] := by
  obtain ⟨inner, hinner, hpart⟩ := slot_part h hname
  intro names hnames
  cases hnames with
  | last hstart =>
    obtain rfl := List.mem_singleton.1 hstart
    simp [hinner]
  | next hstart hinner' hrest =>
    obtain rfl := List.mem_singleton.1 hstart
    obtain rfl := Option.mem_unique hinner hinner'
    obtain ⟨hdefined, hlength⟩ :=
      hlimited _ (hrest.mono fun n hn => mem_referenced_of_part hpart hn)
    exact ⟨List.forall_mem_cons.2 ⟨by simp [hinner], hdefined⟩, Nat.succ_le_succ hlength⟩

theorem chain_named {names : List Text} (h : Chain slots (named content) names) :
    (∃ slot ∈ slotNodes content, Chain slots [slot] names) ∨
      ∃ markup ∈ markups content, Chain slots (referenced markup) names := by
  obtain ⟨name, hname, hnames⟩ := h.exists_start
  rcases List.mem_append.1 hname with hslot | hmarkup
  · exact Or.inl ⟨name, hslot, hnames⟩
  · obtain ⟨markup, hmarkup, hname⟩ := List.mem_flatMap.1 hmarkup
    exact Or.inr ⟨markup, hmarkup, hnames.mono (by simpa using hname)⟩

/-- In content that was rendered and resolved, slots are nested at most one level deeper than
the limit. They stay within it exactly if each slot among the nodes can be filled within it;
markup has no such nodes. -/
theorem nesting_depth {r : Text} (hrender : render slots path content = .ok t)
    (hresolve : resolve slots t = .ok r) :
    (∀ names, Chain slots (named content) names → names.length ≤ maxDepth + 1) ∧
    ((∀ names, Chain slots (named content) names → names.length ≤ maxDepth) ↔
      ∀ slot ∈ slotNodes content, ∃ filling, Fills slots maxDepth [] slot filling) := by
  have hlimited : Limited slots maxDepth (referenced t) :=
    substitute_iff_limited.1 ⟨r, (resolve_eq_ok.1 hresolve).1⟩
  have hmarkup : ∀ markup ∈ markups content, ∀ names, Chain slots (referenced markup) names →
      names.length ≤ maxDepth := by
    intro markup hmarkup names hnames
    have hpart := markup_part hrender hmarkup
    exact (hlimited names (hnames.mono fun n hn => mem_referenced_of_part hpart hn)).2
  refine ⟨?_, ?_, ?_⟩
  · intro names hnames
    rcases chain_named hnames with ⟨slot, hslot, hnames⟩ | ⟨markup, hmem, hnames⟩
    · exact (limited_slotNode hrender hlimited hslot names hnames).2
    · exact (hmarkup markup hmem names hnames).trans (Nat.le_succ _)
  · intro h slot hslot
    have hslots : Limited slots maxDepth [slot] := by
      intro names hnames
      refine ⟨(limited_slotNode hrender hlimited hslot names hnames).1, h names ?_⟩
      exact hnames.mono (by simpa [named] using Or.inl hslot)
    exact exists_fills hslots (fun _ _ _ _ => List.not_mem_nil) List.mem_cons_self
  · intro h names hnames
    rcases chain_named hnames with ⟨slot, hslot, hnames⟩ | ⟨markup, hmem, hnames⟩
    · obtain ⟨filling, hfilling⟩ := h slot hslot
      let fill : Text → Text := fun _ => filling
      have hfills : ∀ name ∈ [slot], Fills slots maxDepth [] name (fill name) := by
        intro name hname
        rwa [List.mem_singleton.1 hname]
      exact (limited_of_fills hfills names hnames).2
    · exact hmarkup markup hmem names hnames

end

theorem nesting_depth_of_block_slot :
    let slots : SlotTable := [("a", placeholder "b"), ("b", "x")]
    let content : Content := .nodes [.blockSlot "a"]
    render slots "body" content = .ok (blockElement (placeholder "b")) ∧
      resolve slots (blockElement (placeholder "b")) = .ok "<div>x</div>" ∧
      ∀ names, Chain slots (named content) names → names.length ≤ maxDepth + 1 := by
  intro slots content
  have hrender : render slots "body" content = .ok (blockElement (placeholder "b")) := by
    decide +kernel
  have hresolve : resolve slots (blockElement (placeholder "b")) = .ok "<div>x</div>" := by
    decide +kernel
  exact ⟨hrender, hresolve, (nesting_depth hrender hresolve).1⟩

/-- Slots that each hold a placeholder of the next are a chain of references. -/
theorem chain_of_placeholders {slots : SlotTable} {starts rest : List Text} {first : Text}
    (hfirst : first ∈ starts)
    (h : (first :: rest).IsChain fun name next =>
      Table.find? name slots = some (placeholder next) ∧ isValidName next = true) :
    Chain slots starts (first :: rest) := by
  induction rest generalizing first starts with
  | nil => exact .last hfirst
  | cons next rest ih =>
    obtain ⟨⟨hinner, hvalid⟩, hrest⟩ := List.isChain_cons_cons.1 h
    refine .next hfirst hinner (ih ?_ hrest)
    rw [referenced_placeholder hvalid]
    exact List.mem_singleton_self next

/-- Slots, the content of each a placeholder of the next. -/
def linked : List Text → SlotTable
  | [] => []
  | [last] => [(last, "x")]
  | name :: next :: rest => (name, placeholder next) :: linked (next :: rest)

/-- Eleven slots are nested in a block slot that resolves; as a placeholder in markup, the
block slot is refused. -/
theorem nesting_beyond_limit :
    let names : List Text := ["a", "b", "c", "d", "e", "f", "g", "h", "i", "j", "k"]
    let content : Content := .nodes [.blockSlot "a"]
    render (linked names) "body" content = .ok (blockElement (placeholder "b")) ∧
      resolve (linked names) (blockElement (placeholder "b")) = .ok "<div>x</div>" ∧
      Chain (linked names) (named content) names ∧ maxDepth < names.length ∧
      resolve (linked names) (blockElement (placeholder "a")) = .error (.depthExceeded "k") := by
  intro names content
  refine ⟨by decide +kernel, by decide +kernel, ?_, by decide, by decide +kernel⟩
  exact chain_of_placeholders (by decide +kernel) (by decide +kernel)

end AssessmentItems.NestingDepth
