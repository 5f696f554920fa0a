import AssessmentItems.ContentMarkup
import AssessmentItems.Proofs.Substitution

/-!
Trees of nodes agree with the markup that they stand for. The markup has a placeholder for
each slot of the tree, where rendering the tree puts in the content of the slot. If the
markup resolves, the tree renders, and resolves to the same text: contents that are put in
earlier are resolved with more room, and a placeholder that came about between them would be
left over in the text.
-/
namespace AssessmentItems.NodeMarkup

open Slots Escaping ContentMarkup Results Pieces Placeholders Tags Substitution

/-- The markup of a node in a paragraph, with a placeholder for a slot. -/
def inlineForm : Node → Text
  | .text content => escapeText content
  | .math markup => "<math xmlns=\"http://www.w3.org/1998/Math/MathML\">" ++ markup ++ "</math>"
  | .inlineSlot slot => placeholder slot
  | .paragraph _ | .blockSlot _ => []

def topForm : Node → Text
  | .paragraph content => "<p>" ++ content.flatMap inlineForm ++ "</p>"
  | .blockSlot slot => "<div>" ++ placeholder slot ++ "</div>"
  | .text _ | .math _ | .inlineSlot _ => []

def markupForm (ns : List Node) : Text := ns.flatMap topForm

def InParagraph : Node → Prop
  | .text _ | .math _ => True
  | .inlineSlot slot => isValidName slot = true
  | .paragraph _ | .blockSlot _ => False

def AtTop : Node → Prop
  | .paragraph content => ∀ node ∈ content, InParagraph node
  | .blockSlot slot => isValidName slot = true
  | .text _ | .math _ | .inlineSlot _ => False

/-- Nothing that follows a node in a paragraph makes a placeholder of it. -/
theorem apart_inlineForm {node : Node} (h : InParagraph node) (b : Text) :
    Apart placeholder? (inlineForm node) b := by
  cases node with
  | text content => exact apart_of_not_mem (not_mem_escapeText content) b
  | math markup =>
    exact withinTag_placeholder?.apart_close b (getLast?_append_right rfl _)
  | inlineSlot slot =>
    exact withinTag_placeholder?.apart_close b (getLast?_spelling (wellFormed_placeholder h))
  | paragraph content => exact h.elim
  | blockSlot slot => exact h.elim

theorem apart_topForm {node : Node} (h : AtTop node) (b : Text) :
    Apart placeholder? (topForm node) b := by
  cases node with
  | paragraph content =>
    exact withinTag_placeholder?.apart_close b (getLast?_append_right rfl _)
  | blockSlot slot =>
    exact withinTag_placeholder?.apart_close b (getLast?_append_right rfl _)
  | text content => exact h.elim
  | math markup => exact h.elim
  | inlineSlot slot => exact h.elim

/-- What is rendered at any path is substituted as a form is, if this leaves nothing over. -/
def Agrees (slots : SlotTable) (form : Text) (rendered : Text → Except CompileError Text) : Prop :=
  ∀ u, substitute slots maxDepth [] form = .ok u → leftover u = [] →
    ∀ path, ∃ t, rendered path = .ok t ∧ substitute slots maxDepth [] t = .ok u

section

variable {slots : SlotTable}

theorem agrees_self (form : Text) : Agrees slots form fun _ => .ok form :=
  fun _ hu _ _ => ⟨form, rfl, hu⟩

/-- The content of a slot agrees with a placeholder of the slot. -/
theorem agrees_filling {slot : Text} (h : isValidName slot = true) :
    Agrees slots (placeholder slot) fun _ => filling slots slot := by
  intro u hu _ _
  obtain ⟨inner, hinner, hsub⟩ := ((substitute_placeholder h).1 hu).exists_inner
  refine ⟨inner, ?_, hsub⟩
  rw [filling, hinner]

/-- What agrees still agrees between the same tags. -/
theorem Agrees.between {form start finish : Text} {rendered : Text → Except CompileError Text}
    (h : Agrees slots form rendered) (hstart : start.getLast? = some '>')
    (hfinish : finish.head? = some '<') (hstart' : referenced start = [])
    (hfinish' : referenced finish = []) :
    Agrees slots (start ++ form ++ finish) fun path =>
      (rendered path).map fun t => start ++ t ++ finish := by
  intro w hw hleft path
  obtain ⟨u, hu, rfl⟩ := (substitute_between hstart hfinish hstart' hfinish').1 hw
  obtain ⟨t, ht, hsub⟩ := h u hu (leftover_of_part hleft ⟨start, finish, rfl⟩) path
  refine ⟨_, map_eq_ok.2 ⟨t, ht, rfl⟩, ?_⟩
  exact (substitute_between hstart hfinish hstart' hfinish').2 ⟨u, hsub, rfl⟩

/-- Nodes agree one after another, if none of their forms goes on with what follows it. -/
theorem agrees_sequence {form : Node → Text} {render : Text → Node → Except CompileError Text}
    {ns : List Node} (hapart : ∀ node ∈ ns, ∀ b, Apart placeholder? (form node) b)
    (hagrees : ∀ node ∈ ns, Agrees slots (form node) fun path => render path node) (index : ℕ) :
    Agrees slots (ns.flatMap form) fun path => sequence render path index ns := by
  induction ns generalizing index with
  | nil => exact agrees_self []
  | cons node rest ih =>
    rw [List.forall_mem_cons] at hapart hagrees
    intro w hw hleft path
    rw [List.flatMap_cons, substitute_append (hapart.1 _)] at hw
    obtain ⟨u, v, hu, hv, rfl⟩ := hw
    obtain ⟨first, hfirst, hfirst'⟩ := hagrees.1 u hu
      (leftover_of_part hleft (List.prefix_append u v).isInfix) (Path.element path index)
    obtain ⟨others, hothers, hothers'⟩ := ih hapart.2 hagrees.2 (index + 1) v hv
      (leftover_of_part hleft (List.suffix_append u v).isInfix) path
    refine ⟨first ++ others, ?_, substitute_append_of_leftover hfirst' hothers' hleft⟩
    exact bind_eq_ok.2 ⟨first, hfirst, bind_eq_ok.2 ⟨others, hothers, rfl⟩⟩

theorem agrees_inlineNode {node : Node} (h : InParagraph node) :
    Agrees slots (inlineForm node) fun path => inlineNode slots path node := by
  cases node with
  | text content => exact agrees_self (escapeText content)
  | math markup => exact agrees_self (mathElement markup)
  | inlineSlot slot => exact agrees_filling h
  | paragraph content => exact h.elim
  | blockSlot slot => exact h.elim

theorem agrees_topNode {node : Node} (h : AtTop node) :
    Agrees slots (topForm node) fun path => topNode slots path node := by
  cases node with
  | paragraph content =>
    have hcontent : Agrees slots (content.flatMap inlineForm) fun path =>
        sequence (inlineNode slots) path 0 content :=
      agrees_sequence (fun node hnode => apart_inlineForm (h node hnode))
        (fun node hnode => agrees_inlineNode (h node hnode)) 0
    intro w hw hleft path
    exact hcontent.between rfl rfl (by decide +kernel) (by decide +kernel) w hw hleft _
  | blockSlot slot =>
    exact (agrees_filling h).between rfl rfl (by decide +kernel) (by decide +kernel)
  | text content => exact h.elim
  | math markup => exact h.elim
  | inlineSlot slot => exact h.elim

/-- If the markup that a tree stands for resolves, the tree renders and resolves to the same
text. -/
theorem nodes_agree_with_markup {ns : List Node} (hplaced : ∀ node ∈ ns, AtTop node)
    {r : Text} (hresolve : resolve slots (markupForm ns) = .ok r) (path : Text) :
    ∃ t, render slots path (.nodes ns) = .ok t ∧ resolve slots t = .ok r := by
  obtain ⟨hsub, hleft⟩ := resolve_eq_ok.1 hresolve
  have hagrees : Agrees slots (markupForm ns) fun path => sequence (topNode slots) path 0 ns :=
    agrees_sequence (fun node hnode => apart_topForm (hplaced node hnode))
      (fun node hnode => agrees_topNode (hplaced node hnode)) 0
  obtain ⟨t, ht, ht'⟩ := hagrees r hsub hleft path
  exact ⟨t, ht, resolve_eq_ok.2 ⟨ht', hleft⟩⟩

end

/-- A slot is filled in a paragraph, behind text and math, and by way of another slot in a
block. -/
theorem nodes_agree_with_markup_slots :
    let slots : SlotTable := [("a", "<b>1</b>"), ("c", placeholder "a")]
    let ns : List Node :=
      [.paragraph [.text "s < t", .math "<mi>x</mi>", .inlineSlot "a"], .blockSlot "c"]
    let r : Text := "<p>s &lt; t" ++
      "<math xmlns=\"http://www.w3.org/1998/Math/MathML\"><mi>x</mi></math>" ++
      "<b>1</b></p><div><b>1</b></div>"
    (∀ node ∈ ns, AtTop node) ∧ resolve slots (markupForm ns) = .ok r ∧
      ∃ t, render slots "body" (.nodes ns) = .ok t ∧ resolve slots t = .ok r := by
  intro slots ns r
  have hplaced : ∀ node ∈ ns, AtTop node := by
    simp only [ns, List.forall_mem_cons, List.not_mem_nil, AtTop, InParagraph]
    exact ⟨⟨trivial, trivial, by decide, nofun⟩, by decide, nofun⟩
  have hresolve : resolve slots (markupForm ns) = .ok r := by decide +kernel
  exact ⟨hplaced, hresolve, nodes_agree_with_markup hplaced hresolve "body"⟩

end AssessmentItems.NodeMarkup
