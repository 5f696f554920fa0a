import AssessmentItems.Compiler
import AssessmentItems.Proofs.EmbeddedWidgets
import AssessmentItems.Proofs.FilledMarkup

/-!
What fills the slots of an item. The markup of an interaction and an embedded widget begin and
end with a tag, and every authored fragment of an interaction stands between two tags of the
markup. The texts of widgets, and identifiers, are escaped, so only fragments could bring
math markup into a slot that is not allowed.
-/
namespace AssessmentItems.SlotContents

open Text ContentRules Slots Escaping Pieces Placeholders RuleBounds FilledMarkup

theorem lines_cons (part : Text) (rest : List Text) :
    lines (part :: rest) = part ++ rest.flatMap ('\n' :: ·) := by
  induction rest generalizing part with
  | nil => simp [lines, join]
  | cons next rest ih =>
    have hjoin : lines (part :: next :: rest) = part ++ (['\n'] ++ lines (next :: rest)) := by
      simp [lines, join]
    rw [hjoin, ih next]
    rfl

theorem lines_append {parts : List Text} (h : parts ≠ []) (more : List Text) :
    lines (parts ++ more) = lines parts ++ more.flatMap ('\n' :: ·) := by
  obtain ⟨part, rest, rfl⟩ := List.exists_cons_of_ne_nil h
  rw [List.cons_append, lines_cons, lines_cons, List.flatMap_append, List.append_assoc]

theorem part_flatMap {α : Type} {f : α → Text} {a : α} {as : List α} (ha : a ∈ as) :
    f a <:+: as.flatMap f := by
  obtain ⟨before, after, rfl⟩ := List.append_of_mem ha
  rw [List.flatMap_append, List.flatMap_cons]
  exact ⟨_, _, List.append_assoc _ _ _⟩

/-- A text stands in another between the end of one tag and the opening of another. -/
def Framed (u t : Text) : Prop :=
  ∃ before after, t = before ++ (u ++ after) ∧ before.getLast? = some '>' ∧ after.head? = some '<'

theorem Framed.between {start finish : Text} (hstart : start.getLast? = some '>')
    (hfinish : finish.head? = some '<') (u : Text) : Framed u (start ++ u ++ finish) :=
  ⟨start, finish, List.append_assoc _ _ _, hstart, hfinish⟩

theorem Framed.within {u t t' : Text} (h : Framed u t) (ht : t <:+: t') : Framed u t' := by
  obtain ⟨before, after, rfl, hbefore, hafter⟩ := h
  obtain ⟨a, b, rfl⟩ := ht
  exact ⟨a ++ before, after ++ b, by simp only [List.append_assoc],
    getLast?_append_right hbefore a, head?_append_left hafter b⟩

open Interaction

def choiceListParts (prompt : Option Text) (choices : List Choice) : List Text :=
  (prompt.map fun p => ("<qti-prompt>" ++ p ++ "</qti-prompt>" : Text)).toList ++
    choices.map choiceMarkup

theorem choiceList_eq (element attributes : Text) (prompt : Option Text) (choices : List Choice) :
    choiceList element attributes prompt choices =
      ("<" ++ element ++ " " ++ attributes ++ ">" : Text) ++
        (choiceListParts prompt choices ++ [("</" ++ element ++ ">" : Text)]).flatMap
          ('\n' :: ·) := by
  let first : Text := "<" ++ element ++ " " ++ attributes ++ ">"
  have hlines : choiceList element attributes prompt choices =
      lines (first :: (choiceListParts prompt choices ++ [("</" ++ element ++ ">" : Text)])) := rfl
  rw [hlines, lines_cons]

theorem part_choiceList (element attributes : Text) {prompt : Option Text} {choices : List Choice}
    {part : Text} (hpart : part ∈ choiceListParts prompt choices) :
    part <:+: choiceList element attributes prompt choices := by
  rw [choiceList_eq]
  apply (List.suffix_cons '\n' part).isInfix.trans
  have hline : '\n' :: part <:+: (choiceListParts prompt choices ++
      [("</" ++ element ++ ">" : Text)]).flatMap ('\n' :: ·) :=
    part_flatMap (List.mem_append_left _ hpart)
  exact hline.trans (List.suffix_append _ _).isInfix

theorem framed_content (c : Choice) : Framed c.content (choiceMarkup c) := by
  let start : Text := "<qti-simple-choice identifier=\"" ++ escapeAttribute c.identifier ++ "\">"
  let finish : Text :=
    (c.feedback.map (feedbackMarkup c.identifier)).getD [] ++ "</qti-simple-choice>"
  refine ⟨start, finish, ?_, getLast?_append_right rfl _, ?_⟩
  · unfold choiceMarkup
    simp only [start, finish, List.append_assoc]
  · cases hfeedback : c.feedback with
    | none =>
      simp only [finish, hfeedback]
      rfl
    | some feedback =>
      simp only [finish, hfeedback]
      rfl

theorem framed_feedback {c : Choice} {feedback : Text} (h : c.feedback = some feedback) :
    Framed feedback (choiceMarkup c) := by
  have hframed : Framed feedback (feedbackMarkup c.identifier feedback) :=
    Framed.between (getLast?_append_right rfl _) rfl feedback
  refine hframed.within ?_
  unfold choiceMarkup
  rw [h]
  exact ⟨_, _, rfl⟩

theorem framed_inlineOption (c : InlineOption) : Framed c.content (inlineOptionMarkup c) :=
  Framed.between (getLast?_append_right rfl _) rfl c.content

theorem framed_choiceList {path : Text} {prompt : Option Text} {choices : List Choice}
    {f : Fragment}
    (hf : f ∈ Fragment.ofPrompt path prompt ++ choices.flatMap (Fragment.ofChoice path))
    (element attributes : Text) :
    Framed f.content (choiceList element attributes prompt choices) := by
  have hpart : ∃ part ∈ choiceListParts prompt choices, Framed f.content part := by
    rcases List.mem_append.1 hf with hf | hf
    · obtain ⟨p, hp, rfl⟩ := Option.map_eq_some_iff.1 (Option.mem_toList.1 hf)
      have hframed : Framed p ("<qti-prompt>" ++ p ++ "</qti-prompt>" : Text) :=
        Framed.between rfl rfl p
      refine ⟨_, List.mem_append_left _ ?_, hframed⟩
      rw [hp]
      exact List.mem_singleton_self _
    · obtain ⟨c, hc, hf⟩ := List.mem_flatMap.1 hf
      refine ⟨choiceMarkup c, List.mem_append_right _ (List.mem_map_of_mem hc), ?_⟩
      rcases List.mem_cons.1 hf with rfl | hf
      · exact framed_content c
      · obtain ⟨feedback, hfeedback, rfl⟩ := Option.map_eq_some_iff.1 (Option.mem_toList.1 hf)
        exact framed_feedback hfeedback
  obtain ⟨part, hpart, hframed⟩ := hpart
  exact hframed.within (part_choiceList element attributes hpart)

/-- Every fragment of an interaction stands between two tags of its markup. -/
theorem framed_ofInteraction {path : Text} {i : Interaction} {f : Fragment}
    (hf : f ∈ Fragment.ofInteraction path i) : Framed f.content i.markup := by
  cases i with
  | choice i => exact framed_choiceList hf _ _
  | order i => exact framed_choiceList hf _ _
  | textEntry i => exact absurd hf List.not_mem_nil
  | inlineChoice i =>
    obtain ⟨c, hc, rfl⟩ := List.mem_map.1 hf
    refine (framed_inlineOption c).within ((part_flatMap hc).trans ?_)
    exact ⟨_, _, rfl⟩

theorem tagged_choiceList (element attributes : Text) (prompt : Option Text)
    (choices : List Choice) : Tagged (choiceList element attributes prompt choices) := by
  rw [choiceList_eq, List.flatMap_append, List.flatMap_singleton, ← List.append_assoc]
  refine Tagged.append rfl ?_
  rw [← List.cons_append]
  exact getLast?_append_right rfl _

theorem tagged_markup (i : Interaction) : Tagged i.markup := by
  cases i with
  | choice i => exact tagged_choiceList _ _ _ _
  | order i => exact tagged_choiceList _ _ _ _
  | textEntry i => exact ⟨rfl, getLast?_append_right rfl _⟩
  | inlineChoice i => exact ⟨rfl, getLast?_append_right rfl _⟩

theorem tagged_widget {w : Widget} {alt : Option Text} {rendered : Text}
    (h : Widget.placeholder w = .ok rendered) : Tagged (w.embed alt rendered) := by
  rcases EmbeddedWidgets.embed_cases h alt with ⟨table, -, hembed⟩ | ⟨-, width, height, hembed⟩
  · rw [hembed]
    exact ⟨rfl, getLast?_append_right rfl _⟩
  · rw [hembed]
    exact ⟨rfl, getLast?_append_right rfl _⟩

end AssessmentItems.SlotContents
