import AssessmentItems.Proofs.LegalCharacters
import AssessmentItems.Proofs.NestingDepth
import AssessmentItems.Proofs.SlotContents

/-!
Legal characters in contents, before and after their slots are filled. A placeholder goes with the
white space in it, which need not be allowed. Where that of all placeholders is, a content with
everything replaced is legal exactly if the content is, and the content of every slot that it
reaches. What rendering puts together from a tree are texts, mathematics and the contents of
slots, and no placeholder reaches from one into the next.
-/
namespace AssessmentItems.LegalContents

open Text Scanning Slots Escaping ContentMarkup Results Pieces Placeholders Substitution SlotChains
  FilledMarkup NestingDepth Tags LegalCharacters

theorem legal_written {α : Type} {write : α → Text} {ps : List (Piece α)} :
    Legal (written write ps) ↔
      (∀ c, Piece.character c ∈ ps → isXmlChar c = true) ∧
        ∀ a ∈ occurrences ps, Legal (write a) := by
  induction ps with
  | nil => simp
  | cons piece ps ih =>
    cases piece with
    | character c => simp [ih, and_assoc]
    | occurrence a => simp [ih, and_left_comm]

/-- The placeholders of a text, with the white space in them, are legal. -/
def Sound (t : Text) : Prop := ∀ p ∈ occurrences (segments t), Legal p.spelling

theorem legal_iff_written {t : Text} :
    Legal t ↔ (∀ c, Piece.character c ∈ segments t → isXmlChar c = true) ∧ Sound t := by
  have hwritten : written Placeholder.spelling (segments t) = t :=
    written_pieces spelled_placeholder t
  rw [Sound, ← legal_written, hwritten]

theorem sound_of_legal {t : Text} (h : Legal t) : Sound t := (legal_iff_written.1 h).2

theorem sound_of_not_mem {t : Text} (h : '<' ∉ t) : Sound t := by
  intro p hp
  have hname : p.name ∈ referenced t := mem_referenced.2 ⟨p, hp, rfl⟩
  rw [referenced_eq_nil (.inl h)] at hname
  exact absurd hname List.not_mem_nil

theorem legal_filled {fill : Text → Text} {content : Text} (h : Sound content) :
    Legal (filled fill content) ↔
      Legal content ∧ ∀ name ∈ referenced content, Legal (fill name) := by
  rw [filled, legal_written, legal_iff_written, and_iff_left h]
  refine and_congr_right fun _ => ?_
  simp only [mem_referenced]
  constructor
  · rintro hfill name ⟨p, hp, rfl⟩
    exact hfill p hp
  · exact fun hfill p hp => hfill p.name ⟨p, hp, rfl⟩

/-- A content with everything replaced is legal exactly if the content is and the content of
every slot that is reached. -/
theorem legal_replaced {slots : SlotTable}
    (hslots : ∀ name inner, Table.find? name slots = some inner → Sound inner)
    {content t : Text} (hreplaced : Replaced slots content t) (hcontent : Sound content) :
    Legal t ↔ Legal content ∧ AllReached slots content Legal := by
  induction hreplaced with
  | @all content inner fill hinner hfill ih =>
    rw [legal_filled hcontent, allReached_iff]
    refine and_congr_right fun _ => forall₂_congr fun name hname => ?_
    rw [ih name hname (hslots name _ (hinner name hname)), hinner name hname]
    simp

/-- A text with the characters and the placeholders of its sources, and tags of its own. -/
structure MadeOf (sources : List Text) (t : Text) : Prop where
  legal : Legal t ↔ ∀ s ∈ sources, Legal s
  placeholders : ∀ p ∈ occurrences (segments t), ∃ s ∈ sources, p ∈ occurrences (segments s)

namespace MadeOf

variable {sources more : List Text} {a b t : Text}

theorem nil : MadeOf [] [] := ⟨by simp, fun _ hp => absurd hp List.not_mem_nil⟩

theorem self (t : Text) : MadeOf [t] t := ⟨by simp, fun _ hp => ⟨t, List.mem_singleton_self t, hp⟩⟩

theorem append (ha : MadeOf sources a) (hb : MadeOf more b) (h : Apart placeholder? a b) :
    MadeOf (sources ++ more) (a ++ b) where
  legal := by rw [legal_append, ha.legal, hb.legal, List.forall_mem_append]
  placeholders := by
    intro p hp
    rw [segments_append h, occurrences_append] at hp
    rcases List.mem_append.1 hp with hp | hp
    · obtain ⟨s, hs, hp⟩ := ha.placeholders p hp
      exact ⟨s, List.mem_append_left _ hs, hp⟩
    · obtain ⟨s, hs, hp⟩ := hb.placeholders p hp
      exact ⟨s, List.mem_append_right _ hs, hp⟩

/-- Tags that are no placeholders. -/
theorem tag (hlegal : Legal t) (h : occurrences (segments t) = []) : MadeOf [] t :=
  ⟨iff_of_true hlegal (fun _ hs => absurd hs List.not_mem_nil),
    fun p hp => absurd hp (by simp [h])⟩

theorem opens (ha : MadeOf sources a) (hb : MadeOf more b) (hhead : b.head? = some '<') :
    MadeOf (sources ++ more) (a ++ b) :=
  ha.append hb (withinTag_placeholder?.apart_open a hhead)

theorem closes (ha : MadeOf sources a) (hb : MadeOf more b) (hlast : a.getLast? = some '>') :
    MadeOf (sources ++ more) (a ++ b) :=
  ha.append hb (withinTag_placeholder?.apart_close b hlast)

theorem between {start finish : Text} (hstart : MadeOf [] start) (h : MadeOf sources t)
    (hfinish : MadeOf [] finish) (hlast : start.getLast? = some '>')
    (hhead : finish.head? = some '<') : MadeOf sources (start ++ t ++ finish) := by
  have hwhole := (hstart.closes h hlast).opens hfinish hhead
  rwa [List.nil_append, List.append_nil] at hwhole

theorem flatMap {α : Type} {f : α → Text} {parts : α → List Text} {as : List α}
    (h : ∀ a ∈ as, MadeOf (parts a) (f a) ∧ (f a).getLast? = some '>') :
    MadeOf (as.flatMap parts) (as.flatMap f) := by
  induction as with
  | nil => exact .nil
  | cons a as ih =>
    rw [List.forall_mem_cons] at h
    exact h.1.1.closes (ih h.2) h.1.2

theorem line (h : MadeOf sources t) : MadeOf sources ('\n' :: t) := by
  have hbreak : MadeOf [] ['\n'] := .tag (by decide) (by decide)
  exact hbreak.append h (apart_of_not_mem (by decide) t)

theorem of_mem (h : MadeOf sources t) (hmem : ∀ s, s ∈ sources ↔ s ∈ more) : MadeOf more t := by
  refine ⟨?_, fun p hp => ?_⟩
  · rw [h.legal]
    exact forall_congr' fun s => imp_congr_left (hmem s)
  · obtain ⟨s, hs, hp⟩ := h.placeholders p hp
    exact ⟨s, (hmem s).1 hs, hp⟩

theorem sound (h : MadeOf sources t) (hsources : ∀ s ∈ sources, Sound s) : Sound t := by
  intro p hp
  obtain ⟨s, hs, hp⟩ := h.placeholders p hp
  exact hsources s hs p hp

theorem referenced {name : Text} (h : MadeOf sources t) (hname : name ∈ referenced t) :
    ∃ s ∈ sources, name ∈ Slots.referenced s := by
  obtain ⟨p, hp, rfl⟩ := mem_referenced.1 hname
  obtain ⟨s, hs, hp⟩ := h.placeholders p hp
  exact ⟨s, hs, mem_referenced.2 ⟨p, hp, rfl⟩⟩

end MadeOf

/-- What a leaf of a tree brings into the markup: an escaped text, mathematics, or the content
of its slot. -/
def source (slots : SlotTable) : Node → Text
  | .text content => escapeText content
  | .math markup => markup
  | .inlineSlot slot | .blockSlot slot => (Table.find? slot slots).getD []
  | .paragraph _ => []

def sources (slots : SlotTable) : Content → List Text
  | .markup t => [t]
  | .nodes ns => (leavesOf ns).map (source slots)

theorem leavesOf_eq (ns : List Node) : leavesOf ns = ns.flatMap leaves := by
  induction ns with
  | nil => rfl
  | cons node rest ih => rw [leavesOf, ih, List.flatMap_cons]

theorem madeOf_sequence {render : Text → Node → Except CompileError Text}
    {sources : Node → List Text} (hrender : ∀ path node u, render path node = .ok u →
      MadeOf (sources node) u ∧ ∀ b, Apart placeholder? u b)
    {path t : Text} {index : ℕ} {ns : List Node} (h : sequence render path index ns = .ok t) :
    MadeOf (ns.flatMap sources) t := by
  induction ns generalizing index t with
  | nil =>
    obtain rfl := Except.ok.inj h
    exact .nil
  | cons node rest ih =>
    obtain ⟨u, hu, h⟩ := bind_eq_ok.1 h
    obtain ⟨v, hv, h⟩ := bind_eq_ok.1 h
    obtain rfl := Except.ok.inj h
    obtain ⟨hmade, hapart⟩ := hrender _ node u hu
    exact hmade.append (ih hv) (hapart v)

section

variable {slots : SlotTable}
  (hslots : ∀ name inner, Table.find? name slots = some inner → Tagged inner)
include hslots

theorem madeOf_filling {slot t : Text} (h : filling slots slot = .ok t) :
    MadeOf [(Table.find? slot slots).getD []] t ∧ Tagged t := by
  have hinner := filling_eq_ok.1 h
  rw [hinner]
  exact ⟨.self t, hslots slot t hinner⟩

theorem madeOf_inlineNode {path u : Text} {node : Node} (h : inlineNode slots path node = .ok u) :
    MadeOf ((leaves node).map (source slots)) u ∧ ∀ b, Apart placeholder? u b := by
  cases node with
  | text content =>
    obtain rfl := Except.ok.inj h
    exact ⟨.self _, fun b => apart_of_not_mem (not_mem_escapeText content) b⟩
  | math markup =>
    obtain rfl := Except.ok.inj h
    have hmade : MadeOf [markup] (mathElement markup) :=
      (MadeOf.tag (by decide) (by decide +kernel)).between (.self markup)
        (.tag (by decide) (by decide +kernel)) rfl rfl
    exact ⟨hmade, fun b => withinTag_placeholder?.apart_close b (getLast?_append_right rfl _)⟩
  | inlineSlot slot =>
    obtain ⟨hmade, htagged⟩ := madeOf_filling hslots h
    exact ⟨hmade, fun b => withinTag_placeholder?.apart_close b htagged.last⟩
  | paragraph content => simp [inlineNode] at h
  | blockSlot slot => simp [inlineNode] at h

theorem madeOf_topNode {path u : Text} {node : Node} (h : topNode slots path node = .ok u) :
    MadeOf ((leaves node).map (source slots)) u ∧ ∀ b, Apart placeholder? u b := by
  cases node with
  | paragraph content =>
    obtain ⟨t, ht, rfl⟩ := map_eq_ok.1 h
    have hcontent : MadeOf ((leavesOf content).map (source slots)) t := by
      rw [leavesOf_eq, List.map_flatMap]
      exact madeOf_sequence (fun _ _ _ hnode => madeOf_inlineNode hslots hnode) ht
    have hmade : MadeOf ((leavesOf content).map (source slots)) (paragraphElement t) :=
      (MadeOf.tag (by decide) (by decide +kernel)).between hcontent
        (.tag (by decide) (by decide +kernel)) rfl rfl
    exact ⟨hmade, fun b => withinTag_placeholder?.apart_close b (getLast?_append_right rfl _)⟩
  | blockSlot slot =>
    obtain ⟨t, ht, rfl⟩ := map_eq_ok.1 h
    have hmade : MadeOf [(Table.find? slot slots).getD []] (blockElement t) :=
      (MadeOf.tag (by decide) (by decide +kernel)).between (madeOf_filling hslots ht).1
        (.tag (by decide) (by decide +kernel)) rfl rfl
    exact ⟨hmade, fun b => withinTag_placeholder?.apart_close b (getLast?_append_right rfl _)⟩
  | text content => simp [topNode] at h
  | math markup => simp [topNode] at h
  | inlineSlot slot => simp [topNode] at h

theorem madeOf_render {path t : Text} {content : Content} (h : render slots path content = .ok t) :
    MadeOf (sources slots content) t := by
  cases content with
  | markup whole =>
    obtain rfl := Except.ok.inj h
    exact .self whole
  | nodes ns =>
    rw [sources, leavesOf_eq, List.map_flatMap]
    exact madeOf_sequence (fun _ _ _ hnode => madeOf_topNode hslots hnode) h

end

def textOf? : Node → Option Text
  | .text content => some content
  | .math _ | .paragraph _ | .inlineSlot _ | .blockSlot _ => none

def texts : Content → List Text
  | .markup _ => []
  | .nodes ns => (leavesOf ns).filterMap textOf?

theorem forall_sources {slots : SlotTable} {content : Content} {good : Text → Prop}
    (hnil : good []) :
    (∀ s ∈ sources slots content, good s) ↔
      (∀ t ∈ texts content, good (escapeText t)) ∧ (∀ markup ∈ markups content, good markup) ∧
        ∀ slot ∈ slotNodes content, good ((Table.find? slot slots).getD []) := by
  cases content with
  | markup t => simp [sources, texts, markups, slotNodes]
  | nodes ns =>
    simp only [sources, texts, markups, slotNodes, List.forall_mem_map, List.mem_filterMap]
    constructor
    · intro h
      refine ⟨?_, ?_, ?_⟩
      all_goals
        rintro _ ⟨leaf, hleaf, heq⟩
        have hgood := h leaf hleaf
        cases leaf <;> simp [textOf?, markupOf?, slotOf?] at heq
        all_goals
          subst heq
          exact hgood
    · rintro ⟨htexts, hmarkups, hslots⟩ leaf hleaf
      cases leaf with
      | text content => exact htexts content ⟨_, hleaf, rfl⟩
      | math markup => exact hmarkups markup ⟨_, hleaf, rfl⟩
      | inlineSlot slot => exact hslots slot ⟨_, hleaf, rfl⟩
      | blockSlot slot => exact hslots slot ⟨_, hleaf, rfl⟩
      | paragraph content => exact hnil

section

variable {slots : SlotTable} {path t : Text} {content : Content} {names : List Text}

/-- A slot that a content leads to stands among its nodes, or the rendered content leads to it. -/
theorem slotNode_or_chain (h : render slots path content = .ok t)
    (hnames : Chain slots (named content) names) {name : Text} (hname : name ∈ names) :
    name ∈ slotNodes content ∨ ∃ names, Chain slots (referenced t) names ∧ name ∈ names := by
  rcases chain_named hnames with ⟨slot, hslot, hnames⟩ | ⟨markup, hmarkup, hnames⟩
  · obtain ⟨inner, hinner, hpart⟩ := slot_part h hslot
    cases hnames with
    | last hstart =>
      obtain rfl := List.mem_singleton.1 hstart
      obtain rfl := List.mem_singleton.1 hname
      exact .inl hslot
    | next hstart hinner' hrest =>
      obtain rfl := List.mem_singleton.1 hstart
      obtain rfl := Option.mem_unique hinner hinner'
      rcases List.mem_cons.1 hname with rfl | hname
      · exact .inl hslot
      · exact .inr ⟨_, hrest.mono fun n hn => mem_referenced_of_part hpart hn, hname⟩
  · have hpart := markup_part h hmarkup
    exact .inr ⟨names, hnames.mono fun n hn => mem_referenced_of_part hpart hn, hname⟩

/-- What a rendered content leads to, the content leads to. -/
theorem exists_chain_named (hmade : MadeOf (sources slots content) t)
    (hnames : Chain slots (referenced t) names) :
    ∃ longer, Chain slots (named content) longer ∧ names ⊆ longer := by
  obtain ⟨name, hname, hnames⟩ := hnames.exists_start
  by_contra hnone
  have hempty : name ∉ referenced [] := List.not_mem_nil
  have hnot : ∀ s ∈ sources slots content, name ∉ referenced s := by
    refine (forall_sources hempty).2 ⟨fun u _ => ?_, fun markup hmarkup hmem => ?_,
      fun slot hslot hmem => ?_⟩
    · rw [referenced_eq_nil (.inl (not_mem_escapeText u))]
      exact List.not_mem_nil
    · refine hnone ⟨names, hnames.mono ?_, List.Subset.refl _⟩
      have hnamed : name ∈ named content :=
        List.mem_append_right _ (List.mem_flatMap.2 ⟨markup, hmarkup, hmem⟩)
      simpa using hnamed
    · cases hinner : Table.find? slot slots with
      | none =>
        rw [hinner] at hmem
        exact hempty hmem
      | some inner =>
        rw [hinner] at hmem
        exact hnone ⟨slot :: names, .next (List.mem_append_left _ hslot) hinner
          (hnames.mono (by simpa using hmem)), List.subset_cons_self _ _⟩
  obtain ⟨s, hs, hmem⟩ := hmade.referenced hname
  exact hnot s hs hmem

end

/-- A content that was rendered and resolved is legal exactly if its texts are, and the content of
every slot that it leads to. -/
theorem legal_resolved {slots : SlotTable}
    (htagged : ∀ name inner, Table.find? name slots = some inner → Tagged inner)
    (hsound : ∀ name inner, Table.find? name slots = some inner → Sound inner)
    {path t r : Text} {content : Content} (hmarkups : ∀ markup ∈ markups content, Legal markup)
    (hrender : render slots path content = .ok t) (hresolve : resolve slots t = .ok r) :
    Legal r ↔ (∀ t ∈ texts content, Legal t) ∧
      ∀ names, Chain slots (named content) names → ∀ name ∈ names, ∀ inner,
        Table.find? name slots = some inner → Legal inner := by
  have hmade := madeOf_render htagged hrender
  have hslot : ∀ slot, Sound ((Table.find? slot slots).getD []) := by
    intro slot
    cases hinner : Table.find? slot slots with
    | none => exact sound_of_legal legal_nil
    | some inner => exact hsound slot inner hinner
  have hsources : ∀ s ∈ sources slots content, Sound s :=
    (forall_sources (sound_of_legal legal_nil)).2 ⟨fun t _ => sound_of_not_mem (not_mem_escapeText t),
      fun markup hmarkup => sound_of_legal (hmarkups markup hmarkup), fun slot _ => hslot slot⟩
  have hreplaced := replaced_of_substitute (resolve_eq_ok.1 hresolve).1
  rw [legal_replaced hsound hreplaced (hmade.sound hsources), hmade.legal, forall_sources legal_nil]
  simp only [legal_escapeText]
  constructor
  · rintro ⟨⟨htexts, -, hnodes⟩, hreached⟩
    refine ⟨htexts, fun names hnames name hname inner hinner => ?_⟩
    rcases slotNode_or_chain hrender hnames hname with hnode | ⟨names, hnames, hname⟩
    · simpa [hinner] using hnodes name hnode
    · exact hreached names hnames name hname inner hinner
  · rintro ⟨htexts, hreached⟩
    refine ⟨⟨htexts, hmarkups, fun slot hnode => ?_⟩, fun names hnames name hname inner hinner => ?_⟩
    · cases hinner : Table.find? slot slots with
      | none => exact legal_nil
      | some inner =>
        have hnamed : slot ∈ named content := List.mem_append_left _ hnode
        exact hreached [slot] (.last hnamed) slot List.mem_cons_self inner hinner
    · obtain ⟨longer, hlonger, hsub⟩ := exists_chain_named hmade hnames
      exact hreached longer hlonger name (hsub hname) inner hinner

end AssessmentItems.LegalContents
