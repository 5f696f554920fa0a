import AssessmentItems.Proofs.DocumentTags
import AssessmentItems.Proofs.Outlines
import AssessmentItems.Proofs.SlotTables
import AssessmentItems.Proofs.WidgetTexts

/-!
Items without their wording: the title, the texts in body and feedback, the texts of tables
and the descriptions of images. Nothing of this is checked, and all of it is escaped where no
tag is open that begins like a slot. So it decides neither whether an item compiles nor where
tags open and end in its document.
-/
namespace AssessmentItems

mutual

def Node.unworded : Node → Node
  | .text _ => .text []
  | .math markup => .math markup
  | .paragraph content => .paragraph (Node.unwordedList content)
  | .inlineSlot slot => .inlineSlot slot
  | .blockSlot slot => .blockSlot slot

def Node.unwordedList : List Node → List Node
  | [] => []
  | node :: rest => node.unworded :: Node.unwordedList rest

end

def Content.unworded : Content → Content
  | .markup t => .markup t
  | .nodes ns => .nodes (Node.unwordedList ns)

/-- The item with its wording emptied. Markup, mathematics and options stay as they are. -/
def AssessmentItem.unworded (item : AssessmentItem) : AssessmentItem where
  identifier := item.identifier
  title := []
  body := item.body.unworded
  responseDeclarations := item.responseDeclarations
  widgets := item.widgets.map (Prod.map id WidgetSpec.unworded)
  interactions := item.interactions
  feedback := ⟨item.feedback.correct.unworded, item.feedback.incorrect.unworded⟩

namespace Wording

open Text Escaping Slots Pieces Results Compilation FilledMarkup EmbeddedWidgets RenderedMath
  SlotTables Tables WidgetTexts Outlines

theorem names_unworded (item : AssessmentItem) :
    Table.names item.unworded.widgets = Table.names item.widgets := by
  simp [AssessmentItem.unworded, Table.names]

theorem check_unworded (item : AssessmentItem) :
    Structure.check item.unworded = Structure.check item := by
  have hfinding : Structure.finding? item.unworded = Structure.finding? item := by
    unfold Structure.finding?
    rw [names_unworded]
    rfl
  rw [Structure.check, Structure.check, hfinding]

mutual

theorem ofNode_unworded (path : Text) (node : Node) :
    Fragment.ofNode path node.unworded = Fragment.ofNode path node := by
  cases node with
  | text content => rfl
  | math markup => rfl
  | paragraph content => exact ofNodes_unworded _ 0 content
  | inlineSlot slot => rfl
  | blockSlot slot => rfl

theorem ofNodes_unworded (path : Text) (index : ℕ) (ns : List Node) :
    Fragment.ofNodes path index (Node.unwordedList ns) = Fragment.ofNodes path index ns := by
  cases ns with
  | nil => rfl
  | cons node rest =>
    rw [Node.unwordedList, Fragment.ofNodes, Fragment.ofNodes, ofNode_unworded, ofNodes_unworded]

end

theorem ofItem_unworded (item : AssessmentItem) :
    Fragment.ofItem item.unworded = Fragment.ofItem item := by
  have hcontent : ∀ path (content : Content),
      Fragment.ofContent path content.unworded = Fragment.ofContent path content := by
    intro path content
    cases content with
    | markup t => rfl
    | nodes ns => exact ofNodes_unworded path 0 ns
  simp only [Fragment.ofItem, AssessmentItem.unworded, hcontent]

theorem widgets_unworded (item : AssessmentItem) :
    (Compiler.widgets item.unworded).toOption =
      (Compiler.widgets item).toOption.map (List.map (Prod.map id Widget.unworded)) := by
  refine toOption_mapM (fun entry => ?_) item.widgets
  obtain ⟨slot, spec⟩ := entry
  have hpair : ∀ x : Except CompileError Widget,
      (x >>= fun w => Except.ok (slot, w)).toOption = x.toOption.map (slot, ·) := by
    intro x
    cases x <;> rfl
  simp only [Prod.map_apply, id_eq, hpair, toOption_widget, Option.map_map]
  rfl

theorem similar_cell (element content content' : Text) :
    Similar (DataTable.cellMarkup element content) (DataTable.cellMarkup element content') := by
  have hstart : Similar ("<" ++ element ++ ">" : Text) ("<" ++ element ++ ">") :=
    similar_of_last (getLast?_append_right rfl _)
  have hcontent : Similar (escapeText content) (escapeText content') :=
    similar_of_not_mem (not_mem_escapeText _) (bracket_not_mem_escapeText (.inr rfl) _)
      (not_mem_escapeText _) (bracket_not_mem_escapeText (.inr rfl) _)
  have hfinish : Similar ("</" ++ element ++ ">" : Text) ("</" ++ element ++ ">") :=
    similar_of_last (getLast?_append_right rfl _)
  have hcell := (hstart.append hcontent).append hfinish
  simpa only [DataTable.cellMarkup, List.append_assoc] using hcell

theorem similar_row (element : Text) (cells : List Text) :
    Similar (DataTable.rowMarkup element cells)
      (DataTable.rowMarkup element (cells.map fun _ => [])) :=
  ((similar_of_last rfl).append
    (similar_flatMap fun content => similar_cell element content [])).append (similar_of_last rfl)

theorem similar_table (w : DataTable) : Similar w.markup w.unworded.markup := by
  have hcaption : Similar w.captionMarkup w.unworded.captionMarkup := by
    unfold DataTable.captionMarkup DataTable.unworded
    cases w.caption with
    | none => exact similar_nil
    | some caption => exact similar_cell "caption" caption []
  have hrows : Similar (w.rows.flatMap (DataTable.rowMarkup "td"))
      (w.unworded.rows.flatMap (DataTable.rowMarkup "td")) :=
    similar_flatMap fun row => similar_row "td" row
  exact (((((similar_of_last rfl).append hcaption).append (similar_of_last rfl)).append
    (similar_row "th" w.columns)).append (similar_of_last rfl)).append hrows |>.append
      (similar_of_last rfl)

def frame : Widget → Text
  | .dataTable w => outline w.markup
  | _ => ['<', '>']

theorem frame_unworded (w : Widget) : frame w.unworded = frame w := by
  cases w with
  | dataTable w => exact (similar_table w).outline_eq.symm
  | _ => rfl

theorem outline_image (picture alt : Text) (width height : ℕ) :
    outline (Elements.emptyTag (imageTag picture alt width height)) = ['<', '>'] := by
  let tag := imageTag picture alt width height
  let inside : Text := "img" ++ (tag.attributes.flatMap Elements.attributeText ++ ['/'])
  have hnot : ∀ d, d = '<' ∨ d = '>' → d ∉ inside := by
    intro d hd
    have hattributes := bracket_not_mem_attributes hd (wellNamed_imageTag picture alt width height)
    have hfixed : d ∉ ("img" : Text) ∧ d ≠ '/' := by rcases hd with rfl | rfl <;> decide
    simp only [inside, List.mem_append, List.mem_singleton, not_or]
    exact ⟨hfixed.1, hattributes, hfixed.2⟩
  have hopens : opensSlot (inside ++ ['>']) = false := rfl
  have hparts : Elements.emptyTag tag = '<' :: (inside ++ ['>']) := by
    simp [emptyTag_parts, inside, tag, imageTag]
  have hended := ended_of_not_mem (hnot '<' (.inl rfl))
  rw [hparts, outline, outlineFrom_open, hopens]
  change '<' :: outline _ = _
  rw [hended, outline_of_not_mem (hnot '<' (.inl rfl)) (hnot '>' (.inr rfl))]
  rfl

theorem outline_embed {w : Widget} {rendered : Text} (h : Widget.placeholder w = .ok rendered)
    (alt : Option Text) : outline (w.embed alt rendered) = frame w := by
  rcases embed_cases h alt with ⟨table, rfl, hembed⟩ | ⟨houtput, width, height, hembed⟩
  · rw [hembed]
    rfl
  · have hframe : frame w = ['<', '>'] := by
      cases w with
      | dataTable w => contradiction
      | _ => rfl
    rw [hembed, hframe]
    exact outline_image rendered _ width height

/-- Where each of some computations succeeds, they succeed together. -/
theorem exists_mapM {ε α β γ : Type} {f : α → Except ε β} {g : β → γ} {k : α → γ}
    (h : ∀ a, ∃ b, f a = .ok b ∧ g b = k a) (as : List α) :
    ∃ bs, as.mapM f = .ok bs ∧ bs.map g = as.map k := by
  induction as with
  | nil => exact ⟨[], rfl, rfl⟩
  | cons a as ih =>
    obtain ⟨b, hb, hgb⟩ := h a
    obtain ⟨bs, hbs, hgbs⟩ := ih
    refine ⟨b :: bs, ?_, ?_⟩
    · rw [List.mapM_cons]
      exact bind_eq_ok.2 ⟨b, hb, bind_eq_ok.2 ⟨bs, hbs, rfl⟩⟩
    · rw [List.map_cons, List.map_cons, hgb, hgbs]

/-- The outlines of what fills the slots. -/
theorem exists_slotTable (item : AssessmentItem) (ws : Table Widget) :
    ∃ slots, Compiler.slotTable Widget.placeholder item ws = .ok slots ∧
      ∀ name, (Table.find? name slots).map outline = Table.find? name (Table.ofEntries
        (ws.map (Prod.map id frame) ++
          item.interactions.map (Prod.map id fun i => outline i.markup))) := by
  let fill : Text × Widget → Except CompileError (Text × Text) := fun entry => do
    .ok (entry.1, ← Compiler.widgetFilling Widget.placeholder item entry.1 entry.2)
  have hfill : ∀ entry, ∃ filling, fill entry = .ok filling ∧
      Prod.map id outline filling = Prod.map id frame entry := by
    rintro ⟨slot, w⟩
    have hrendered : ∃ rendered, Widget.placeholder w = .ok rendered := by
      cases w <;> exact ⟨_, rfl⟩
    obtain ⟨rendered, hrendered⟩ := hrendered
    let alt := (Table.find? slot item.widgets).bind WidgetSpec.alt
    refine ⟨(slot, w.embed alt rendered), bind_eq_ok.2 ⟨_, ?_, rfl⟩, ?_⟩
    · unfold Compiler.widgetFilling
      rw [hrendered]
    · exact congrArg (slot, ·) (outline_embed hrendered alt)
  obtain ⟨fillings, hfillings, houtlines⟩ := exists_mapM hfill ws
  refine ⟨_, bind_eq_ok.2 ⟨fillings, hfillings, rfl⟩, fun name => ?_⟩
  rw [find?_ofEntries, find?_ofEntries, ← find?_map, List.map_reverse, List.map_append, houtlines,
    List.map_map]
  rfl

theorem alike_unworded {item : AssessmentItem} {ws : Table Widget} {slots slots' : SlotTable}
    (h : Compiler.slotTable Widget.placeholder item ws = .ok slots)
    (h' : Compiler.slotTable Widget.placeholder item.unworded
      (ws.map (Prod.map id Widget.unworded)) = .ok slots') : Alike slots slots' := by
  obtain ⟨_, hslots, houtlines⟩ := exists_slotTable item ws
  obtain ⟨_, hslots', houtlines'⟩ :=
    exists_slotTable item.unworded (ws.map (Prod.map id Widget.unworded))
  obtain rfl := Except.ok.inj (hslots.symm.trans h)
  obtain rfl := Except.ok.inj (hslots'.symm.trans h')
  have hframes : (ws.map (Prod.map id Widget.unworded)).map (Prod.map id frame) =
      ws.map (Prod.map id frame) := by
    rw [List.map_map]
    exact List.map_congr_left fun entry _ => congrArg (entry.1, ·) (frame_unworded entry.2)
  intro name
  rw [houtlines, houtlines', hframes]
  rfl

theorem sketch_eq_of_rel {ε : Type} {x y : Except ε Text}
    (h : Option.Rel Similar x.toOption y.toOption) : sketch x = sketch y := by
  unfold sketch
  generalize x.toOption = s? at h ⊢
  generalize y.toOption = t? at h ⊢
  cases h with
  | none => rfl
  | some hsimilar => exact congrArg some hsimilar.outline_eq

theorem rel_map {ε : Type} {x y : Except ε Text} {f : Text → Text}
    (hf : ∀ s t, Similar s t → Similar (f s) (f t))
    (h : Option.Rel Similar x.toOption y.toOption) :
    Option.Rel Similar (x.map f).toOption (y.map f).toOption := by
  have hmap : ∀ z : Except ε Text, (z.map f).toOption = z.toOption.map f := by
    intro z
    cases z <;> rfl
  rw [hmap, hmap]
  generalize x.toOption = s? at h ⊢
  generalize y.toOption = t? at h ⊢
  cases h with
  | none => exact .none
  | some hsimilar => exact .some (hf _ _ hsimilar)

theorem rel_sequence {render render' : Text → Node → Except CompileError Text}
    (h : ∀ path node, Option.Rel Similar (render path node).toOption
      (render' path node.unworded).toOption) (path : Text) (index : ℕ) (ns : List Node) :
    Option.Rel Similar (ContentMarkup.sequence render path index ns).toOption
      (ContentMarkup.sequence render' path index (Node.unwordedList ns)).toOption := by
  have hcons : ∀ (f : Text → Node → Except CompileError Text) index node rest,
      (ContentMarkup.sequence f path index (node :: rest)).toOption =
        (f (Path.element path index) node).toOption.bind fun first =>
          (ContentMarkup.sequence f path (index + 1) rest).toOption.map (first ++ ·) := by
    intro f index node rest
    rw [ContentMarkup.sequence]
    cases f (Path.element path index) node with
    | error e => rfl
    | ok first => cases ContentMarkup.sequence f path (index + 1) rest <;> rfl
  induction ns generalizing index with
  | nil => exact .some similar_nil
  | cons node rest ih =>
    have hfirst := h (Path.element path index) node
    have hrest := ih (index + 1)
    rw [Node.unwordedList, hcons, hcons]
    generalize (render (Path.element path index) node).toOption = s? at hfirst ⊢
    generalize (render' (Path.element path index) node.unworded).toOption = t? at hfirst ⊢
    generalize (ContentMarkup.sequence render path (index + 1) rest).toOption = u? at hrest ⊢
    generalize (ContentMarkup.sequence render' path (index + 1) (Node.unwordedList rest)).toOption =
      v? at hrest ⊢
    cases hfirst with
    | none => exact .none
    | some hfirst =>
      cases hrest with
      | none => exact .none
      | some hrest => exact .some (hfirst.append hrest)

theorem similar_between {start finish : Text} (hstart : start.getLast? = some '>')
    (hfinish : finish.getLast? = some '>') (s t : Text) (h : Similar s t) :
    Similar (start ++ s ++ finish) (start ++ t ++ finish) :=
  ((similar_of_last hstart).append h).append (similar_of_last hfinish)

section

variable {slots slots' : SlotTable} (hslots : AllTagged slots) (hslots' : AllTagged slots')
  (halike : Alike slots slots')
include hslots hslots' halike

theorem rel_filling (slot : Text) :
    Option.Rel Similar (ContentMarkup.filling slots slot).toOption
      (ContentMarkup.filling slots' slot).toOption := by
  unfold ContentMarkup.filling
  cases hinner : Table.find? slot slots with
  | none =>
    have hnone : Table.find? slot slots' = none := by
      have hname := halike slot
      rw [hinner] at hname
      exact Option.map_eq_none_iff.1 hname.symm
    rw [hnone]
    exact .none
  | some inner =>
    obtain ⟨inner', hinner', houtline⟩ := halike.exists_slot hinner
    rw [hinner']
    exact .some ⟨ended_of_last (hslots _ _ hinner).last, ended_of_last (hslots' _ _ hinner').last,
      houtline⟩

theorem rel_inlineNode (path : Text) (node : Node) :
    Option.Rel Similar (ContentMarkup.inlineNode slots path node).toOption
      (ContentMarkup.inlineNode slots' path node.unworded).toOption := by
  cases node with
  | text content =>
    exact .some (similar_of_not_mem (not_mem_escapeText _) (bracket_not_mem_escapeText (.inr rfl) _)
      List.not_mem_nil List.not_mem_nil)
  | math markup => exact .some (similar_of_last (getLast?_append_right rfl _))
  | inlineSlot slot => exact rel_filling hslots hslots' halike slot
  | paragraph content => exact .none
  | blockSlot slot => exact .none

theorem rel_topNode (path : Text) (node : Node) :
    Option.Rel Similar (ContentMarkup.topNode slots path node).toOption
      (ContentMarkup.topNode slots' path node.unworded).toOption := by
  cases node with
  | paragraph content =>
    exact rel_map (similar_between rfl rfl)
      (rel_sequence (rel_inlineNode hslots hslots' halike) _ 0 content)
  | blockSlot slot =>
    exact rel_map (similar_between rfl rfl) (rel_filling hslots hslots' halike slot)
  | text content => exact .none
  | math markup => exact .none
  | inlineSlot slot => exact .none

theorem sketch_render (path : Text) (content : Content) :
    sketch (ContentMarkup.render slots path content) =
      sketch (ContentMarkup.render slots' path content.unworded) := by
  cases content with
  | markup t => rfl
  | nodes ns =>
    exact sketch_eq_of_rel (rel_sequence (rel_topNode hslots hslots' halike) path 0 ns)

theorem sketch_resolveContent (path : Text) (content : Content) :
    sketch (Compiler.resolveContent slots path content) =
      sketch (Compiler.resolveContent slots' path content.unworded) := by
  have hbind : ∀ (x : Except CompileError Text) (f : Text → Except SlotError Text),
      sketch (x >>= fun t => (f t).mapError CompileError.slots) =
        x.toOption.bind fun t => sketch (f t) := by
    intro x f
    cases x with
    | error e => rfl
    | ok t =>
      simp only [bind, Except.bind]
      cases hresult : f t <;> simp [sketch, Except.toOption, Except.mapError, hresult]
  have hsteps : ∀ (table : SlotTable) (c : Content),
      sketch (Compiler.resolveContent table path c) =
        (ContentMarkup.render table path c).toOption.bind fun t => sketch (resolve table t) :=
    fun table c => hbind (ContentMarkup.render table path c) (resolve table)
  have hrender := sketch_render hslots hslots' halike path content
  rw [hsteps, hsteps]
  unfold sketch at hrender
  generalize (ContentMarkup.render slots path content).toOption = s? at hrender ⊢
  generalize (ContentMarkup.render slots' path content.unworded).toOption = t? at hrender ⊢
  cases s? with
  | none =>
    cases t? with
    | none => rw [Option.bind_none, Option.bind_none]
    | some t => contradiction
  | some s =>
    cases t? with
    | none => contradiction
    | some t =>
      rw [Option.bind_some, Option.bind_some]
      exact sketch_resolve hslots hslots' halike (Option.some.inj hrender)

end

theorem brackets_lines (ls : List Text) : brackets (lines ls) = ls.flatMap brackets := by
  cases ls with
  | nil => rfl
  | cons part rest =>
    have hrest : brackets (rest.flatMap ('\n' :: ·)) = rest.flatMap brackets := by
      induction rest with
      | nil => rfl
      | cons next rest ih =>
        rw [List.flatMap_cons, List.flatMap_cons, List.cons_append, brackets_cons (by decide)
          (by decide), brackets_append, ih]
    rw [SlotContents.lines_cons, brackets_append, hrest, List.flatMap_cons]

theorem brackets_escapeAttribute (t : Text) : brackets (escapeAttribute t) = [] := by
  refine List.filter_eq_nil_iff.2 fun c hc => ?_
  have hopen : c ≠ '<' := fun h => not_mem_escapeAttribute t (h ▸ hc)
  have hclose : c ≠ '>' := fun h => bracket_not_mem_escapeAttribute (.inr rfl) t (h ▸ hc)
  simp [hopen, hclose]

theorem brackets_between {m m' : Text} (h : outline m = outline m') (a b : Text) :
    brackets (a ++ m ++ b) = brackets (a ++ m' ++ b) := by
  simp only [brackets_append, brackets_eq_of_outline h]

/-- The title and the language do not show in the brackets of a document. -/
theorem brackets_text {d d' : Document} (hidentifier : d.identifier = d'.identifier)
    (htime : d.configuration.timeDependent = d'.configuration.timeDependent)
    (hdeclarations : d.declarations = d'.declarations) (hprocessing : d.processing = d'.processing)
    (hbody : outline d.body = outline d'.body) (hcorrect : outline d.correct = outline d'.correct)
    (hincorrect : outline d.incorrect = outline d'.incorrect) :
    brackets d.text = brackets d'.text := by
  have hescaped : ∀ a title b time c language e : Text,
      brackets (a ++ escapeAttribute title ++ b ++ time ++ c ++ escapeAttribute language ++ e) =
        brackets (a ++ b ++ time ++ c ++ e) := by
    intro a title b time c language e
    simp only [brackets_append, brackets_escapeAttribute, List.append_nil]
  have hroot : brackets d.rootTag = brackets d'.rootTag := by
    unfold Document.rootTag
    rw [hidentifier, htime]
    exact (hescaped _ _ _ _ _ _ _).trans (hescaped _ _ _ _ _ _ _).symm
  have hblock : ∀ identifier {m m' : Text}, outline m = outline m' →
      brackets (Document.feedbackBlock identifier m) =
        brackets (Document.feedbackBlock identifier m') :=
    fun _ _ _ h => brackets_between h _ _
  unfold Document.text
  rw [brackets_lines, brackets_lines]
  simp only [List.flatMap_cons, hroot, hdeclarations, hprocessing,
    brackets_eq_of_outline hbody, hblock _ hcorrect, hblock _ hincorrect]

theorem toOption_eq_some {ε α : Type} {x : Except ε α} {a : α} :
    x.toOption = some a ↔ x = .ok a := by
  cases x <;> simp [Except.toOption]

def Shows {c : Compiler} {item : AssessmentItem} (r : Compiled c item)
    (body correct incorrect : Text) : Prop :=
  outline r.body = body ∧ outline r.correct = correct ∧ outline r.incorrect = incorrect

section

variable {k k' : Configuration} {item : AssessmentItem} {body correct incorrect : Text}

theorem exists_compiled :
    (∃ r : Compiled ⟨k, Widget.placeholder⟩ item, Shows r body correct incorrect) ↔
      Structure.check item = .ok () ∧
        (∀ f ∈ Fragment.ofItem item, ContentRules.check f.placement f.content = none) ∧
        ∃ ws slots, (Compiler.widgets item).toOption = some ws ∧
          Compiler.slotTable Widget.placeholder item ws = .ok slots ∧
          sketch (Compiler.resolveContent slots "body" item.body) = some body ∧
          sketch (Compiler.resolveContent slots "feedback.correct" item.feedback.correct) =
            some correct ∧
          sketch (Compiler.resolveContent slots "feedback.incorrect" item.feedback.incorrect) =
            some incorrect := by
  simp only [toOption_eq_some, sketch_eq_some]
  constructor
  · rintro ⟨r, hbody, hcorrect, hincorrect⟩
    obtain ⟨⟨⟩, hcheck, hwidgets⟩ := bind_eq_ok.1 r.prepared
    exact ⟨hcheck, r.accepted, r.widgets, r.slots, hwidgets, r.filled,
      ⟨r.body, r.body_resolved, hbody⟩, ⟨r.correct, r.correct_resolved, hcorrect⟩,
      ⟨r.incorrect, r.incorrect_resolved, hincorrect⟩⟩
  · rintro ⟨hcheck, haccepted, ws, slots, hwidgets, hfilled, ⟨t, ht, hbody⟩, ⟨u, hu, hcorrect⟩,
      ⟨v, hv, hincorrect⟩⟩
    have hprepared : Compiler.prepare item = .ok ws := bind_eq_ok.2 ⟨(), hcheck, hwidgets⟩
    exact ⟨⟨ws, slots, t, u, v, hprepared, haccepted, hfilled, ht, hu, hv⟩, hbody, hcorrect,
      hincorrect⟩

/-- The wording of an item does not change what its compilation shows, in outline. -/
theorem exists_compiled_unworded :
    (∃ r : Compiled ⟨k, Widget.placeholder⟩ item, Shows r body correct incorrect) ↔
      ∃ r : Compiled ⟨k', Widget.placeholder⟩ item.unworded, Shows r body correct incorrect := by
  rw [exists_compiled, exists_compiled, check_unworded, ofItem_unworded, widgets_unworded]
  refine and_congr_right fun _ => and_congr_right fun _ => ?_
  have hsketch : ∀ {ws : Table Widget} {slots slots' : SlotTable},
      Compiler.slotTable Widget.placeholder item ws = .ok slots →
      Compiler.slotTable Widget.placeholder item.unworded
        (ws.map (Prod.map id Widget.unworded)) = .ok slots' →
      ∀ path (content : Content), sketch (Compiler.resolveContent slots path content) =
        sketch (Compiler.resolveContent slots' path content.unworded) :=
    fun h h' => sketch_resolveContent (fun _ _ => tagged_slot h) (fun _ _ => tagged_slot h')
      (alike_unworded h h')
  constructor
  · rintro ⟨ws, slots, hws, hslots, hbody, hcorrect, hincorrect⟩
    obtain ⟨slots', hslots', -⟩ :=
      exists_slotTable item.unworded (ws.map (Prod.map id Widget.unworded))
    simp only [hsketch hslots hslots'] at hbody hcorrect hincorrect
    exact ⟨_, slots', by rw [hws]; rfl, hslots', hbody, hcorrect, hincorrect⟩
  · rintro ⟨ws', slots', hws', hslots', hbody, hcorrect, hincorrect⟩
    obtain ⟨ws, hws, rfl⟩ := Option.map_eq_some_iff.1 hws'
    obtain ⟨slots, hslots, -⟩ := exists_slotTable item ws
    refine ⟨ws, slots, hws, hslots, ?_, ?_, ?_⟩
    · exact (hsketch hslots hslots' _ _).trans hbody
    · exact (hsketch hslots hslots' _ _).trans hcorrect
    · exact (hsketch hslots hslots' _ _).trans hincorrect

/-- Of two items that differ in wording only, the second compiles if the first does, to a document
with the same brackets. -/
theorem exists_document {item' : AssessmentItem} (hitem : item.unworded = item'.unworded)
    (htime : k.timeDependent = k'.timeDependent) {document : Text}
    (h : (Compiler.compile ⟨k, Widget.placeholder⟩ item).result = .ok document) :
    ∃ document', (Compiler.compile ⟨k', Widget.placeholder⟩ item').result = .ok document' ∧
      brackets document = brackets document' := by
  obtain ⟨r, rfl⟩ := compile_eq_ok.1 h
  have hshows : ∃ r' : Compiled ⟨k', Widget.placeholder⟩ item.unworded,
      Shows r' (outline r.body) (outline r.correct) (outline r.incorrect) :=
    exists_compiled_unworded.1 ⟨r, rfl, rfl, rfl⟩
  rw [hitem] at hshows
  obtain ⟨r', hbody, hcorrect, hincorrect⟩ :
      ∃ r' : Compiled ⟨k', Widget.placeholder⟩ item',
        Shows r' (outline r.body) (outline r.correct) (outline r.incorrect) :=
    exists_compiled_unworded.2 hshows
  obtain ⟨hidentifier, -, -, hdeclarations, -, hinteractions, -⟩ := AssessmentItem.mk.inj hitem
  have hfeedback : Compiler.inlineFeedback item = Compiler.inlineFeedback item' := by
    simp only [Compiler.inlineFeedback, hinteractions]
  refine ⟨r'.document.text, compile_eq_ok.2 ⟨r', rfl⟩, brackets_text hidentifier htime ?_ ?_
    hbody.symm hcorrect.symm hincorrect.symm⟩
  · exact congrArg Scoring.declarationsMarkup hdeclarations
  · exact congrArg₂ Scoring.processingMarkup hdeclarations hfeedback

end

/-- Items that differ in their wording only, compiled for any languages, compile both or not at
all, and tags open and end in the same order in their documents. -/
theorem brackets_document {item item' : AssessmentItem} (hitem : item.unworded = item'.unworded)
    {k k' : Configuration} (htime : k.timeDependent = k'.timeDependent) :
    ((∃ document, (Compiler.compile ⟨k, Widget.placeholder⟩ item).result = .ok document) ↔
      ∃ document, (Compiler.compile ⟨k', Widget.placeholder⟩ item').result = .ok document) ∧
    ∀ document document',
      (Compiler.compile ⟨k, Widget.placeholder⟩ item).result = .ok document →
      (Compiler.compile ⟨k', Widget.placeholder⟩ item').result = .ok document' →
        brackets document = brackets document' := by
  refine ⟨⟨?_, ?_⟩, fun document document' h h' => ?_⟩
  · rintro ⟨document, h⟩
    obtain ⟨document', h', -⟩ := exists_document hitem htime h
    exact ⟨document', h'⟩
  · rintro ⟨document, h⟩
    obtain ⟨document', h', -⟩ := exists_document hitem.symm htime.symm h
    exact ⟨document', h'⟩
  · obtain ⟨other, hother, hbrackets⟩ := exists_document hitem htime h
    obtain rfl := Except.ok.inj (hother.symm.trans h')
    exact hbrackets

def wordedItem (words : Text) : AssessmentItem where
  identifier := "worded"
  title := words
  body := .nodes [.paragraph [.text words, .inlineSlot "r"], .blockSlot "d", .blockSlot "t"]
  responseDeclarations := [⟨"R", .single, .string, .scalar (.text "x")⟩]
  widgets := [
    ("d", ⟨"fractionModel", some words, [("denominator", .number (.integer 2)),
      ("numerator", .number (.integer 1))]⟩),
    ("t", ⟨"dataTable", none, [("caption", .string words), ("columns", .array [.string words]),
      ("rows", .array [.array [.string words]])]⟩)]
  interactions := [("r", .textEntry ⟨"R", none⟩)]
  feedback := ⟨.nodes [.paragraph [.text words]], .markup "<p>no</p>"⟩

def plainSettings : Configuration := ⟨"en", false⟩

def oddSettings : Configuration := ⟨"<slot>", false⟩

/-- A placeholder among the words is no placeholder in the document. -/
theorem brackets_document_worded :
    (wordedItem "one").unworded = (wordedItem (placeholder "r" ++ ">")).unworded ∧
      plainSettings.timeDependent = oddSettings.timeDependent ∧
      ∃ document document',
        (Compiler.compile ⟨plainSettings, Widget.placeholder⟩ (wordedItem "one")).result =
          .ok document ∧
        (Compiler.compile ⟨oddSettings, Widget.placeholder⟩
          (wordedItem (placeholder "r" ++ ">"))).result = .ok document' ∧
        brackets document = brackets document' := by
  have hitem : (wordedItem "one").unworded = (wordedItem (placeholder "r" ++ ">")).unworded := rfl
  have htime : plainSettings.timeDependent = oddSettings.timeDependent := rfl
  have hcompiles : (Compiler.compile ⟨plainSettings, Widget.placeholder⟩
      (wordedItem "one")).result.isOk = true := by
    decide +kernel
  obtain ⟨document, hdocument⟩ := exists_of_isOk hcompiles
  obtain ⟨hiff, hbrackets⟩ := brackets_document hitem htime
  obtain ⟨document', hdocument'⟩ := hiff.1 ⟨document, hdocument⟩
  exact ⟨hitem, htime, document, document', hdocument, hdocument',
    hbrackets document document' hdocument hdocument'⟩

end Wording
end AssessmentItems
