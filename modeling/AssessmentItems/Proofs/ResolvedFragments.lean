import AssessmentItems.Proofs.SlotTables

/-!
The rules on markup in what a compilation produces. Fragments are checked as they are authored,
before slots are filled, and what fills a slot is not checked for the place where the slot
stands: a table in a prompt makes a block of what has to be inline. But each fragment of what
is shown resolves, without math that is not allowed and without loose text at the start of a
block, and it is still accepted exactly if the content of every slot that it reaches is
accepted in its place.
-/
namespace AssessmentItems.ResolvedFragments

open ContentRules Slots ContentMarkup Pieces Placeholders Tags Results RuleBounds Substitution
  SlotChains NestingDepth FilledMarkup SlotContents RenderedMath SlotTables

theorem check_eq_none {placement : Placement} {t : Text} :
    check placement t = none ↔
      ∀ rule : Rule, rule.appliesTo placement = true → rule.find? t = none := by
  have hall : ∀ rule : Rule, rule ∈ Rule.all := by
    intro rule
    cases rule <;> decide
  simp only [check, List.findSome?_eq_none_iff, List.mem_filter, violation?, Option.map_eq_none_iff,
    hall, true_and]

/-- No slot stands inside the tag of an image, in a content or in what it reaches. -/
def ClearOfImages (slots : SlotTable) (content : Text) : Prop :=
  Outside OpensImage content ∧ AllReached slots content (Outside OpensImage)

/-- Inside the tag of an image, what fills a slot can end the value of an attribute. -/
example :
    let slots : SlotTable := [("a", "<b>1</b>")]
    let content : Text := "<img alt=\"Plot " ++ placeholder "a"
    let r : Text := "<img alt=\"Plot <b>1</b>"
    check .mixed content = none ∧ check .mixed "<b>1</b>" = none ∧ resolve slots content = .ok r ∧
      check .mixed r = some ⟨.imageMissingAlt, r⟩ := by
  decide +kernel

section

variable {slots : SlotTable}
  (hslots : ∀ name inner, Table.find? name slots = some inner → Tagged inner)
include hslots

/-- A rule finds nothing in a content with everything replaced exactly if it finds nothing in
the content of any slot that is reached. -/
theorem find?_replaced {rule : Rule} {content t : Text} (hreplaced : Replaced slots content t)
    (hcontent : rule.find? content = none)
    (himage : rule = .imageMissingAlt → ClearOfImages slots content) :
    rule.find? t = none ↔ AllReached slots content fun inner => rule.find? inner = none := by
  have hsearch : ∀ occurs, construct? rule = some occurs →
      (rule.find? t = none ↔ AllReached slots content fun inner => rule.find? inner = none) := by
    intro occurs hoccurs
    have hreached : AllReached slots content (Outside fun _ => False) :=
      fun _ _ _ _ _ _ _ _ _ _ _ => id
    rw [(divides_construct hoccurs).good_replaced hslots hreplaced (fun _ _ _ _ _ => id) hreached]
    exact and_iff_right hcontent
  cases rule with
  | imageMissingAlt =>
    obtain ⟨houtside, hreached⟩ := himage rfl
    rw [divides_image.good_replaced hslots hreplaced houtside hreached]
    exact and_iff_right hcontent
  | blockRoot =>
    refine iff_of_true (find?_blockRoot_replaced hslots hreplaced hcontent) ?_
    intro _ _ name _ inner hinner
    exact find?_blockRoot_of_head (hslots name inner hinner).head
  | legacyRemnant => exact hsearch _ rfl
  | disallowedMath => exact hsearch _ rfl
  | authoringArtifact => exact hsearch _ rfl
  | blockElement => exact hsearch _ rfl
  | inlineMath => exact hsearch _ rfl
  | nestedInteraction => exact hsearch _ rfl

/-- A content with everything replaced is accepted exactly if the content of every slot that
is reached is accepted in its place. -/
theorem check_replaced {placement : Placement} {content t : Text}
    (hreplaced : Replaced slots content t) (hcontent : check placement content = none)
    (hclear : ClearOfImages slots content) :
    check placement t = none ↔
      AllReached slots content fun inner => check placement inner = none := by
  have hrules : ∀ rule : Rule, rule.appliesTo placement = true →
      (rule.find? t = none ↔ AllReached slots content fun inner => rule.find? inner = none) := by
    intro rule hrule
    exact find?_replaced hslots hreplaced (check_eq_none.1 hcontent rule hrule) fun _ => hclear
  rw [check_eq_none]
  constructor
  · intro h names hnames name hname inner hinner
    rw [check_eq_none]
    intro rule hrule
    exact (hrules rule hrule).1 (h rule hrule) names hnames name hname inner hinner
  · intro h rule hrule
    refine (hrules rule hrule).2 fun names hnames name hname inner hinner => ?_
    exact check_eq_none.1 (h names hnames name hname inner hinner) rule hrule

/-- A slot that a rendered content leads to was substituted within its resolution. -/
theorem exists_substitute_of_named {path t r slot : Text} {content : Content} {names : List Text}
    (hrender : render slots path content = .ok t) (hresolve : resolve slots t = .ok r)
    (hnames : Chain slots (named content) names) (hslot : slot ∈ names) :
    ∃ inner u, Table.find? slot slots = some inner ∧
      substitute slots maxDepth [] inner = .ok u ∧ u <:+: r := by
  have hsub := (resolve_eq_ok.1 hresolve).1
  have hmarkup : ∀ markup names, markup <:+: t → Chain slots (referenced markup) names →
      slot ∈ names → ∃ inner u, Table.find? slot slots = some inner ∧
        substitute slots maxDepth [] inner = .ok u ∧ u <:+: r := by
    intro markup names hpart hnames hslot
    exact exists_substitute_of_chain hsub
      (hnames.mono fun n hn => mem_referenced_of_part hpart hn) hslot
  rcases chain_named hnames with ⟨first, hfirst, hnames⟩ | ⟨markup, hmem, hnames⟩
  · obtain ⟨inner, hinner, hpart⟩ := slot_part hrender hfirst
    have htagged := hslots first inner hinner
    have hfilled : ∃ u, substitute slots maxDepth [] inner = .ok u ∧ u <:+: r := by
      obtain ⟨before, after, rfl⟩ := hpart
      rw [List.append_assoc] at hsub
      exact substitute_part
        (withinTag_placeholder?.apart_open before (head?_append_left htagged.head after))
        (withinTag_placeholder?.apart_close after htagged.last) hsub
    cases hnames with
    | last hstart =>
      obtain rfl := List.mem_singleton.1 hstart
      obtain rfl := List.mem_singleton.1 hslot
      exact ⟨inner, _, hinner, hfilled.choose_spec⟩
    | next hstart hinner' hrest =>
      obtain rfl := List.mem_singleton.1 hstart
      obtain rfl := Option.mem_unique hinner hinner'
      rcases List.mem_cons.1 hslot with rfl | hslot
      · exact ⟨inner, _, hinner, hfilled.choose_spec⟩
      · exact hmarkup inner _ hpart hrest hslot
  · exact hmarkup markup _ (markup_part hrender hmem) hnames hslot

end

/-- The fragments of what an item shows: its contents that are markup, and the fragments of
the interactions whose slots they lead to. -/
inductive Shown (item : AssessmentItem) (slots : SlotTable) : Fragment → Prop
  | content {path t : Text} (hcontent : (path, .markup t) ∈ contents item) :
      Shown item slots ⟨.block, path, t⟩
  | interaction {path slot : Text} {content : Content} {names : List Text} {i : Interaction}
      {f : Fragment} (hcontent : (path, content) ∈ contents item)
      (hnames : Chain slots (named content) names) (hslot : slot ∈ names)
      (hi : (slot, i) ∈ item.interactions)
      (hf : f ∈ Fragment.ofInteraction (Path.member "interactions" slot) i) : Shown item slots f

theorem Shown.mem {item : AssessmentItem} {slots : SlotTable} {f : Fragment}
    (h : Shown item slots f) : f ∈ Fragment.ofItem item := by
  cases h with
  | content hcontent => exact mem_ofItem hcontent (List.mem_singleton_self _)
  | interaction _ _ _ hi hf => exact List.mem_append_right _ (List.mem_flatMap.2 ⟨_, hi, hf⟩)

theorem Shown.exists_resolve {item : AssessmentItem} {ws : Table Widget} {slots : SlotTable}
    {f : Fragment} (h : Shown item slots f)
    (htable : Compiler.slotTable Widget.placeholder item ws = .ok slots)
    (hunique : item.interactions.names.Nodup)
    (hshown : ∀ path content, (path, content) ∈ contents item → ∃ t r,
      render slots path content = .ok t ∧ resolve slots t = .ok r) :
    ∃ r, resolve slots f.content = .ok r := by
  have hslots : ∀ name inner, Table.find? name slots = some inner → Tagged inner :=
    fun _ _ hinner => tagged_slot htable hinner
  cases h with
  | content hcontent =>
    obtain ⟨t, r, hrender, hr⟩ := hshown _ _ hcontent
    obtain rfl := Except.ok.inj hrender
    exact ⟨r, hr⟩
  | interaction hcontent hnames hslot hi hf =>
    obtain ⟨t, r, hrender, hr⟩ := hshown _ _ hcontent
    obtain ⟨inner, u, hinner, hu, hpart⟩ :=
      exists_substitute_of_named hslots hrender hr hnames hslot
    obtain rfl := Option.mem_unique (slot_interaction htable hunique hi) hinner
    obtain ⟨before, after, hframed, hbefore, hafter⟩ := framed_ofInteraction hf
    rw [hframed] at hu
    obtain ⟨v, hv, hpart'⟩ := substitute_part
      (withinTag_placeholder?.apart_close _ hbefore)
      (withinTag_placeholder?.apart_open _ hafter) hu
    exact ⟨v, resolve_eq_ok.2 ⟨hv, leftover_of_part (resolve_eq_ok.1 hr).2 (hpart'.trans hpart)⟩⟩

/-- Each fragment of what is shown resolves. The rules on math and on the start of a block
accept the resolved text, and every other rule accepts it exactly if it accepts the content of
each slot that the fragment reaches; the rule on images is followed where no slot stands inside
the tag of an image. Interactions have each slot name once. -/
theorem resolved_fragments {c : Compiler} {item : AssessmentItem} {document : Text}
    (hrenderer : c.renderer = Widget.placeholder) (hunique : item.interactions.names.Nodup)
    (hcompile : (c.compile item).result = .ok document) :
    ∃ ws slots, Compiler.prepare item = .ok ws ∧
      Compiler.slotTable Widget.placeholder item ws = .ok slots ∧
      ∀ f, Shown item slots f → ∃ r, resolve slots f.content = .ok r ∧
        Rule.disallowedMath.find? r = none ∧
        (f.placement = .block → Rule.blockRoot.find? r = none) ∧
        (∀ rule : Rule, rule.appliesTo f.placement = true →
          (rule = .imageMissingAlt → ClearOfImages slots f.content) →
            (rule.find? r = none ↔
              AllReached slots f.content fun inner => rule.find? inner = none)) ∧
        (ClearOfImages slots f.content →
          (check f.placement r = none ↔
            AllReached slots f.content fun inner => check f.placement inner = none)) := by
  obtain ⟨ws, slots, hprepare, hfragments, htable, hshown⟩ := compile_steps hcompile
  rw [hrenderer] at htable
  have hslots : ∀ name inner, Table.find? name slots = some inner → Tagged inner :=
    fun _ _ hinner => tagged_slot htable hinner
  have hmathless : ∀ g ∈ Fragment.ofItem item, Mathless g.content := fun g hg =>
    (find?_eq_none rfl g.content).1 (check_eq_none.1 (hfragments g hg) .disallowedMath rfl)
  refine ⟨ws, slots, hprepare, htable, fun f hf => ?_⟩
  have hcheck : check f.placement f.content = none := hfragments f hf.mem
  obtain ⟨r, hr⟩ := hf.exists_resolve htable hunique hshown
  have hreplaced := replaced_of_substitute (resolve_eq_ok.1 hr).1
  have hrules : ∀ rule : Rule, rule.appliesTo f.placement = true →
      (rule = .imageMissingAlt → ClearOfImages slots f.content) →
        (rule.find? r = none ↔ AllReached slots f.content fun inner => rule.find? inner = none) :=
    fun rule hrule => find?_replaced hslots hreplaced (check_eq_none.1 hcheck rule hrule)
  refine ⟨r, hr, ?_, ?_, hrules, check_replaced hslots hreplaced hcheck⟩
  · refine (hrules .disallowedMath rfl nofun).2 fun _ _ name _ inner hinner => ?_
    exact (find?_eq_none rfl inner).2 (mathless_slot htable hmathless hinner)
  · intro hblock
    refine (hrules .blockRoot (by rw [hblock]; rfl) nofun).2 fun _ _ name _ inner hinner => ?_
    exact find?_blockRoot_of_head (hslots name inner hinner).head

def pickItem (prompt option : Text) : AssessmentItem where
  identifier := "pick"
  title := "Pick"
  body := .markup (placeholder "pick")
  responseDeclarations := [⟨"R", .single, .identifier, .scalar (.text "A")⟩]
  widgets :=
    [("table", ⟨"dataTable", none, [("columns", .array [.string "a"]), ("rows", .array [])]⟩)]
  interactions :=
    [("pick", .choice ⟨"R", false, 1, 1, some prompt,
      [⟨"A", option, none⟩, ⟨"B", "<p>2</p>", none⟩]⟩)]
  feedback := ⟨.markup "<p>yes</p>", .markup "<p>no</p>"⟩

/-- A table may stand in an option. -/
theorem resolved_fragments_of_option :
    let item := pickItem "Pick" (placeholder "table")
    Compiler.standard.renderer = Widget.placeholder ∧ item.interactions.names.Nodup ∧
      ∃ document, (Compiler.standard.compile item).result = .ok document ∧
        ∃ ws slots r, Compiler.prepare item = .ok ws ∧
          Compiler.slotTable Widget.placeholder item ws = .ok slots ∧
          resolve slots (placeholder "table") = .ok r ∧ Rule.blockRoot.find? r = none := by
  intro item
  have hunique : item.interactions.names.Nodup := by decide
  have hcompile : (Compiler.standard.compile item).result.isOk = true := by decide +kernel
  obtain ⟨document, hdocument⟩ := exists_of_isOk hcompile
  obtain ⟨ws, slots, hprepare, htable, hshown⟩ := resolved_fragments rfl hunique hdocument
  have hoption : Shown item slots ⟨.block, "interactions.pick.choices.A", placeholder "table"⟩ :=
    .interaction List.mem_cons_self (.last (by decide +kernel)) List.mem_cons_self
      List.mem_cons_self (by decide +kernel)
  obtain ⟨r, hr, -, hroot, -⟩ := hshown _ hoption
  exact ⟨rfl, hunique, document, hdocument, ws, slots, r, hprepare, htable, hr, hroot rfl⟩

/-- In a prompt, which has to be inline, a table is accepted in its slot and refused where it
comes to stand. -/
theorem table_in_prompt :
    let item := pickItem (placeholder "table") "<p>1</p>"
    let prompt : Fragment := ⟨.mixed, "interactions.pick.prompt", placeholder "table"⟩
    let r : Text := "<table><thead><tr><th>a</th></tr></thead><tbody></tbody></table>"
    ∃ document, (Compiler.standard.compile item).result = .ok document ∧
      ∃ ws slots, Compiler.prepare item = .ok ws ∧
        Compiler.slotTable Widget.placeholder item ws = .ok slots ∧ Shown item slots prompt ∧
        check prompt.placement prompt.content = none ∧ resolve slots prompt.content = .ok r ∧
        check prompt.placement r = some ⟨.blockElement, snippet r⟩ := by
  intro item prompt r
  have hcompile : (Compiler.standard.compile item).result.isOk = true := by decide +kernel
  obtain ⟨document, hdocument⟩ := exists_of_isOk hcompile
  let ws : Table Widget := [("table", .dataTable ⟨none, ["a"], []⟩)]
  let slots : SlotTable :=
    item.interactions.map (fun entry => (entry.1, entry.2.markup)) ++ [("table".toList, r)]
  have hprepare : Compiler.prepare item = .ok ws := by decide +kernel
  have htable : Compiler.slotTable Widget.placeholder item ws = .ok slots := by decide +kernel
  have hprompt : Shown item slots prompt :=
    .interaction List.mem_cons_self (.last (by decide +kernel)) List.mem_cons_self
      List.mem_cons_self (by decide +kernel)
  exact ⟨document, hdocument, ws, slots, hprepare, htable, hprompt, by decide +kernel,
    by decide +kernel, by decide +kernel⟩

end AssessmentItems.ResolvedFragments
