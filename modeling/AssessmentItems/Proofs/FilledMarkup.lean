import AssessmentItems.Proofs.RuleBounds
import AssessmentItems.Proofs.SlotChains

/-!
The rules on markup in a content and in what is substituted for it. What fills a slot begins
and ends with a tag, so a rule finds nothing in the filled content exactly if it finds nothing
in the content and nothing in the fillings, and by way of all levels nothing in the content of
any slot that is reached. The rule on images reads on to the end of a tag and needs that no
placeholder stands inside the tag of an image.
-/
namespace AssessmentItems.FilledMarkup

open Text Scanning ContentRules Slots Pieces Placeholders Tags RuleBounds Substitution SlotChains

def OpensImage (t : Text) : Prop :=
  ∃ s, s <:+ t ∧ ∃ rest, afterFolded? "<img" s = some rest ∧ endsWord rest = true ∧ '>' ∉ rest

/-- No tag of an image goes on into what opens the next tag, if none is left open. -/
theorem apart_image {a b : Text} (ha : ¬ OpensImage a) (hb : b.head? = some '<') :
    Apart (tag? "<img") a b := by
  obtain ⟨b, rfl⟩ := List.head?_eq_some_iff.1 hb
  have hname : '<' ∉ ("img" : Text) := by decide
  exact apart_tag hname fold_open (by decide) ha b

theorem find?_image_eq_none {t : Text} :
    Rule.imageMissingAlt.find? t = none ↔ ∀ tag ∈ occurrences (images t), lacksAlt tag = false := by
  have hpieces : ∀ ps : List (Piece Text),
      beforeBareImage ps = none ↔ ∀ tag ∈ occurrences ps, lacksAlt tag = false := by
    intro ps
    induction ps with
    | nil => simp [beforeBareImage]
    | cons piece ps ih =>
      cases piece with
      | character c => simp [beforeBareImage, ih]
      | occurrence tag => cases htag : lacksAlt tag <;> simp [beforeBareImage, ih, htag]
  exact hpieces (images t)

theorem find?_image_append {a b : Text} (h : Apart (tag? "<img") a b) :
    Rule.imageMissingAlt.find? (a ++ b) = none ↔
      Rule.imageMissingAlt.find? a = none ∧ Rule.imageMissingAlt.find? b = none := by
  simp only [find?_image_eq_none, images, pieces_append (spelled_tag? "<img") h,
    occurrences_append, List.forall_mem_append]

/-- A text that begins where a tag opens and ends where one has ended. -/
structure Tagged (t : Text) : Prop where
  head : t.head? = some '<'
  last : t.getLast? = some '>'

theorem tagged_spelling {p : Placeholder} (hp : WellFormed p) : Tagged p.spelling :=
  ⟨head?_spelling hp, getLast?_spelling hp⟩

theorem Tagged.append {a b c : Text} (ha : a.head? = some '<') (hc : c.getLast? = some '>') :
    Tagged (a ++ b ++ c) where
  head := head?_append_left (head?_append_left ha b) c
  last := getLast?_append_right hc _

/-- A property that a text has exactly if its parts have it, where the parts meet at the
border of a tag. They may not meet where the first is still `inside` something. -/
structure Divides (inside good : Text → Prop) : Prop where
  mono : ∀ a b, inside b → inside (a ++ b)
  opens : ∀ a b, ¬ inside a → b.head? = some '<' → (good (a ++ b) ↔ good a ∧ good b)
  closes : ∀ a b, a.getLast? = some '>' → (good (a ++ b) ↔ good a ∧ good b)
  placeholder : ∀ p : Placeholder, WellFormed p → good p.spelling

theorem divides_construct {rule : Rule} {occurs : Text → Bool} (h : construct? rule = some occurs) :
    Divides (fun _ => False) fun t => rule.find? t = none := by
  simp only [find?_eq_none h]
  have hwithin := withinTag_construct h
  exact {
    mono := fun _ _ => id
    opens := fun a b _ hb => nowhere_append (hwithin.apart_open a hb)
    closes := fun a b ha => nowhere_append (hwithin.apart_close b ha)
    placeholder := fun p hp => nowhere_construct_spelling h hp }

theorem divides_image : Divides OpensImage fun t => Rule.imageMissingAlt.find? t = none where
  mono a b := by
    rintro ⟨s, hs, hopen⟩
    exact ⟨s, hs.trans (List.suffix_append a b), hopen⟩
  opens a b ha hb := find?_image_append (apart_image ha hb)
  closes a b ha := find?_image_append (apart_of_closes (tag?_close (by decide)) b ha)
  placeholder p hp := by
    have hbegins : BeginsTag fun s => (tag? "<img" s).isSome := by
      intro c t h
      obtain ⟨tag, htag⟩ := Option.isSome_iff_exists.1 h
      obtain ⟨rest, hrest, -⟩ := tag?_eq_some.1 htag
      exact eq_open_of_afterFolded? hrest
    have hnowhere := hbegins.nowhere_spelling (fun _ => rfl) hp
    rw [find?_image_eq_none, images, (occurrences_eq_nil (spelled_tag? _)).2 hnowhere]
    exact nofun

def Outside (inside : Text → Prop) (content : Text) : Prop :=
  ∀ a p b, WellFormed p → content = a ++ (p.spelling ++ b) → ¬ inside a

/-- Filling some pieces that follow a text. -/
theorem Divides.good_written {inside good : Text → Prop} (h : Divides inside good)
    {fill : Text → Text} (front : Text) (ps : List (Piece Placeholder))
    (hps : ∀ p ∈ occurrences ps, WellFormed p ∧ Tagged (fill p.name))
    (houtside : ∀ before p after, ps = before ++ .occurrence p :: after →
      ¬ inside (front ++ written Placeholder.spelling before)) :
    good (front ++ written (fun p => fill p.name) ps) ↔
      good (front ++ written Placeholder.spelling ps) ∧
        ∀ p ∈ occurrences ps, good (fill p.name) := by
  induction ps generalizing front with
  | nil => simp
  | cons piece ps ih =>
    cases piece with
    | character c =>
      rw [written_character, written_character, List.append_cons front,
        List.append_cons front c (written Placeholder.spelling ps)]
      refine ih (front ++ [c]) hps fun before p after hsplit => ?_
      rw [← List.append_cons]
      exact houtside (.character c :: before) p after (by rw [hsplit]; rfl)
    | occurrence p =>
      rw [occurrences_occurrence, List.forall_mem_cons] at hps ⊢
      obtain ⟨⟨hp, hfill⟩, hps⟩ := hps
      have hfront : ¬ inside front := by
        have := houtside [] p ps rfl
        rwa [written_nil, List.append_nil] at this
      have hparts : ∀ u rest : Text, Tagged u →
          (good (front ++ (u ++ rest)) ↔ good front ∧ good u ∧ good rest) := by
        intro u rest hu
        rw [h.opens _ _ hfront (head?_append_left hu.head rest), h.closes _ _ hu.last]
      have hrest := ih [] hps fun before q after hsplit hinside => by
        refine houtside (.occurrence p :: before) q after (by rw [hsplit]; rfl) ?_
        rw [written_occurrence]
        exact h.mono _ _ (h.mono _ _ hinside)
      rw [List.nil_append, List.nil_append] at hrest
      rw [written_occurrence, written_occurrence, hparts _ _ hfill,
        hparts _ _ (tagged_spelling hp), hrest]
      have hspelling := h.placeholder p hp
      tauto

/-- A filled content has a property exactly if the content has it and all fillings have it. -/
theorem Divides.good_filled {inside good : Text → Prop} (h : Divides inside good)
    {fill : Text → Text} {content : Text} (houtside : Outside inside content)
    (hfill : ∀ name ∈ referenced content, Tagged (fill name)) :
    good (filled fill content) ↔
      good content ∧ ∀ name ∈ referenced content, good (fill name) := by
  have hcontent : written Placeholder.spelling (segments content) = content :=
    written_pieces spelled_placeholder content
  have hwell : ∀ p ∈ occurrences (segments content), WellFormed p :=
    fun p hp => (mem_occurrences_segments.1 hp).1
  have hwritten := h.good_written [] (segments content)
    (fun p hp => ⟨hwell p hp, hfill p.name (mem_referenced.2 ⟨p, hp, rfl⟩)⟩) (by
      intro before p after hsplit
      refine houtside _ p (written Placeholder.spelling after) (hwell p ?_) ?_
      · rw [hsplit]
        simp
      · rw [← hcontent, hsplit, written_append, written_occurrence]
        rfl)
  rw [List.nil_append, List.nil_append, hcontent] at hwritten
  rw [filled, hwritten]
  refine and_congr_right fun _ => ⟨fun hall name hname => ?_, fun hall p hp => ?_⟩
  · obtain ⟨p, hp, rfl⟩ := mem_referenced.1 hname
    exact hall p hp
  · exact hall p.name (mem_referenced.2 ⟨p, hp, rfl⟩)

/-- Filling keeps tags at both ends of pieces. -/
theorem tagged_written {fill : Text → Text} {ps : List (Piece Placeholder)}
    (hfill : ∀ p ∈ occurrences ps, Tagged (fill p.name))
    (h : Tagged (written Placeholder.spelling ps)) :
    Tagged (written (fun p => fill p.name) ps) where
  head := by
    have hhead := h.head
    cases ps with
    | nil => exact hhead
    | cons piece ps =>
      cases piece with
      | character c => exact hhead
      | occurrence p =>
        exact head?_append_left (hfill p List.mem_cons_self).head _
  last := by
    have hlast := h.last
    rcases List.eq_nil_or_concat ps with rfl | ⟨ps, piece, rfl⟩
    · exact hlast
    · rw [List.concat_eq_append] at hlast hfill ⊢
      rw [written_append, List.getLast?_append] at hlast ⊢
      cases piece with
      | character c => exact hlast
      | occurrence p =>
        rw [written_occurrence, written_nil, List.append_nil, (hfill p (by simp)).last]
        rfl

theorem tagged_filled {fill : Text → Text} {content : Text} (h : Tagged content)
    (hfill : ∀ name ∈ referenced content, Tagged (fill name)) : Tagged (filled fill content) := by
  refine tagged_written (fun p hp => hfill p.name (mem_referenced.2 ⟨p, hp, rfl⟩)) ?_
  rwa [segments, written_pieces spelled_placeholder]

section

variable {slots : SlotTable}
  (hslots : ∀ name inner, Table.find? name slots = some inner → Tagged inner)
include hslots

theorem Replaced.tagged {content t : Text} (h : Replaced slots content t)
    (hcontent : Tagged content) : Tagged t := by
  induction h with
  | all inner fill hinner hfill ih =>
    exact tagged_filled hcontent fun name hname => ih name hname (hslots name _ (hinner name hname))

end

/-- Every slot on a chain of references from a content has a content with a property. -/
def AllReached (slots : SlotTable) (content : Text) (good : Text → Prop) : Prop :=
  ∀ names, Chain slots (referenced content) names → ∀ name ∈ names, ∀ inner,
    Table.find? name slots = some inner → good inner

theorem allReached_iff {slots : SlotTable} {content : Text} {good : Text → Prop} :
    AllReached slots content good ↔ ∀ name ∈ referenced content, ∀ inner,
      Table.find? name slots = some inner → good inner ∧ AllReached slots inner good := by
  constructor
  · intro h name hname inner hinner
    refine ⟨h [name] (.last hname) name List.mem_cons_self inner hinner, ?_⟩
    intro names hnames n hn
    exact h (name :: names) (.next hname hinner hnames) n (List.mem_cons_of_mem _ hn)
  · intro h names hnames
    cases hnames with
    | @last _ name hstart =>
      intro n hn inner hinner
      rw [List.mem_singleton] at hn
      exact (h n (hn ▸ hstart) inner hinner).1
    | next hstart hinner hrest =>
      obtain ⟨hgood, hall⟩ := h _ hstart _ hinner
      intro n hn inner' hinner'
      rcases List.mem_cons.1 hn with rfl | hn
      · obtain rfl := Option.mem_unique hinner hinner'
        exact hgood
      · exact hall _ hrest n hn inner' hinner'

/-- A content with everything replaced has a property exactly if the content has it and the
content of every slot that is reached has it. -/
theorem Divides.good_replaced {inside good : Text → Prop} (h : Divides inside good)
    {slots : SlotTable}
    (hslots : ∀ name inner, Table.find? name slots = some inner → Tagged inner)
    {content t : Text} (hreplaced : Replaced slots content t) (houtside : Outside inside content)
    (hreached : AllReached slots content (Outside inside)) :
    good t ↔ good content ∧ AllReached slots content good := by
  induction hreplaced with
  | @all content inner fill hinner hfill ih =>
    rw [allReached_iff] at hreached ⊢
    have htagged : ∀ name ∈ referenced content, Tagged (fill name) := fun name hname =>
      Replaced.tagged hslots (hfill name hname) (hslots name _ (hinner name hname))
    rw [h.good_filled houtside htagged]
    refine and_congr_right fun _ => forall₂_congr fun name hname => ?_
    obtain ⟨hclear, hdeep⟩ := hreached name hname _ (hinner name hname)
    rw [ih name hname hclear hdeep, hinner name hname]
    simp

theorem find?_blockRoot_eq_none {t : Text} :
    Rule.blockRoot.find? t = none ↔ ∀ c ∈ (trimStart t).head?, c = '<' := by
  unfold Rule.find?
  cases trimStart t with
  | nil => simp
  | cons c t => simp

theorem find?_blockRoot_of_head {t : Text} (h : t.head? = some '<') :
    Rule.blockRoot.find? t = none := by
  obtain ⟨t, rfl⟩ := List.head?_eq_some_iff.1 h
  rw [find?_blockRoot_eq_none, trimStart, List.dropWhile_cons_of_neg (by decide)]
  exact fun c hc => (Option.some.inj hc).symm

theorem find?_blockRoot_cons {c : Char} {t : Text} :
    Rule.blockRoot.find? (c :: t) = none ↔
      if isSpace c = true then Rule.blockRoot.find? t = none else c = '<' := by
  rw [find?_blockRoot_eq_none, find?_blockRoot_eq_none, trimStart, trimStart]
  split_ifs with hc
  · rw [List.dropWhile_cons_of_pos hc]
  · rw [List.dropWhile_cons_of_neg hc]
    simp

/-- Where a content begins with a tag, or with white space before a tag, so does the filled
content. -/
theorem find?_blockRoot_filled {fill : Text → Text} {content : Text}
    (hfill : ∀ name ∈ referenced content, Tagged (fill name))
    (h : Rule.blockRoot.find? content = none) :
    Rule.blockRoot.find? (filled fill content) = none := by
  have hpieces : ∀ ps : List (Piece Placeholder), (∀ p ∈ occurrences ps, Tagged (fill p.name)) →
      Rule.blockRoot.find? (written Placeholder.spelling ps) = none →
        Rule.blockRoot.find? (written (fun p => fill p.name) ps) = none := by
    intro ps hps hroot
    induction ps with
    | nil => exact hroot
    | cons piece ps ih =>
      cases piece with
      | character c =>
        rw [written_character, find?_blockRoot_cons] at hroot ⊢
        split_ifs at hroot ⊢
        · exact ih hps hroot
        · exact hroot
      | occurrence p =>
        apply find?_blockRoot_of_head
        exact head?_append_left (hps p List.mem_cons_self).head _
  refine hpieces _ (fun p hp => hfill p.name (mem_referenced.2 ⟨p, hp, rfl⟩)) ?_
  rwa [segments, written_pieces spelled_placeholder]

theorem find?_blockRoot_replaced {slots : SlotTable}
    (hslots : ∀ name inner, Table.find? name slots = some inner → Tagged inner)
    {content t : Text} (hreplaced : Replaced slots content t)
    (h : Rule.blockRoot.find? content = none) : Rule.blockRoot.find? t = none := by
  cases hreplaced with
  | all inner fill hinner hfill =>
    refine find?_blockRoot_filled (fun name hname => ?_) h
    exact Replaced.tagged hslots (hfill name hname) (hslots name _ (hinner name hname))

end AssessmentItems.FilledMarkup
