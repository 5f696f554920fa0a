import AssessmentItems.Proofs.RuleBounds

/-!
The tags that a search from left to right finds. A tag reaches from where it opens up to the first
`>`, and nothing that opens inside a tag counts. So the tags that are found are told from the text
before each of them, which may not end inside a tag that the same `>` ends.
-/
namespace AssessmentItems.OuterTags

open Text Scanning Pieces Placeholders Tags

variable {start before after a rest tag : Text} {c : Char}

def IsTag (start tag : Text) : Prop := tag? start tag = some tag

/-- A tag that opens inside no other, behind a text. -/
def Outer (start before tag : Text) : Prop :=
  IsTag start tag ∧ ∀ s, s <:+ before → s ≠ [] → ¬ IsTag start (s ++ tag)

theorem IsTag.ne_nil (h : IsTag start tag) : tag ≠ [] := (spelled_tag? start _ _ h).1

/-- The only `>` of a tag ends it. -/
theorem IsTag.exists_inside (h : IsTag start tag) :
    ∃ inside, '>' ∉ inside ∧ tag = inside ++ ['>'] := by
  obtain ⟨rest, -, -, -, htag⟩ := tag?_eq_some.1 h
  refine ⟨tag.takeWhile (· ≠ '>'), fun hmem => ?_, htag.symm⟩
  simpa using List.mem_takeWhile_imp hmem

/-- Two longest runs of characters of a kind at the front of a text are the same. -/
theorem run_unique {p : Char → Bool} {a b s t : Text} (ha : ∀ c ∈ a, p c = true)
    (hb : ∀ c ∈ b, p c = true) (hs : ∀ c ∈ s.head?, p c = false) (ht : ∀ c ∈ t.head?, p c = false)
    (h : a ++ s = b ++ t) : a = b ∧ s = t := by
  have hab : a = b := by
    rw [← Readings.takeWhile_run ha hs, h, Readings.takeWhile_run hb ht]
  subst hab
  exact ⟨rfl, List.append_cancel_left h⟩

/-- Two cuts of a text at the first of its characters of a kind are the same. -/
theorem cut_unique {d : Char} {a b s t : Text} (ha : d ∉ a) (hb : d ∉ b)
    (h : a ++ d :: s = b ++ d :: t) : a = b ∧ s = t := by
  have hne : ∀ {u : Text}, d ∉ u → ∀ c ∈ u, decide (c ≠ d) = true :=
    fun hu c hc => decide_eq_true fun heq => hu (heq ▸ hc)
  obtain ⟨hab, hst⟩ := run_unique (hne ha) (hne hb) (by simp) (by simp) h
  exact ⟨hab, (List.cons.inj hst).2⟩

/-- Two tags at the front of a text are the same. -/
theorem IsTag.unique {tag' after' : Text} (h : IsTag start tag) (h' : IsTag start tag')
    (heq : tag ++ after = tag' ++ after') : tag = tag' ∧ after = after' := by
  obtain ⟨inside, hinside, rfl⟩ := h.exists_inside
  obtain ⟨inside', hinside', rfl⟩ := h'.exists_inside
  obtain ⟨rfl, rfl⟩ := cut_unique hinside hinside' (by simpa using heq)
  exact ⟨rfl, rfl⟩

section

variable (hstart : '>' ∉ start)
include hstart

/-- A tag is read at the front of a text exactly if it stands there. -/
theorem tag?_eq_some_iff {t : Text} : tag? start t = some tag ↔ IsTag start tag ∧ tag <+: t := by
  constructor
  · intro h
    obtain ⟨-, rest, hrest⟩ := spelled_tag? start _ _ h
    obtain ⟨_, -, -, -, htag⟩ := tag?_eq_some.1 h
    have hclose := tag?_close hstart (t.takeWhile (· ≠ '>')) rest
    rw [List.append_cons, htag] at hclose
    refine ⟨hclose.symm.trans ?_, rest, hrest⟩
    exact (congrArg (tag? start) hrest).trans h
  · rintro ⟨h, rest, rfl⟩
    exact tag?_append h rest

theorem not_isTag_of_eq_none {t : Text} (h : tag? start t = none) (hfront : tag <+: t) :
    ¬ IsTag start tag := by
  intro htag
  rw [(tag?_eq_some_iff hstart).2 ⟨htag, hfront⟩] at h
  contradiction

/-- Where no tag opens, the tags of a text are those behind its first character. -/
theorem outer_cons (hread : tag? start (c :: (before ++ (tag ++ after))) = none) :
    Outer start (c :: before) tag ↔ Outer start before tag := by
  refine and_congr_right fun _ => ⟨fun h s hs => h s (hs.trans (List.suffix_cons _ _)), ?_⟩
  intro h s hs hne
  rcases List.suffix_cons_iff.1 hs with rfl | hs
  · exact not_isTag_of_eq_none hstart hread ⟨after, by simp⟩
  · exact h s hs hne

end

/-- Behind a tag, the tags of a text are those of the rest. -/
theorem outer_append (ha : IsTag start a) :
    Outer start (a ++ before) tag ↔ Outer start before tag := by
  refine and_congr_right fun htag => ⟨fun h s hs => h s (hs.trans (List.suffix_append _ _)), ?_⟩
  intro h s hs hne hslot
  rcases List.suffix_or_suffix_of_suffix hs (List.suffix_append a before) with hshort | ⟨u, rfl⟩
  · exact h s hshort hne hslot
  rcases List.eq_nil_or_concat u with rfl | ⟨u, c, rfl⟩
  · exact h before List.suffix_rfl hne hslot
  obtain ⟨inside, hinside, hlong⟩ := hslot.exists_inside
  obtain ⟨content, -, rfl⟩ := htag.exists_inside
  obtain ⟨first, -, rfl⟩ := ha.exists_inside
  obtain ⟨v, hv⟩ := hs
  have hc : c = '>' := by
    have hfirst : (v ++ u) ++ [c] ++ before = first ++ ['>'] ++ before := by simpa using hv
    simpa using (List.append_inj' (List.append_cancel_right hfirst) rfl).2
  have hlong' : (u ++ [c]) ++ (before ++ content) ++ ['>'] = inside ++ ['>'] := by
    simpa using hlong
  have hfront := List.append_cancel_right hlong'
  exact hinside (hfront ▸ by simp [hc])

/-- A tag that is found in a text that begins with a tag is this one or stands behind it. -/
theorem outer_or_behind (ha : IsTag start a) (h : Outer start before tag)
    (heq : a ++ rest = before ++ (tag ++ after)) :
    (before = [] ∧ tag = a ∧ after = rest) ∨
      ∃ between, before = a ++ between ∧ rest = between ++ (tag ++ after) := by
  obtain ⟨htag, hopen⟩ := h
  by_cases hclose : '>' ∈ before
  · obtain ⟨inside, hinside, rfl⟩ := ha.exists_inside
    obtain ⟨front, between, rfl, hfront⟩ := List.eq_append_cons_of_mem hclose
    have hcut : inside ++ '>' :: rest = front ++ '>' :: (between ++ (tag ++ after)) := by
      simpa using heq
    obtain ⟨rfl, rfl⟩ := cut_unique hinside hfront hcut
    exact .inr ⟨between, by simp, rfl⟩
  · by_cases hne : before = []
    · subst hne
      obtain ⟨rfl, rfl⟩ := ha.unique htag heq
      exact .inl ⟨rfl, rfl, rfl⟩
    · refine absurd ?_ (hopen before List.suffix_rfl hne)
      obtain ⟨inside, hinside, rfl⟩ := ha.exists_inside
      obtain ⟨content, hcontent, rfl⟩ := htag.exists_inside
      have hcut : inside ++ '>' :: rest = (before ++ content) ++ '>' :: after := by
        simpa using heq
      have hnot : '>' ∉ before ++ content := fun h => (List.mem_append.1 h).elim hclose hcontent
      obtain ⟨rfl, rfl⟩ := cut_unique hinside hnot hcut
      simpa using ha

/-- Nothing opens before the first tag of a text. -/
theorem outer_nil (h : IsTag start tag) : Outer start [] tag :=
  ⟨h, fun _ hs hne => absurd (List.suffix_nil.1 hs) hne⟩

/-- The tags that are found in a text are those that open inside no other. -/
theorem mem_occurrences (hstart : '>' ∉ start) {t : Text} :
    tag ∈ occurrences (pieces (tag? start) id t) ↔
      ∃ before after, t = before ++ (tag ++ after) ∧ Outer start before tag := by
  induction t using scan_induction (spelled_tag? start) with
  | nil =>
    refine iff_of_false List.not_mem_nil ?_
    rintro ⟨before, after, heq, htag, -⟩
    have hrest := (List.append_eq_nil_iff.1 heq.symm).2
    exact htag.ne_nil (List.append_eq_nil_iff.1 hrest).1
  | character c t hread ih =>
    rw [pieces_of_not_recognise _ _ _ _ hread, occurrences_character, ih]
    constructor
    · rintro ⟨before, after, rfl, houter⟩
      exact ⟨c :: before, after, rfl, (outer_cons hstart hread).2 houter⟩
    · rintro ⟨before, after, heq, houter⟩
      cases before with
      | nil => exact absurd houter.1 (not_isTag_of_eq_none hstart hread ⟨after, heq.symm⟩)
      | cons d before =>
        obtain ⟨rfl, rfl⟩ := List.cons.inj heq
        exact ⟨before, after, rfl, (outer_cons hstart hread).1 houter⟩
  | occurrence a rest hne hread ih =>
    have ha : IsTag start a := ((tag?_eq_some_iff hstart).1 hread).1
    rw [pieces_of_recognise _ _ _ _ hne hread, occurrences_occurrence, List.mem_cons, ih, id]
    constructor
    · rintro (rfl | ⟨before, after, rfl, houter⟩)
      · exact ⟨[], rest, rfl, outer_nil ha⟩
      · exact ⟨a ++ before, after, (List.append_assoc ..).symm, (outer_append ha).2 houter⟩
    · rintro ⟨before, after, heq, houter⟩
      rcases outer_or_behind ha houter heq with ⟨-, rfl, -⟩ | ⟨between, rfl, hrest⟩
      · exact .inl rfl
      · exact .inr ⟨between, after, hrest, (outer_append ha).1 houter⟩

section

variable {name : Text} (hopen : '<' ∉ name) (hclose : '>' ∉ name)
include hopen hclose

/-- A tag reaches over the next one exactly if it begins and does not end before it. -/
theorem isTag_append {s : Text} (hs : s ≠ []) (htag : IsTag ('<' :: name) tag) :
    IsTag ('<' :: name) (s ++ tag) ↔
      ∃ rest, afterFolded? ('<' :: name) s = some rest ∧ endsWord rest = true ∧ '>' ∉ rest := by
  obtain ⟨inside, hinside, rfl⟩ := htag.exists_inside
  obtain ⟨body, hbody⟩ : ∃ body, inside ++ ['>'] = '<' :: body := by
    obtain ⟨rest, hrest, -⟩ := tag?_eq_some.1 htag
    obtain ⟨c, body, heq⟩ := List.exists_cons_of_ne_nil htag.ne_nil
    rw [heq] at hrest
    exact ⟨body, by rw [heq, RuleBounds.eq_open_of_afterFolded? hrest]⟩
  constructor
  · intro h
    obtain ⟨outer, houter, heq⟩ := h.exists_inside
    obtain ⟨_, hlong, hends, -⟩ := tag?_eq_some.1 h
    rw [hbody, afterFolded?_open_append hopen fold_open hs] at hlong
    obtain ⟨rest, hrest, rfl⟩ := Option.map_eq_some_iff.1 hlong
    rw [endsWord_append_cons (by decide)] at hends
    refine ⟨rest, hrest, hends, fun hmem => houter ?_⟩
    obtain ⟨front, rfl, -⟩ := afterFolded?_eq_some.1 hrest
    rw [← List.append_assoc] at heq
    rw [← List.append_cancel_right heq]
    simp [hmem]
  · rintro ⟨rest, hrest, hends, hnot⟩
    refine tag?_eq_some.2 ⟨_, afterFolded?_append hrest _, ?_, by simp, ?_⟩
    · rw [hbody, endsWord_append_cons (by decide)]
      exact hends
    · obtain ⟨front, rfl, hfold⟩ := afterFolded?_eq_some.1 hrest
      have hfront : '>' ∉ front := by
        intro hmem
        have hmem' := List.mem_map_of_mem (f := fold) hmem
        rw [hfold, fold_close] at hmem'
        exact (List.mem_cons.1 hmem').elim (by decide) hclose
      have hall : ∀ c ∈ front ++ rest ++ inside, decide (c ≠ '>') = true := by
        refine fun c hc => decide_eq_true ?_
        rintro rfl
        simp [hfront, hnot, hinside] at hc
      rw [← List.append_assoc, Readings.takeWhile_run hall (by simp)]

/-- A tag opens inside no other exactly if the text before it does not end inside a tag. -/
theorem outer_iff : Outer ('<' :: name) before tag ↔
    IsTag ('<' :: name) tag ∧ ¬ EndsInside ('<' :: name) before := by
  refine and_congr_right fun htag => ?_
  constructor
  · rintro h ⟨s, hs, hrest⟩
    have hne : s ≠ [] := by
      rintro rfl
      obtain ⟨_, hnil, -⟩ := hrest
      cases hnil
    exact h s hs hne ((isTag_append hopen hclose hne htag).2 hrest)
  · intro h s hs hne hlong
    exact h ⟨s, hs, (isTag_append hopen hclose hne htag).1 hlong⟩

end

end AssessmentItems.OuterTags
