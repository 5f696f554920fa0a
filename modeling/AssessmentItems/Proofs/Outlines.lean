import AssessmentItems.Proofs.FilledMarkup

/-!
Outlines of texts: their brackets, and whatever stands in a tag that begins like a slot. The
outline of a text has the same placeholders and is as free of tags that look like slots, and
substitution goes on in outlines as it does in texts. So what a text says outside these tags
decides nothing.
-/
namespace AssessmentItems.Outlines

open Text Scanning Slots Pieces Placeholders Tags Results Substitution SlotChains FilledMarkup

def opensSlot (t : Text) : Bool := (afterFolded? "slot" t).isSome

/-- The outline of a text that goes on inside a tag that begins like a slot, or outside. -/
def outlineFrom (inside : Bool) : Text → Text
  | [] => []
  | c :: t =>
    if c = '<' then '<' :: outlineFrom (opensSlot t) t
    else if c = '>' then '>' :: outlineFrom false t
    else if inside then c :: outlineFrom inside t
    else outlineFrom inside t

def outline (t : Text) : Text := outlineFrom false t

section

variable {c : Char} (hopen : c ≠ '<') (hclose : c ≠ '>')
include hopen hclose

theorem outlineFrom_true_cons (t : Text) : outlineFrom true (c :: t) = c :: outlineFrom true t := by
  rw [outlineFrom, if_neg hopen, if_neg hclose, if_pos rfl]

theorem outline_cons (t : Text) : outline (c :: t) = outline t := by
  rw [outline, outlineFrom, if_neg hopen, if_neg hclose, if_neg (by decide)]
  rfl

end

theorem outlineFrom_open (inside : Bool) (t : Text) :
    outlineFrom inside ('<' :: t) = '<' :: outlineFrom (opensSlot t) t := if_pos rfl

theorem outlineFrom_close (inside : Bool) (t : Text) :
    outlineFrom inside ('>' :: t) = '>' :: outline t := by
  rw [outlineFrom, if_neg (by decide), if_pos rfl]
  rfl

section

variable {a : Text} (hopen : '<' ∉ a) (hclose : '>' ∉ a)
include hopen hclose

theorem outlineFrom_true_append (b : Text) :
    outlineFrom true (a ++ b) = a ++ outlineFrom true b := by
  induction a with
  | nil => rfl
  | cons c a ih =>
    rw [List.mem_cons, not_or] at hopen hclose
    rw [List.cons_append, outlineFrom_true_cons (Ne.symm hopen.1) (Ne.symm hclose.1),
      ih hopen.2 hclose.2, List.cons_append]

/-- What stands outside tags leaves no trace. -/
theorem outline_of_not_mem : outline a = [] := by
  induction a with
  | nil => rfl
  | cons c a ih =>
    rw [List.mem_cons, not_or] at hopen hclose
    rw [outline_cons (Ne.symm hopen.1) (Ne.symm hclose.1), ih hopen.2 hclose.2]

end

theorem opensSlot_append_cons {d : Char} (hd : d ∉ ("slot" : Text)) (hfold : fold d = d)
    (a b : Text) : opensSlot (a ++ d :: b) = opensSlot a := by
  rw [opensSlot, afterFolded?_append_cons hd hfold, Option.isSome_map]
  rfl

theorem outlineFrom_append_close (inside : Bool) {a : Text} (ha : a.getLast? = some '>')
    (b : Text) : outlineFrom inside (a ++ b) = outlineFrom inside a ++ outline b := by
  obtain ⟨a, rfl⟩ := List.getLast?_eq_some_iff.1 ha
  clear ha
  rw [List.append_assoc, List.singleton_append]
  induction a generalizing inside with
  | nil => simp only [List.nil_append, outlineFrom_close, List.cons_append, outline, outlineFrom]
  | cons c a ih =>
    have hopens := opensSlot_append_cons (by decide) fold_close a b
    have hopens' := opensSlot_append_cons (by decide) fold_close a []
    simp only [List.cons_append, outlineFrom, hopens, hopens', ih]
    split_ifs <;> rfl

def Ended (t : Text) : Prop := ∀ b, outline (t ++ b) = outline t ++ outline b

theorem ended_of_last {t : Text} (h : t.getLast? = some '>') : Ended t :=
  outlineFrom_append_close false h

theorem ended_of_not_mem {t : Text} (h : '<' ∉ t) : Ended t := by
  intro b
  induction t with
  | nil => rfl
  | cons c t ih =>
    rw [List.mem_cons, not_or] at h
    by_cases hclose : c = '>'
    · have hcons : ∀ u, outline ('>' :: u) = '>' :: outline u := outlineFrom_close false
      rw [hclose, List.cons_append, hcons, hcons, ih h.2, List.cons_append]
    · rw [List.cons_append, outline_cons (Ne.symm h.1) hclose, outline_cons (Ne.symm h.1) hclose,
        ih h.2]

/-- Texts of the same outline, at the end of which no tag is open. -/
structure Similar (s t : Text) : Prop where
  left : Ended s
  right : Ended t
  outline_eq : outline s = outline t

theorem similar_of_last {t : Text} (h : t.getLast? = some '>') : Similar t t :=
  ⟨ended_of_last h, ended_of_last h, rfl⟩

theorem similar_of_not_mem {s t : Text} (hs : '<' ∉ s) (hs' : '>' ∉ s) (ht : '<' ∉ t)
    (ht' : '>' ∉ t) : Similar s t where
  left := ended_of_not_mem hs
  right := ended_of_not_mem ht
  outline_eq := by rw [outline_of_not_mem hs hs', outline_of_not_mem ht ht']

theorem similar_nil : Similar [] [] :=
  similar_of_not_mem List.not_mem_nil List.not_mem_nil List.not_mem_nil List.not_mem_nil

theorem Similar.append {s s' t t' : Text} (hs : Similar s s') (ht : Similar t t') :
    Similar (s ++ t) (s' ++ t') where
  left b := by rw [List.append_assoc, hs.left, hs.left, ht.left, List.append_assoc]
  right b := by rw [List.append_assoc, hs.right, hs.right, ht.right, List.append_assoc]
  outline_eq := by rw [hs.left, hs.right, hs.outline_eq, ht.outline_eq]

theorem similar_flatMap {α : Type} {f g : α → Text} {u : α → α} {as : List α}
    (h : ∀ a, Similar (f a) (g (u a))) : Similar (as.flatMap f) ((as.map u).flatMap g) := by
  induction as with
  | nil => exact similar_nil
  | cons a as ih => exact (h a).append ih

theorem head?_outline {t : Text} {c : Char} (h : (outline t).head? = some c) :
    c = '<' ∨ c = '>' := by
  induction t with
  | nil => simp [outline, outlineFrom] at h
  | cons d t ih =>
    by_cases hopen : d = '<'
    · subst hopen
      rw [outline, outlineFrom_open] at h
      exact .inl (Option.some.inj h).symm
    · by_cases hclose : d = '>'
      · subst hclose
        rw [outline, outlineFrom_close] at h
        exact .inr (Option.some.inj h).symm
      · rw [outline_cons hopen hclose] at h
        exact ih h

theorem afterFolded?_cons_outline (start : Char) (hopen : start ≠ '<') (hclose : start ≠ '>')
    (name t : Text) : afterFolded? (start :: name) (outline t) = none := by
  cases houtline : outline t with
  | nil => rfl
  | cons c u =>
    have hne : start ≠ fold c := by
      rcases head?_outline (congrArg List.head? houtline) with rfl | rfl
      · rwa [fold_open]
      · rwa [fold_close]
    rw [afterFolded?, if_neg hne]

theorem mem_outlineFrom_close (inside : Bool) (t : Text) :
    '>' ∈ outlineFrom inside t ↔ '>' ∈ t := by
  induction t generalizing inside with
  | nil => rfl
  | cons c t ih =>
    rw [outlineFrom]
    split_ifs with hopen hclose
    · rw [hopen, List.mem_cons, List.mem_cons, ih]
    · simp [hclose]
    · rw [List.mem_cons, List.mem_cons, ih]
    · rw [List.mem_cons, ih, or_iff_right (Ne.symm hclose)]

theorem endsWord_outlineFrom (t : Text) : endsWord (outlineFrom true t) = endsWord t := by
  cases t with
  | nil => rfl
  | cons c t =>
    rw [outlineFrom]
    split_ifs with hopen hclose
    · rw [hopen]
      rfl
    · rw [hclose]
      rfl
    · rfl
    · contradiction

/-- What follows a `<` begins like a slot exactly if its outline does. -/
theorem afterFolded?_outlineFrom (t : Text) :
    afterFolded? "slot" (outlineFrom (opensSlot t) t) =
      (afterFolded? "slot" t).map (outlineFrom true) := by
  cases hafter : afterFolded? "slot" t with
  | none =>
    rw [opensSlot, hafter]
    exact afterFolded?_cons_outline 's' (by decide) (by decide) _ t
  | some rest =>
    rw [opensSlot, hafter]
    obtain ⟨front, rfl, hfront⟩ := afterFolded?_eq_some.1 hafter
    have hnot : ∀ d, fold d = d → d ∉ ("slot" : Text) → d ∉ front := by
      intro d hfold hd hmem
      rw [← hfront] at hd
      exact hd (hfold ▸ List.mem_map_of_mem hmem)
    have hcopy := outlineFrom_true_append (hnot '<' fold_open (by decide))
      (hnot '>' fold_close (by decide)) rest
    exact afterFolded?_eq_some.2 ⟨front, hcopy, hfront⟩

/-- A tag that looks like a slot opens in a text where one opens in its outline. -/
theorem isSome_looseTag?_outline (t : Text) :
    (looseTag? ('<' :: outlineFrom (opensSlot t) t)).isSome = (looseTag? ('<' :: t)).isSome := by
  have hread : ∀ u : Text, (looseTag? ('<' :: u)).isSome = true ↔
      ∃ rest, afterFolded? "slot" u = some rest ∧ endsWord rest = true ∧ '>' ∈ rest := by
    intro u
    have hopen : afterFolded? "<slot" ('<' :: u) = afterFolded? "slot" u := if_pos fold_open.symm
    simp only [Option.isSome_iff_exists, looseTag?, tag?_eq_some, hopen]
    simp
  rw [Bool.eq_iff_iff, hread, hread, afterFolded?_outlineFrom]
  simp [endsWord_outlineFrom, mem_outlineFrom_close]

theorem nowhere_outlineFrom (inside : Bool) (t : Text) :
    Nowhere (fun s => (looseTag? s).isSome) (outlineFrom inside t) ↔
      Nowhere (fun s => (looseTag? s).isSome) t := by
  have hnot : ∀ {c : Char}, c ≠ '<' → ∀ u : Text, (looseTag? (c :: u)).isSome = false := by
    intro c hc u
    cases htag : looseTag? (c :: u) with
    | none => rfl
    | some tag =>
      obtain ⟨rest, hrest, -⟩ := tag?_eq_some.1 htag
      exact absurd (RuleBounds.eq_open_of_afterFolded? hrest) hc
  induction t generalizing inside with
  | nil => rfl
  | cons c t ih =>
    rw [outlineFrom]
    split_ifs with hopen hclose
    · rw [hopen, nowhere_cons, nowhere_cons, isSome_looseTag?_outline]
      exact and_congr_right fun _ => ih _
    · rw [hclose, nowhere_cons, nowhere_cons, hnot (by decide), hnot (by decide)]
      exact and_congr_right fun _ => ih _
    · rw [nowhere_cons, nowhere_cons, hnot hopen, hnot hopen]
      exact and_congr_right fun _ => ih _
    · rw [nowhere_cons, hnot hopen]
      exact (ih _).trans (and_iff_right rfl).symm

theorem leftover_outline {t : Text} : leftover (outline t) = [] ↔ leftover t = [] := by
  rw [leftover_eq_nil, leftover_eq_nil]
  exact nowhere_outlineFrom false t

theorem opensSlot_of_looseTag? {t : Text} (h : (looseTag? ('<' :: t)).isSome = true) :
    opensSlot t = true := by
  obtain ⟨tag, htag⟩ := Option.isSome_iff_exists.1 h
  obtain ⟨rest, hrest, -⟩ := tag?_eq_some.1 htag
  exact Option.isSome_iff_exists.2 ⟨rest, hrest⟩

theorem outlineFrom_spelling {p : Placeholder} (hp : WellFormed p) (inside : Bool) (rest : Text) :
    outlineFrom inside (p.spelling ++ rest) = p.spelling ++ outline rest := by
  have hloose := isSome_looseTag?_spelling hp rest
  obtain ⟨x, hspelling, hopen, hclose⟩ := exists_inside hp
  rw [hspelling, List.cons_append, List.append_assoc, List.singleton_append] at hloose ⊢
  rw [outlineFrom_open, opensSlot_of_looseTag? hloose, outlineFrom_true_append hopen hclose,
    outlineFrom_close, List.cons_append, List.append_assoc, List.singleton_append]

/-- Inside a tag that begins like a slot nothing is left out up to its end. -/
theorem exists_of_outlineFrom_true {t x rest : Text} (hopen : '<' ∉ x) (hclose : '>' ∉ x)
    (h : outlineFrom true t = x ++ '>' :: rest) : ∃ rest', t = x ++ '>' :: rest' := by
  induction x generalizing t with
  | nil =>
    cases t with
    | nil => simp [outlineFrom] at h
    | cons c t =>
      rw [outlineFrom] at h
      split_ifs at h with hc hc'
      · simp at h
      · exact ⟨t, by rw [hc']; rfl⟩
      · exact absurd (List.cons.inj h).1 hc'
      · contradiction
  | cons d x ih =>
    rw [List.mem_cons, not_or] at hopen hclose
    cases t with
    | nil => simp [outlineFrom] at h
    | cons c t =>
      rw [outlineFrom] at h
      split_ifs at h with hc hc'
      · exact absurd (List.cons.inj h).1 hopen.1
      · exact absurd (List.cons.inj h).1 hclose.1
      · obtain ⟨rfl, htail⟩ := List.cons.inj h
        obtain ⟨rest', rfl⟩ := ih hopen.2 hclose.2 htail
        exact ⟨rest', rfl⟩
      · contradiction

theorem placeholder?_outline (t : Text) :
    placeholder? ('<' :: outlineFrom (opensSlot t) t) = placeholder? ('<' :: t) := by
  refine Option.ext fun p => ?_
  rw [placeholder?_eq_some, placeholder?_eq_some]
  refine and_congr_right fun hp => ⟨?_, ?_⟩
  · rintro ⟨rest, h⟩
    have hloose := isSome_looseTag?_spelling hp rest
    rw [← h, isSome_looseTag?_outline] at hloose
    obtain ⟨x, hspelling, hopen, hclose⟩ := exists_inside hp
    rw [opensSlot_of_looseTag? hloose, hspelling, List.cons_append, List.append_assoc,
      List.singleton_append] at h
    obtain ⟨rest', rfl⟩ := exists_of_outlineFrom_true hopen hclose (List.cons.inj h).2
    exact ⟨rest', by rw [hspelling, List.cons_append, List.append_assoc, List.singleton_append]⟩
  · rintro ⟨rest, h⟩
    have houtline := outlineFrom_spelling hp false rest
    rw [← h, outlineFrom_open] at houtline
    exact ⟨_, houtline⟩

theorem placeholder?_cons {c : Char} (hc : c ≠ '<') (t : Text) : placeholder? (c :: t) = none := by
  cases hread : placeholder? (c :: t) with
  | none => rfl
  | some p =>
    obtain ⟨hp, rest, hrest⟩ := placeholder?_sound hread
    have hhead := head?_append_left (head?_spelling hp) rest
    rw [← hrest] at hhead
    exact absurd (Option.some.inj hhead) hc

theorem segments_cons {c : Char} {t : Text} (h : placeholder? (c :: t) = none) :
    segments (c :: t) = .character c :: segments t := pieces_of_not_recognise _ _ _ _ h

/-- The placeholders of a text stand in its outline. -/
theorem occurrences_outlineFrom (inside : Bool) (t : Text) :
    occurrences (segments (outlineFrom inside t)) = occurrences (segments t) := by
  induction t using scan_induction spelled_placeholder generalizing inside with
  | nil => rfl
  | character c t hread ih =>
    rw [segments_cons hread, occurrences_character, outlineFrom]
    split_ifs with hopen hclose
    · rw [hopen, ← placeholder?_outline] at hread
      rw [segments_cons hread, occurrences_character, ih]
    · rw [segments_cons (placeholder?_cons (by decide) _), occurrences_character, ih]
    · rw [segments_cons (placeholder?_cons hopen _), occurrences_character, ih]
    · exact ih inside
  | occurrence p rest hne hread ih =>
    have hp := (placeholder?_sound hread).1
    rw [outlineFrom_spelling hp, segments_placeholder hp, segments_placeholder hp,
      occurrences_occurrence, occurrences_occurrence, outline, ih]

theorem mem_referenced_outline {t name : Text} :
    name ∈ referenced (outline t) ↔ name ∈ referenced t := by
  rw [mem_referenced, mem_referenced, outline, occurrences_outlineFrom]

theorem filled_cons {c : Char} {t : Text} (h : placeholder? (c :: t) = none) (fill : Text → Text) :
    filled fill (c :: t) = c :: filled fill t := by
  rw [filled, segments_cons h, written_character]
  rfl

theorem filled_spelling {p : Placeholder} (hp : WellFormed p) (fill : Text → Text) (rest : Text) :
    filled fill (p.spelling ++ rest) = fill p.name ++ filled fill rest := by
  rw [filled, segments_placeholder hp, written_occurrence]
  rfl

section

variable {fill : Text → Text}

/-- What fills a slot begins with a tag, as its placeholder does, so that a name is read from
a filled text exactly if it is read from the text. -/
theorem isSome_afterFolded?_filled {name : Text} (hname : '<' ∉ name) {t : Text}
    (hfill : ∀ p ∈ occurrences (segments t), Tagged (fill p.name)) :
    (afterFolded? name (filled fill t)).isSome = (afterFolded? name t).isSome := by
  induction t using scan_induction spelled_placeholder generalizing name with
  | nil => rfl
  | character c t hread ih =>
    rw [segments_cons hread, occurrences_character] at hfill
    rw [filled_cons hread]
    cases name with
    | nil => rfl
    | cons d name =>
      rw [afterFolded?, afterFolded?]
      split_ifs
      · exact ih (fun hmem => hname (List.mem_cons_of_mem _ hmem)) hfill
      · rfl
  | occurrence p rest hne hread ih =>
    have hp := (placeholder?_sound hread).1
    rw [segments_placeholder hp, occurrences_occurrence, List.forall_mem_cons] at hfill
    cases name with
    | nil => rfl
    | cons d name =>
      have hnone : ∀ u : Text, u.head? = some '<' → afterFolded? (d :: name) u = none := by
        intro u hu
        obtain ⟨u, rfl⟩ := List.head?_eq_some_iff.1 hu
        have hne : d ≠ fold '<' := fun heq => hname (heq ▸ List.mem_cons_self)
        exact if_neg hne
      rw [filled_spelling hp, hnone _ (head?_append_left hfill.1.head _),
        hnone _ (head?_append_left (head?_spelling hp) _)]

/-- The outline of a filled text is its outline, filled with outlines. -/
theorem outlineFrom_filled (inside : Bool) {t : Text}
    (hfill : ∀ p ∈ occurrences (segments t), Tagged (fill p.name)) :
    outlineFrom inside (filled fill t) = filled (outline ∘ fill) (outlineFrom inside t) := by
  induction t using scan_induction spelled_placeholder generalizing inside with
  | nil => rfl
  | character c t hread ih =>
    rw [segments_cons hread, occurrences_character] at hfill
    rw [filled_cons hread, outlineFrom, outlineFrom]
    split_ifs with hopen hclose
    · rw [hopen, ← placeholder?_outline] at hread
      have hopens : opensSlot (filled fill t) = opensSlot t :=
        isSome_afterFolded?_filled (by decide) hfill
      rw [filled_cons hread, hopens, ih _ hfill]
    · rw [filled_cons (placeholder?_cons (by decide) _), ih _ hfill]
    · rw [filled_cons (placeholder?_cons hopen _), ih _ hfill]
    · exact ih inside hfill
  | occurrence p rest hne hread ih =>
    have hp := (placeholder?_sound hread).1
    rw [segments_placeholder hp, occurrences_occurrence, List.forall_mem_cons] at hfill
    obtain ⟨htagged, hfill⟩ := hfill
    have hfront : outlineFrom inside (fill p.name) = outline (fill p.name) := by
      obtain ⟨u, hu⟩ := List.head?_eq_some_iff.1 htagged.head
      rw [hu, outline, outlineFrom_open, outlineFrom_open]
    rw [outlineFrom_spelling hp, filled_spelling hp, filled_spelling hp,
      outlineFrom_append_close inside htagged.last, hfront, outline, outline, ih false hfill]
    rfl

theorem outline_filled {content : Text} (hfill : ∀ name ∈ referenced content, Tagged (fill name)) :
    outline (filled fill content) = filled (outline ∘ fill) (outline content) :=
  outlineFrom_filled false fun p hp => hfill p.name (mem_referenced.2 ⟨p, hp, rfl⟩)

end

def Alike (slots slots' : SlotTable) : Prop :=
  ∀ name, (Table.find? name slots).map outline = (Table.find? name slots').map outline

def AllTagged (slots : SlotTable) : Prop :=
  ∀ name inner, Table.find? name slots = some inner → Tagged inner

theorem Alike.exists_slot {slots slots' : SlotTable} (h : Alike slots slots') {name inner : Text}
    (hinner : Table.find? name slots = some inner) :
    ∃ inner', Table.find? name slots' = some inner' ∧ outline inner = outline inner' := by
  have hname := h name
  rw [hinner, Option.map_some] at hname
  obtain ⟨inner', hinner', houtline⟩ := Option.map_eq_some_iff.1 hname.symm
  exact ⟨inner', hinner', houtline.symm⟩

theorem tagged_of_fills {slots : SlotTable} (hslots : AllTagged slots) {room : ℕ}
    {active : List Text} {name t : Text} (h : Fills slots room active name t) : Tagged t := by
  obtain ⟨inner, below, -, hinner, -, hsub⟩ := h
  exact Replaced.tagged hslots (replaced_of_substitute hsub) (hslots name inner hinner)

/-- Substitution goes the same way in texts of the same outline, and leads to texts of the same
outline. -/
theorem substitute_alike {slots slots' : SlotTable} (hslots : AllTagged slots)
    (hslots' : AllTagged slots') (halike : Alike slots slots') {room : ℕ} {active : List Text}
    {content content' t : Text} (hcontent : outline content = outline content')
    (h : substitute slots room active content = .ok t) :
    ∃ t', substitute slots' room active content' = .ok t' ∧ outline t = outline t' := by
  induction room using Nat.strong_induction_on generalizing active content content' t with
  | _ room ih =>
    obtain ⟨fill, hfill, rfl⟩ := substitute_eq_ok.1 h
    have hnames : ∀ name, name ∈ referenced content' ↔ name ∈ referenced content := by
      intro name
      rw [← mem_referenced_outline, ← hcontent, mem_referenced_outline]
    have hall : ∀ name, ∃ filling, name ∈ referenced content' →
        Fills slots' room active name filling ∧ outline (fill name) = outline filling := by
      intro name
      by_cases hname : name ∈ referenced content'
      · obtain ⟨inner, below, rfl, hinner, hactive, hsub⟩ := hfill name ((hnames name).1 hname)
        obtain ⟨inner', hinner', houtline⟩ := halike.exists_slot hinner
        obtain ⟨filling, hfilling, hsame⟩ := ih below (Nat.lt_succ_self _) houtline hsub
        exact ⟨filling, fun _ => ⟨⟨inner', below, rfl, hinner', hactive, hfilling⟩, hsame⟩⟩
      · exact ⟨[], fun hmem => absurd hmem hname⟩
    choose fill' hfill' using hall
    refine ⟨filled fill' content', substitute_eq_ok.2 ⟨fill', fun name hname =>
      (hfill' name hname).1, rfl⟩, ?_⟩
    rw [outline_filled fun name hname => tagged_of_fills hslots (hfill name hname),
      outline_filled fun name hname => tagged_of_fills hslots' (hfill' name hname).1, hcontent]
    refine filled_congr fun name hname => ?_
    exact (hfill' name (mem_referenced_outline.1 hname)).2

/-- The outline of what a computation leads to, if it succeeds. -/
def sketch {ε : Type} (x : Except ε Text) : Option Text := x.toOption.map outline

theorem sketch_eq_some {ε : Type} {x : Except ε Text} {u : Text} :
    sketch x = some u ↔ ∃ t, x = .ok t ∧ outline t = u := by
  cases x with
  | error e => simp [sketch, Except.toOption]
  | ok t => simp [sketch, Except.toOption]

theorem Alike.symm {slots slots' : SlotTable} (h : Alike slots slots') : Alike slots' slots :=
  fun name => (h name).symm

theorem resolve_alike {slots slots' : SlotTable} (hslots : AllTagged slots)
    (hslots' : AllTagged slots') (halike : Alike slots slots') {content content' t : Text}
    (hcontent : outline content = outline content') (h : resolve slots content = .ok t) :
    ∃ t', resolve slots' content' = .ok t' ∧ outline t = outline t' := by
  obtain ⟨hsub, hleft⟩ := resolve_eq_ok.1 h
  obtain ⟨t', hsub', houtline⟩ := substitute_alike hslots hslots' halike hcontent hsub
  rw [← leftover_outline, houtline, leftover_outline] at hleft
  exact ⟨t', resolve_eq_ok.2 ⟨hsub', hleft⟩, houtline⟩

theorem sketch_resolve {slots slots' : SlotTable} (hslots : AllTagged slots)
    (hslots' : AllTagged slots') (halike : Alike slots slots') {content content' : Text}
    (hcontent : outline content = outline content') :
    sketch (resolve slots content) = sketch (resolve slots' content') := by
  refine Option.ext fun u => ?_
  rw [sketch_eq_some, sketch_eq_some]
  constructor
  · rintro ⟨t, ht, rfl⟩
    obtain ⟨t', ht', houtline⟩ := resolve_alike hslots hslots' halike hcontent ht
    exact ⟨t', ht', houtline.symm⟩
  · rintro ⟨t, ht, rfl⟩
    obtain ⟨t', ht', houtline⟩ := resolve_alike hslots' hslots halike.symm hcontent.symm ht
    exact ⟨t', ht', houtline.symm⟩

def brackets (t : Text) : Text := t.filter fun c => c = '<' || c = '>'

theorem brackets_append (s t : Text) : brackets (s ++ t) = brackets s ++ brackets t :=
  List.filter_append _ _

theorem brackets_cons {c : Char} (hopen : c ≠ '<') (hclose : c ≠ '>') (t : Text) :
    brackets (c :: t) = brackets t :=
  List.filter_cons_of_neg (by simp [hopen, hclose])

theorem brackets_outlineFrom (inside : Bool) (t : Text) :
    brackets (outlineFrom inside t) = brackets t := by
  induction t generalizing inside with
  | nil => rfl
  | cons c t ih =>
    rw [outlineFrom]
    split_ifs with hopen hclose
    · rw [hopen]
      exact congrArg ('<' :: ·) (ih _)
    · rw [hclose]
      exact congrArg ('>' :: ·) (ih _)
    · rw [brackets_cons hopen hclose, brackets_cons hopen hclose, ih]
    · rw [brackets_cons hopen hclose, ih]

/-- Texts of the same outline have the same brackets. -/
theorem brackets_eq_of_outline {s t : Text} (h : outline s = outline t) :
    brackets s = brackets t := by
  rw [← brackets_outlineFrom false s, ← brackets_outlineFrom false t]
  exact congrArg brackets h

end AssessmentItems.Outlines
