import AssessmentItems.Slots
import AssessmentItems.Proofs.Pieces
import AssessmentItems.Proofs.Readings

/-!
Placeholders in texts. A placeholder is found exactly where it is spelled. Its only `<`
begins it and its only `>` ends it, so placeholders never overlap, and the placeholders
of a text are those of its parts wherever the parts meet at the border of a tag.
-/
namespace AssessmentItems.Placeholders

open Text Scanning Slots Pieces Readings

theorem after?_eq_some {start t rest : Text} : after? start t = some rest ↔ t = start ++ rest := by
  induction start generalizing t with
  | nil => simp [after?, eq_comm]
  | cons c start ih =>
    cases t with
    | nil => simp [after?]
    | cons d t =>
      by_cases hcd : c = d
      · subst hcd
        simp [after?, ih]
      · simp [after?, hcd, Ne.symm hcd]

theorem afterFolded?_eq_some {start t rest : Text} :
    afterFolded? start t = some rest ↔ ∃ front, t = front ++ rest ∧ front.map fold = start := by
  induction start generalizing t with
  | nil => simp [afterFolded?]
  | cons c start ih =>
    cases t with
    | nil => simp [afterFolded?]
    | cons d t =>
      have hcons : (∃ front, d :: t = front ++ rest ∧ front.map fold = c :: start) ↔
          fold d = c ∧ ∃ front, t = front ++ rest ∧ front.map fold = start := by
        constructor
        · rintro ⟨front, hfront, hfold⟩
          cases front with
          | nil => simp at hfold
          | cons e front =>
            obtain ⟨rfl, rfl⟩ := List.cons.inj hfront
            obtain ⟨rfl, rfl⟩ := List.cons.inj hfold
            exact ⟨rfl, front, rfl, rfl⟩
        · rintro ⟨rfl, front, rfl, rfl⟩
          exact ⟨d :: front, rfl, rfl⟩
      rw [hcons, ← ih, afterFolded?]
      by_cases hcd : c = fold d
      · simp [hcd]
      · simp [hcd, Ne.symm hcd]

theorem afterFolded?_append {start t rest : Text} (h : afterFolded? start t = some rest)
    (b : Text) : afterFolded? start (t ++ b) = some (rest ++ b) := by
  obtain ⟨front, rfl, hfold⟩ := afterFolded?_eq_some.1 h
  exact afterFolded?_eq_some.2 ⟨front, List.append_assoc _ _ _, hfold⟩

/-- A fixed text does not reach over a character that it does not have. -/
theorem after?_append_cons {start : Text} {d : Char} (hd : d ∉ start) (s b : Text) :
    after? start (s ++ d :: b) = (after? start s).map (· ++ d :: b) := by
  induction start generalizing s with
  | nil => rfl
  | cons c start ih =>
    rw [List.mem_cons, not_or] at hd
    cases s with
    | nil => simp [after?, Ne.symm hd.1]
    | cons e s =>
      by_cases he : c = e
      · simp only [after?, List.cons_append, he, if_true]
        exact ih hd.2 s
      · simp [after?, he]

theorem afterFolded?_append_cons {start : Text} {d : Char} (hd : d ∉ start) (hfold : fold d = d)
    (s b : Text) :
    afterFolded? start (s ++ d :: b) = (afterFolded? start s).map (· ++ d :: b) := by
  induction start generalizing s with
  | nil => rfl
  | cons c start ih =>
    rw [List.mem_cons, not_or] at hd
    cases s with
    | nil => simp [afterFolded?, hfold, Ne.symm hd.1]
    | cons e s =>
      by_cases he : c = fold e
      · simp only [afterFolded?, List.cons_append, he, if_true]
        exact ih hd.2 s
      · simp [afterFolded?, he]

theorem fold_open : fold '<' = '<' := by decide

theorem fold_close : fold '>' = '>' := by decide

structure WellFormed (p : Placeholder) : Prop where
  gap_ne_nil : p.gap ≠ []
  gap : ∀ c ∈ p.gap, isSpace c = true
  valid : isValidName p.name = true
  tail : ∀ c ∈ p.tail, isSpace c = true

theorem isValidName_iff {name : Text} :
    isValidName name = true ↔ name ≠ [] ∧ ∀ c ∈ name, isNameCharacter c = true := by
  simp [isValidName]

theorem wellFormed_placeholder {name : Text} (h : isValidName name = true) :
    WellFormed ⟨[' '], name, []⟩ where
  gap_ne_nil := List.cons_ne_nil _ _
  gap := by
    intro c hc
    rw [List.mem_singleton.1 hc]
    decide
  valid := h
  tail := fun _ hc => absurd hc List.not_mem_nil

theorem spelling_eq (p : Placeholder) :
    p.spelling = "<slot" ++ (p.gap ++ ("name=\"" ++ (p.name ++ ("\"" ++ (p.tail ++ "/>"))))) := by
  unfold Placeholder.spelling
  simp only [List.append_assoc]

theorem spelling_append (p : Placeholder) (rest : Text) :
    p.spelling ++ rest =
      "<slot" ++ (p.gap ++ ("name=\"" ++ (p.name ++ ("\"" ++ (p.tail ++ ("/>" ++ rest)))))) := by
  rw [spelling_eq]
  simp only [List.append_assoc]

theorem placeholder?_sound {t : Text} {p : Placeholder} (h : placeholder? t = some p) :
    WellFormed p ∧ ∃ rest, t = p.spelling ++ rest := by
  simp only [placeholder?, Option.bind_eq_bind, Option.bind_eq_some_iff, after?_eq_some] at h
  obtain ⟨t₁, rfl, t₂, h₂, t₃, h₃, t₄, h₄, h⟩ := h
  split_ifs at h with hne
  obtain rfl := Option.some.inj h
  refine ⟨⟨hne.1, fun _ => List.mem_takeWhile_imp, ?_, fun _ => List.mem_takeWhile_imp⟩, t₄, ?_⟩
  · exact isValidName_iff.2 ⟨hne.2, fun _ => List.mem_takeWhile_imp⟩
  · have hgap := List.takeWhile_append_dropWhile (p := isSpace) (l := t₁)
    have hname := List.takeWhile_append_dropWhile (p := isNameCharacter) (l := t₂)
    have htail := List.takeWhile_append_dropWhile (p := isSpace) (l := t₃)
    rw [h₂] at hgap
    rw [h₃] at hname
    rw [h₄] at htail
    rw [spelling_append, htail, hname, hgap]

theorem placeholder?_complete {p : Placeholder} (h : WellFormed p) (rest : Text) :
    placeholder? (p.spelling ++ rest) = some p := by
  obtain ⟨gap, name, tail⟩ := p
  obtain ⟨hne, hname⟩ := isValidName_iff.1 h.valid
  let z : Text := tail ++ ("/>" ++ rest)
  let y : Text := name ++ ("\"" ++ z)
  let x : Text := gap ++ ("name=\"" ++ y)
  have hx : ∀ c ∈ (("name=\"" : Text) ++ y).head?, isSpace c = false := by
    intro c hc
    obtain rfl : 'n' = c := Option.some.inj hc
    decide
  have hy : ∀ c ∈ (("\"" : Text) ++ z).head?, isNameCharacter c = false := by
    intro c hc
    obtain rfl : '"' = c := Option.some.inj hc
    decide
  have hz : ∀ c ∈ (("/>" : Text) ++ rest).head?, isSpace c = false := by
    intro c hc
    obtain rfl : '/' = c := Option.some.inj hc
    decide
  have hopen : after? "<slot" (Placeholder.spelling ⟨gap, name, tail⟩ ++ rest) = some x :=
    after?_eq_some.2 (spelling_append _ rest)
  have hattribute : after? "name=\"" (x.dropWhile isSpace) = some y :=
    after?_eq_some.2 (dropWhile_run h.gap hx)
  have hquote : after? "\"" (y.dropWhile isNameCharacter) = some z :=
    after?_eq_some.2 (dropWhile_run hname hy)
  have hclose : after? "/>" (z.dropWhile isSpace) = some rest :=
    after?_eq_some.2 (dropWhile_run h.tail hz)
  simp only [placeholder?, Option.bind_eq_bind, hopen, hattribute, hquote, hclose,
    Option.bind_some]
  have hgapRun : x.takeWhile isSpace = gap := takeWhile_run h.gap hx
  have hnameRun : y.takeWhile isNameCharacter = name := takeWhile_run hname hy
  have htailRun : z.takeWhile isSpace = tail := takeWhile_run h.tail hz
  rw [hgapRun, hnameRun, htailRun, if_pos ⟨h.gap_ne_nil, hne⟩]

theorem placeholder?_eq_some {t : Text} {p : Placeholder} :
    placeholder? t = some p ↔ WellFormed p ∧ ∃ rest, t = p.spelling ++ rest := by
  constructor
  · exact placeholder?_sound
  · rintro ⟨hp, rest, rfl⟩
    exact placeholder?_complete hp rest

/-- Only the first character of a placeholder opens a tag, and only the last ends one. -/
theorem exists_inside {p : Placeholder} (h : WellFormed p) :
    ∃ inside : Text, p.spelling = '<' :: (inside ++ ['>']) ∧ '<' ∉ inside ∧ '>' ∉ inside := by
  have hspace : ∀ t : Text, (∀ c ∈ t, isSpace c = true) → '<' ∉ t ∧ '>' ∉ t := by
    intro t ht
    exact ⟨fun hc => absurd (ht _ hc) (by decide), fun hc => absurd (ht _ hc) (by decide)⟩
  have hname : '<' ∉ p.name ∧ '>' ∉ p.name :=
    ⟨fun hc => absurd ((isValidName_iff.1 h.valid).2 _ hc) (by decide),
      fun hc => absurd ((isValidName_iff.1 h.valid).2 _ hc) (by decide)⟩
  have hgap := hspace _ h.gap
  have htail := hspace _ h.tail
  refine ⟨"slot" ++ (p.gap ++ ("name=\"" ++ (p.name ++ ("\"" ++ (p.tail ++ "/"))))), ?_, ?_, ?_⟩
  · rw [spelling_eq]
    simp only [List.append_assoc]
    rfl
  · simp only [List.mem_append, not_or]
    exact ⟨by decide, hgap.1, by decide, hname.1, by decide, htail.1, by decide⟩
  · simp only [List.mem_append, not_or]
    exact ⟨by decide, hgap.2, by decide, hname.2, by decide, htail.2, by decide⟩

theorem head?_spelling {p : Placeholder} (h : WellFormed p) : p.spelling.head? = some '<' := by
  obtain ⟨inside, hinside, -⟩ := exists_inside h
  rw [hinside]
  rfl

theorem getLast?_spelling {p : Placeholder} (h : WellFormed p) :
    p.spelling.getLast? = some '>' := by
  obtain ⟨inside, hinside, -⟩ := exists_inside h
  rw [hinside, ← List.cons_append, List.getLast?_concat]

theorem spelled_placeholder : Spelled placeholder? Placeholder.spelling := by
  intro t p h
  obtain ⟨hp, rest, rfl⟩ := placeholder?_sound h
  refine ⟨?_, List.prefix_append _ _⟩
  intro hnil
  have hhead := head?_spelling hp
  rw [hnil] at hhead
  contradiction

/-- A placeholder is spelled within the tag that it opens. -/
theorem withinTag_placeholder? : WithinTag placeholder? where
  opens s b hne := by
    apply Option.ext
    intro p
    change placeholder? (s ++ '<' :: b) = some p ↔ placeholder? s = some p
    simp only [placeholder?_eq_some]
    refine and_congr_right fun hp => ⟨?_, ?_⟩
    · rintro ⟨rest, h⟩
      obtain ⟨inside, hinside, hopen, -⟩ := exists_inside hp
      rcases List.append_eq_append_iff.1 h with ⟨u, hu, hrest⟩ | ⟨u, hu, -⟩
      · cases u with
        | nil => exact ⟨[], by simpa using hu.symm⟩
        | cons d u =>
          obtain ⟨c, s, rfl⟩ := List.exists_cons_of_ne_nil hne
          obtain ⟨rfl, -⟩ := List.cons.inj hrest
          rw [hinside] at hu
          have hmem : '<' ∈ inside ++ ['>'] := by
            rw [(List.cons.inj hu).2]
            simp
          simp [hopen] at hmem
      · exact ⟨u, hu⟩
    · rintro ⟨rest, rfl⟩
      exact ⟨rest ++ '<' :: b, List.append_assoc _ _ _⟩
  closes s b := by
    apply Option.ext
    intro p
    simp only [placeholder?_eq_some]
    refine and_congr_right fun hp => ⟨?_, ?_⟩
    · rintro ⟨rest, h⟩
      obtain ⟨inside, hinside, -, hclose⟩ := exists_inside hp
      rcases List.append_eq_append_iff.1 h with ⟨u, hu, hrest⟩ | ⟨u, hu, -⟩
      · cases u with
        | nil => exact ⟨['>'], by simpa using hu.symm⟩
        | cons d u =>
          obtain ⟨rfl, -⟩ := List.cons.inj hrest
          refine ⟨[], ?_⟩
          cases u using List.reverseRecOn with
          | nil => rw [List.append_nil, hu]
          | append_singleton u e =>
            have hsplit : (s ++ '>' :: u) ++ [e] = ('<' :: inside) ++ ['>'] := by
              rw [List.cons_append, ← hinside, hu, List.append_assoc, List.cons_append]
            obtain ⟨hfront, -⟩ := List.append_inj' hsplit rfl
            have hmem : '>' ∈ '<' :: inside := by
              rw [← hfront]
              simp
            simp [hclose] at hmem
      · exact ⟨u ++ ['>'], by rw [hu, List.append_assoc]⟩
    · rintro ⟨rest, h⟩
      exact ⟨rest ++ b, by rw [← List.append_assoc, ← h, List.append_assoc, List.singleton_append]⟩

/-- Texts are apart, or a placeholder reaches from one into the other. -/
theorem apart_or_spans (a b : Text) :
    Apart placeholder? a b ∨ ∃ p x y, WellFormed p ∧ p.spelling = x ++ y ∧ x ≠ [] ∧ y ≠ [] ∧
      x <:+ a ∧ y <+: b := by
  by_cases hspan : ∃ p x y, WellFormed p ∧ p.spelling = x ++ y ∧ x ≠ [] ∧ y ≠ [] ∧
      x <:+ a ∧ y <+: b
  · exact Or.inr hspan
  refine Or.inl fun s hs hne => Option.ext fun p => ?_
  rw [placeholder?_eq_some, placeholder?_eq_some]
  refine and_congr_right fun hp => ⟨?_, ?_⟩
  · rintro ⟨rest, h⟩
    rcases List.append_eq_append_iff.1 h with ⟨u, hu, hb⟩ | ⟨u, hu, -⟩
    · by_cases hu' : u = []
      · subst hu'
        exact ⟨[], by simpa using hu.symm⟩
      · exact absurd ⟨p, s, u, hp, hu, hne, hu', hs, rest, hb.symm⟩ hspan
    · exact ⟨u, hu⟩
  · rintro ⟨rest, rfl⟩
    exact ⟨rest ++ b, List.append_assoc _ _ _⟩

/-- Of a placeholder that is cut in two, the first part ends no tag and the second opens none. -/
theorem cut_spelling {p : Placeholder} (hp : WellFormed p) {x y : Text}
    (h : p.spelling = x ++ y) (hx : x ≠ []) (hy : y ≠ []) :
    x.head? = some '<' ∧ '>' ∉ x ∧ y.getLast? = some '>' ∧ '<' ∉ y := by
  have hhead := head?_spelling hp
  have hlast := getLast?_spelling hp
  rw [h, List.head?_append_of_ne_nil _ hx] at hhead
  rw [h, List.getLast?_append_of_ne_nil _ hy] at hlast
  obtain ⟨inside, hinside, hopen, hclose⟩ := exists_inside hp
  obtain ⟨x, rfl⟩ := List.head?_eq_some_iff.1 hhead
  obtain ⟨y, rfl⟩ := List.getLast?_eq_some_iff.1 hlast
  rw [hinside, List.cons_append, ← List.append_assoc] at h
  obtain ⟨hxy, -⟩ := List.append_inj' (List.cons.inj h).2 rfl
  subst hxy
  refine ⟨hhead, fun hmem => hclose ?_, hlast, fun hmem => hopen ?_⟩
  · exact List.mem_append_left _ ((List.mem_cons.1 hmem).resolve_left (by decide))
  · exact List.mem_append_right _
      ((List.mem_append.1 hmem).resolve_right (by simp))

/-- A placeholder begins in no text that does not open a tag. -/
theorem apart_of_not_mem {a : Text} (ha : '<' ∉ a) (b : Text) : Apart placeholder? a b := by
  rcases apart_or_spans a b with h | ⟨p, x, y, hp, hspelling, hx, -, hxa, -⟩
  · exact h
  · have hhead := head?_spelling hp
    rw [hspelling, List.head?_append_of_ne_nil _ hx] at hhead
    exact absurd (hxa.mem (List.mem_of_mem_head? hhead)) ha

theorem segments_append {a b : Text} (h : Apart placeholder? a b) :
    segments (a ++ b) = segments a ++ segments b := pieces_append spelled_placeholder h

theorem segments_placeholder {p : Placeholder} (hp : WellFormed p) (rest : Text) :
    segments (p.spelling ++ rest) = .occurrence p :: segments rest := by
  have hread := placeholder?_complete hp rest
  exact pieces_of_recognise _ _ _ _ (spelled_placeholder _ _ hread).1 hread

/-- A placeholder is found wherever it is spelled. -/
theorem mem_occurrences_segments {t : Text} {p : Placeholder} :
    p ∈ occurrences (segments t) ↔ WellFormed p ∧ p.spelling <:+: t := by
  constructor
  · intro hmem
    obtain ⟨s, -, hread⟩ := exists_recognise spelled_placeholder hmem
    refine ⟨(placeholder?_sound hread).1, ?_⟩
    have hpart : p.spelling <:+: written Placeholder.spelling (segments t) := part_written hmem
    rwa [segments, written_pieces spelled_placeholder] at hpart
  · rintro ⟨hp, a, b, rfl⟩
    have hapart : Apart placeholder? a (p.spelling ++ b) :=
      withinTag_placeholder?.apart_open a (head?_append_left (head?_spelling hp) b)
    rw [List.append_assoc, segments_append hapart, segments_placeholder hp]
    simp

theorem mem_referenced {t name : Text} :
    name ∈ referenced t ↔ ∃ p ∈ occurrences (segments t), p.name = name := by
  rw [referenced, mem_ascending, List.mem_map]

theorem referenced_append {a b name : Text} (h : Apart placeholder? a b) :
    name ∈ referenced (a ++ b) ↔ name ∈ referenced a ∨ name ∈ referenced b := by
  simp only [mem_referenced, segments_append h, occurrences_append, List.mem_append, or_and_right,
    exists_or]

theorem mem_referenced_of_part {t u name : Text} (hpart : t <:+: u)
    (h : name ∈ referenced t) : name ∈ referenced u := by
  obtain ⟨p, hp, hname⟩ := mem_referenced.1 h
  obtain ⟨hwell, hspelling⟩ := mem_occurrences_segments.1 hp
  exact mem_referenced.2 ⟨p, mem_occurrences_segments.2 ⟨hwell, hspelling.trans hpart⟩, hname⟩

/-- What opens no tag, or ends none, has no placeholders. -/
theorem referenced_eq_nil {t : Text} (h : '<' ∉ t ∨ '>' ∉ t) : referenced t = [] := by
  apply List.eq_nil_iff_forall_not_mem.2
  intro name hname
  obtain ⟨p, hp, -⟩ := mem_referenced.1 hname
  obtain ⟨hwell, hpart⟩ := mem_occurrences_segments.1 hp
  rcases h with hopen | hclose
  · exact hopen (hpart.mem (List.mem_of_mem_head? (head?_spelling hwell)))
  · exact hclose (hpart.mem (List.mem_of_getLast? (getLast?_spelling hwell)))

end AssessmentItems.Placeholders
