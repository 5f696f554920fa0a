import AssessmentItems.ContentRules
import AssessmentItems.Proofs.Tags

/-!
What the rules on markup look at. A rule that searches for a construct at each place of a
text stays inside the tag where it began to read, whatever opens or follows after it. So it
can be applied to the parts of a text on their own where the parts meet at the border of a
tag. Placeholders are no such construct.
-/
namespace AssessmentItems.RuleBounds

open Text TextClasses Scanning ContentRules Slots Pieces Placeholders Tags

variable {β : Type}

theorem bounded_after {start : Text} (hopen : '<' ∉ start) (hclose : '>' ∉ start) {k : Text → β}
    (hk : Bounded k) (b : β) : Bounded fun t => (after? start t).elim b k where
  opens s rest := by
    rw [after?_append_cons hopen]
    cases after? start s with
    | none => rfl
    | some t => exact hk.opens t rest
  closes s rest := by
    rw [after?_append_cons hclose, after?_append_cons hclose]
    cases after? start s with
    | none => rfl
    | some t => exact hk.closes t rest

theorem bounded_afterFolded {start : Text} (hopen : '<' ∉ start) (hclose : '>' ∉ start)
    {k : Text → β} (hk : Bounded k) (b : β) :
    Bounded fun t => (afterFolded? start t).elim b k where
  opens s rest := by
    rw [afterFolded?_append_cons hopen fold_open]
    cases afterFolded? start s with
    | none => rfl
    | some t => exact hk.opens t rest
  closes s rest := by
    rw [afterFolded?_append_cons hclose fold_close, afterFolded?_append_cons hclose fold_close]
    cases afterFolded? start s with
    | none => rfl
    | some t => exact hk.closes t rest

theorem bounded_endsWord : Bounded endsWord where
  opens s rest := by
    cases s with
    | nil => exact (by decide : (!isWord '<') = true)
    | cons c s => rfl
  closes s rest := by cases s <;> rfl

theorem bounded_endsTagName : Bounded endsTagName where
  opens s rest := by
    cases s with
    | nil => exact (by decide : (isSpace '<' || '<' = '/' || '<' = '>') = false)
    | cons c s => rfl
  closes s rest := by cases s <;> rfl

theorem elim_true (o : Option Text) : o.elim false (fun _ => true) = o.isSome := by
  cases o <;> rfl

theorem elim_any (o : Option Text) (p : Text → Bool) : o.elim false p = o.any p := by
  cases o <;> rfl

theorem bounded_isSome_after {start : Text} (hopen : '<' ∉ start) (hclose : '>' ∉ start) :
    Bounded fun t => (after? start t).isSome := by
  simp only [← elim_true]
  exact bounded_after hopen hclose (bounded_const true) false

theorem bounded_isSome_afterFolded {start : Text} (hopen : '<' ∉ start) (hclose : '>' ∉ start) :
    Bounded fun t => (afterFolded? start t).isSome := by
  simp only [← elim_true]
  exact bounded_afterFolded hopen hclose (bounded_const true) false

/-- A reading of what follows the name of a tag. -/
theorem withinTag_afterFolded {start name : Text} (hstart : start = '<' :: name)
    (hopen : '<' ∉ name) (hclose : '>' ∉ name) {k : Text → β} (hk : Bounded k) (b : β) :
    WithinTag fun t => (afterFolded? start t).elim b k := by
  subst hstart
  refine withinTag_of_head (p := ('<' = fold ·)) (b := b)
    (bounded_afterFolded hopen hclose hk b) (by decide) fun c t => ?_
  by_cases hc : '<' = fold c
  · simp only [afterFolded?, if_pos hc]
  · simp only [afterFolded?, if_neg hc, Option.elim_none]

theorem withinTag_isLegacyRemnant : WithinTag isLegacyRemnant :=
  ((bounded_isSome_after (by decide) (by decide)).or
    (bounded_isSome_after (by decide) (by decide))).withinTag

theorem withinTag_opensTag {names : List Text} {ends : Text → Bool} (hends : Bounded ends)
    (hnames : ∀ name ∈ names, '<' ∉ name ∧ '>' ∉ name) : WithinTag (opensTag names ends) := by
  have hany : Bounded fun t => names.any fun name => (afterFolded? name t).any ends := by
    induction names with
    | nil => exact bounded_const false
    | cons name names ih =>
      rw [List.forall_mem_cons] at hnames
      simp only [List.any_cons, ← elim_any]
      exact (bounded_afterFolded hnames.1.1 hnames.1.2 hends false).or (by
        simpa only [elim_any] using ih hnames.2)
  refine withinTag_of_head (p := (· = '<')) (b := false) hany (by decide) fun c t => ?_
  by_cases hc : c = '<'
  · subst hc
    rfl
  · rw [if_neg hc, opensTag]
    rintro _ ⟨⟩
    exact hc rfl

theorem withinTag_isBannedMath : WithinTag isBannedMath :=
  withinTag_opensTag bounded_endsWord (by decide)

theorem withinTag_isBlockTag : WithinTag isBlockTag :=
  withinTag_opensTag bounded_endsTagName (by decide)

theorem withinTag_isMathTag : WithinTag isMathTag :=
  withinTag_opensTag bounded_endsTagName (by decide)

theorem withinTag_isClipboardComment : WithinTag isClipboardComment := by
  let k : Text → Bool := fun t => (after? "!--" t).elim false fun t =>
    (afterFolded? "startfragment" (t.dropWhile isSpace)).isSome ||
      (afterFolded? "endfragment" (t.dropWhile isSpace)).isSome
  have hk : Bounded k := bounded_after (by decide) (by decide)
    ((bounded_isSome_afterFolded (by decide) (by decide)).or
      (bounded_isSome_afterFolded (by decide) (by decide))).dropSpace false
  refine withinTag_of_head (p := ('<' = ·)) (b := false) hk (by decide) fun c t => ?_
  have hstart : after? "<!--" (c :: t) = if '<' = c then after? "!--" t else none := rfl
  rw [isClipboardComment, hstart]
  by_cases hc : '<' = c
  · simp only [hc, if_true, k]
    cases after? "!--" t <;> rfl
  · simp only [hc, if_false]

def startsMso : Text → Bool
  | '"' :: t => (afterFolded? "mso" t).isSome
  | t => (afterFolded? "mso" t).isSome

theorem bounded_startsMso : Bounded startsMso := by
  have hmso : Bounded fun t => (afterFolded? "mso" t).isSome :=
    bounded_isSome_afterFolded (by decide) (by decide)
  have hplain : ∀ c t, c ≠ '"' → startsMso (c :: t) = (afterFolded? "mso" (c :: t)).isSome := by
    intro c t hc
    unfold startsMso
    split
    · next heq => exact absurd (List.cons.inj heq).1 hc
    · rfl
  constructor
  · intro s rest
    cases s with
    | nil => rfl
    | cons c s =>
      by_cases hc : c = '"'
      · subst hc
        exact hmso.opens s rest
      · rw [List.cons_append, hplain c _ hc, hplain c _ hc]
        exact hmso.opens (c :: s) rest
  · intro s rest
    cases s with
    | nil => rfl
    | cons c s =>
      by_cases hc : c = '"'
      · subst hc
        exact hmso.closes s rest
      · rw [List.cons_append, List.cons_append, hplain c _ hc, hplain c _ hc]
        exact hmso.closes (c :: s) rest

theorem isWordClass_eq (t : Text) :
    isWordClass t = (afterFolded? "class" t).elim false fun t =>
      (after? "=" (t.dropWhile isSpace)).elim false fun t => startsMso (t.dropWhile isSpace) := by
  unfold isWordClass
  cases afterFolded? "class" t with
  | none => rfl
  | some t =>
    simp only [Option.bind_some, Option.elim_some]
    cases after? "=" (t.dropWhile isSpace) <;> rfl

theorem withinTag_isWordClass : WithinTag isWordClass := by
  have hvalue : Bounded fun t => (after? "=" t).elim false fun t =>
      startsMso (t.dropWhile isSpace) :=
    bounded_after (by decide) (by decide) bounded_startsMso.dropSpace false
  have hbounded : Bounded isWordClass := by
    rw [funext isWordClass_eq]
    exact bounded_afterFolded (by decide) (by decide) hvalue.dropSpace false
  exact hbounded.withinTag

theorem withinTag_isAuthoringArtifact : WithinTag isAuthoringArtifact := by
  unfold isAuthoringArtifact
  simp only [← elim_any]
  exact ((withinTag_isClipboardComment.or withinTag_isWordClass).or
    (withinTag_afterFolded rfl (by decide) (by decide) bounded_endsWord false)).or
    (withinTag_afterFolded rfl (by decide) (by decide) (bounded_endsWord.map (! ·)) false)

theorem bounded_interactionKind? : Bounded interactionKind? := by
  have hend : Bounded fun t => (afterFolded? "-interaction" t).any endsWord := by
    simp only [← elim_any]
    exact bounded_afterFolded (by decide) (by decide) bounded_endsWord false
  constructor
  · intro s rest
    induction s with
    | nil => exact if_neg (by decide)
    | cons c s ih => simp only [List.cons_append, interactionKind?, ih, hend.opens]
  · intro s rest
    induction s with
    | nil => exact (if_neg (by decide)).trans (if_neg (by decide)).symm
    | cons c s ih => simp only [List.cons_append, interactionKind?, ih, hend.closes s rest]

theorem withinTag_isOtherInteraction : WithinTag isOtherInteraction := by
  have hkind : Bounded fun t =>
      (interactionKind? t).any fun kind : Text => kind ≠ "inline-choice" :=
    bounded_interactionKind?.map _
  have hread : ∀ t, isOtherInteraction t = (afterFolded? "<qti-" t).elim false fun t =>
      (interactionKind? t).any fun kind : Text => kind ≠ "inline-choice" := by
    intro t
    unfold isOtherInteraction
    cases afterFolded? "<qti-" t with
    | none => rfl
    | some t =>
      simp only [Option.bind_some, Option.elim_some]
      cases interactionKind? t <;> rfl
  rw [funext hread]
  exact withinTag_afterFolded rfl (by decide) (by decide) hkind false

def construct? : Rule → Option (Text → Bool)
  | .legacyRemnant => some isLegacyRemnant
  | .disallowedMath => some isBannedMath
  | .authoringArtifact => some isAuthoringArtifact
  | .blockElement => some isBlockTag
  | .inlineMath => some isMathTag
  | .nestedInteraction => some isOtherInteraction
  | .imageMissingAlt | .blockRoot => none

section

variable {rule : Rule} {occurs : Text → Bool}

theorem find?_eq_none (h : construct? rule = some occurs) (t : Text) :
    rule.find? t = none ↔ Nowhere occurs t := by
  cases rule <;> simp only [construct?, Option.some.injEq, reduceCtorEq] at h <;> subst h <;>
    exact locate_eq_none

theorem withinTag_construct (h : construct? rule = some occurs) : WithinTag occurs := by
  cases rule <;> simp only [construct?, Option.some.injEq, reduceCtorEq] at h <;> subst h
  · exact withinTag_isLegacyRemnant
  · exact withinTag_isBannedMath
  · exact withinTag_isAuthoringArtifact
  · exact withinTag_isBlockTag
  · exact withinTag_isMathTag
  · exact withinTag_isOtherInteraction

end

def BeginsTag (occurs : Text → Bool) : Prop := ∀ c t, occurs (c :: t) = true → c = '<'

theorem BeginsTag.nowhere {occurs : Text → Bool} (h : BeginsTag occurs) {t : Text} (ht : '<' ∉ t) :
    Nowhere occurs t := by
  intro s hs hne
  by_contra hoccurs
  obtain ⟨c, s, rfl⟩ := List.exists_cons_of_ne_nil hne
  obtain rfl := h c s (by simpa using hoccurs)
  exact ht (hs.mem List.mem_cons_self)

theorem fold_eq_open {c : Char} (h : fold c = '<') : c = '<' := by
  unfold fold at h
  split_ifs at h with hletter hs hk
  · have hall : ∀ n ∈ List.range' 65 26, Char.ofNat (n + 32) ≠ '<' := by decide
    simp only [Char.le_def, UInt32.le_iff_toNat_le] at hletter
    exact absurd h (hall c.toNat (List.mem_range'_1.2 ⟨hletter.1, Nat.lt_succ_of_le hletter.2⟩))
  · exact absurd h (by decide)
  · exact absurd h (by decide)
  · exact h

theorem beginsTag_opensTag (names : List Text) (ends : Text → Bool) :
    BeginsTag (opensTag names ends) := by
  intro c t h
  unfold opensTag at h
  split at h
  · next heq => exact (List.cons.inj heq).1
  · contradiction

theorem eq_open_of_afterFolded? {name t rest : Text} {c : Char}
    (h : afterFolded? ('<' :: name) (c :: t) = some rest) : c = '<' := by
  simp only [afterFolded?] at h
  split_ifs at h with hc
  exact fold_eq_open hc.symm

theorem beginsTag_afterFolded {start name : Text} (hstart : start = '<' :: name)
    (k : Text → Bool) : BeginsTag fun t => (afterFolded? start t).any k := by
  subst hstart
  intro c t h
  cases hafter : afterFolded? ('<' :: name) (c :: t) with
  | none => simp [hafter] at h
  | some rest => exact eq_open_of_afterFolded? hafter

theorem beginsTag_isClipboardComment : BeginsTag isClipboardComment := by
  intro c t h
  unfold isClipboardComment at h
  split at h
  · contradiction
  · next hafter => exact (List.cons.inj (after?_eq_some.1 hafter)).1

theorem beginsTag_isOtherInteraction : BeginsTag isOtherInteraction := by
  intro c t h
  unfold isOtherInteraction at h
  split at h
  · next hkind =>
    obtain ⟨rest, hafter, -⟩ := Option.bind_eq_some_iff.1 hkind
    exact eq_open_of_afterFolded? hafter
  · contradiction

theorem head_spelling (p : Placeholder) : ∃ rest, p.spelling = '<' :: 's' :: rest :=
  ⟨_, spelling_eq p⟩

/-- A construct that begins with a tag of another name does not occur in a placeholder. -/
theorem BeginsTag.nowhere_spelling {occurs : Text → Bool} (h : BeginsTag occurs)
    (hslot : ∀ t, occurs ('<' :: 's' :: t) = false) {p : Placeholder} (hp : WellFormed p) :
    Nowhere occurs p.spelling := by
  obtain ⟨rest, hrest⟩ := head_spelling p
  obtain ⟨inside, hinside, hopen, -⟩ := exists_inside hp
  have htail : 's' :: rest = inside ++ ['>'] := (List.cons.inj (hrest.symm.trans hinside)).2
  rw [hrest, nowhere_cons]
  refine ⟨hslot rest, h.nowhere ?_⟩
  rw [htail]
  simpa using hopen

theorem mem_spelling {p : Placeholder} (hp : WellFormed p) {c : Char} (hc : c ∈ p.spelling) :
    isSpace c = true ∨ isNameCharacter c = true ∨ c ∈ ("<=\"/>" : Text) := by
  rw [spelling_eq] at hc
  simp only [List.mem_append] at hc
  have hslot : ∀ c ∈ ("<slot" : Text), isNameCharacter c = true ∨ c ∈ ("<=\"/>" : Text) :=
    forall_mem_of_all (by decide +kernel)
  have hname : ∀ c ∈ ("name=\"" : Text), isNameCharacter c = true ∨ c ∈ ("<=\"/>" : Text) :=
    forall_mem_of_all (by decide +kernel)
  have hquote : ∀ c ∈ ("\"" : Text), c ∈ ("<=\"/>" : Text) := forall_mem_of_all (by decide +kernel)
  have hend : ∀ c ∈ ("/>" : Text), c ∈ ("<=\"/>" : Text) := forall_mem_of_all (by decide +kernel)
  rcases hc with hc | hc | hc | hc | hc | hc | hc
  · exact Or.inr (hslot c hc)
  · exact Or.inl (hp.gap c hc)
  · exact Or.inr (hname c hc)
  · exact Or.inr (Or.inl ((isValidName_iff.1 hp.valid).2 c hc))
  · exact Or.inr (Or.inr (hquote c hc))
  · exact Or.inl (hp.tail c hc)
  · exact Or.inr (Or.inr (hend c hc))

/-- A fixed text does not stand in a placeholder that lacks one of its characters. -/
theorem nowhere_after_spelling {start : Text} {c : Char} (hc : c ∈ start) {p : Placeholder}
    (hp : WellFormed p)
    (hnot : ¬ (isSpace c = true ∨ isNameCharacter c = true ∨ c ∈ ("<=\"/>" : Text))) :
    Nowhere (fun t => (after? start t).isSome) p.spelling := by
  intro s hs hne
  cases hafter : after? start s with
  | none => simp [hafter]
  | some rest =>
    have hmem : c ∈ s := by
      rw [after?_eq_some.1 hafter]
      exact List.mem_append_left _ hc
    exact absurd (mem_spelling hp (hs.mem hmem)) hnot

/-- Before the equals sign of a class attribute stands white space or an s. -/
theorem isWordClass_spec {t : Text} (h : isWordClass t = true) :
    ∃ before rest c, t = before ++ c :: '=' :: rest ∧ (isSpace c = true ∨ fold c = 's') := by
  rw [isWordClass_eq] at h
  cases hclass : afterFolded? "class" t with
  | none =>
    rw [hclass] at h
    contradiction
  | some t₁ =>
    rw [hclass, Option.elim_some] at h
    cases hequals : after? "=" (t₁.dropWhile isSpace) with
    | none =>
      rw [hequals] at h
      contradiction
    | some t₂ =>
      obtain ⟨front, rfl, hfold⟩ := afterFolded?_eq_some.1 hclass
      obtain ⟨gap, hgap, ht₁⟩ := exists_dropWhile t₁
      rw [after?_eq_some.1 hequals] at ht₁
      rw [ht₁]
      rcases List.eq_nil_or_concat gap with rfl | ⟨gap, c, rfl⟩
      · rcases List.eq_nil_or_concat front with rfl | ⟨front, c, rfl⟩
        · simp at hfold
        · refine ⟨front, t₂, c, by simp, Or.inr ?_⟩
          have hlast := congrArg List.getLast? hfold
          rw [List.concat_eq_append, List.map_append, List.map_singleton, List.getLast?_concat]
            at hlast
          exact Option.some.inj hlast
      · exact ⟨front ++ gap, t₂, c, by simp, Or.inl (hgap c (by simp))⟩

theorem nowhere_isWordClass_spelling {p : Placeholder} (hp : WellFormed p) :
    Nowhere isWordClass p.spelling := by
  intro s hs hne
  by_contra h
  obtain ⟨before, rest, c, rfl, hc⟩ := isWordClass_spec (by simpa using h)
  obtain ⟨front, hfront⟩ := hs
  let start : Text := "<slot" ++ (p.gap ++ "nam")
  let value : Text := "\"" ++ (p.name ++ ("\"" ++ (p.tail ++ "/>")))
  have hspelling : p.spelling = (start ++ ['e']) ++ '=' :: value := by
    rw [spelling_eq]
    simp only [start, value, List.append_assoc]
    rfl
  have hspace : ∀ t : Text, (∀ c ∈ t, isSpace c = true) → '=' ∉ t :=
    fun t ht hmem => absurd (ht _ hmem) (by decide)
  have hname : '=' ∉ p.name :=
    fun hmem => absurd ((isValidName_iff.1 hp.valid).2 _ hmem) (by decide)
  have hstart : '=' ∉ start ++ ['e'] := by
    simp only [start, List.mem_append, not_or]
    exact ⟨⟨by decide, hspace _ hp.gap, by decide⟩, by decide⟩
  have hvalue : '=' ∉ value := by
    simp only [value, List.mem_append, not_or]
    exact ⟨by decide, hname, by decide, hspace _ hp.tail, by decide⟩
  have hsplit : (start ++ ['e']) ++ '=' :: value = (front ++ before ++ [c]) ++ '=' :: rest := by
    rw [← hspelling, ← hfront]
    simp
  obtain ⟨heq, -⟩ := (List.append_cons_inj_of_notMem hstart hvalue).1 hsplit
  obtain ⟨-, hlast⟩ := List.append_inj' heq rfl
  obtain rfl := (List.cons.inj hlast).1
  revert hc
  decide

theorem nowhere_construct_spelling {rule : Rule} {occurs : Text → Bool}
    (h : construct? rule = some occurs) {p : Placeholder} (hp : WellFormed p) :
    Nowhere occurs p.spelling := by
  cases rule <;> simp only [construct?, Option.some.injEq, reduceCtorEq] at h <;> subst h
  · exact nowhere_or (nowhere_after_spelling (c := '[') (by decide) hp (by decide))
      (nowhere_after_spelling (c := ':') (by decide) hp (by decide))
  · exact (beginsTag_opensTag _ _).nowhere_spelling (fun _ => rfl) hp
  · refine nowhere_or (nowhere_or (nowhere_or ?_ ?_) ?_) ?_
    · exact beginsTag_isClipboardComment.nowhere_spelling (fun _ => rfl) hp
    · exact nowhere_isWordClass_spelling hp
    · exact (beginsTag_afterFolded rfl _).nowhere_spelling (fun _ => rfl) hp
    · exact (beginsTag_afterFolded rfl _).nowhere_spelling (fun _ => rfl) hp
  · exact (beginsTag_opensTag _ _).nowhere_spelling (fun _ => rfl) hp
  · exact (beginsTag_opensTag _ _).nowhere_spelling (fun _ => rfl) hp
  · exact beginsTag_isOtherInteraction.nowhere_spelling (fun _ => rfl) hp

end AssessmentItems.RuleBounds
