import AssessmentItems.Proofs.OuterTags

/-!
The constructs that the rules on markup search for, described by their spelling alone: words in
any case, gaps of white space, and what may follow the last of their characters. Each recogniser
answers exactly where its construct stands at the front of a text.
-/
namespace AssessmentItems.Constructs

open Text Scanning ContentRules Placeholders TextClasses Readings Tags RuleBounds OuterTags

variable {t : Text}

def Spells (word s : Text) : Prop := s.map fold = word

def WordEnds (t : Text) : Prop := ∀ c ∈ t.head?, isWord c = false

def NameEnds (t : Text) : Prop := ∃ c ∈ t.head?, isSpace c = true ∨ c = '/' ∨ c = '>'

theorem endsWord_iff : endsWord t = true ↔ WordEnds t := by
  cases t <;> simp [endsWord, WordEnds]

theorem endsTagName_iff : endsTagName t = true ↔ NameEnds t := by
  cases t <;> simp [endsTagName, NameEnds, or_assoc]

/-- White space has no case. -/
theorem fold_of_isSpace {c : Char} (h : isSpace c = true) : fold c = c := by
  unfold fold
  split_ifs with hletter hs hk
  · have hplain : isPlainLetter c = true := by simp [isPlainLetter, hletter]
    rw [isSpace_of_isPlainLetter hplain] at h
    contradiction
  · subst hs
    exact absurd h (by decide)
  · subst hk
    exact absurd h (by decide)
  · rfl

theorem not_isSpace_of_fold {c : Char} (h : isSpace (fold c) = false) : isSpace c = false := by
  by_contra hnot
  have hc : isSpace c = true := by simpa using hnot
  rw [fold_of_isSpace hc, hc] at h
  contradiction

theorem Spells.not_mem {word s : Text} {c : Char} (h : Spells word s) (hc : fold c ∉ word) :
    c ∉ s := by
  intro hmem
  rw [← h] at hc
  exact hc (List.mem_map_of_mem hmem)

theorem Spells.exists_open {name s : Text} (h : Spells ('<' :: name) s) :
    ∃ s', s = '<' :: s' ∧ Spells name s' := by
  cases s with
  | nil => cases h
  | cons c s =>
    obtain ⟨hc, hs⟩ := List.cons.inj h
    exact ⟨s, by rw [fold_eq_open hc], hs⟩

theorem Spells.not_isSpace {word s : Text} (h : Spells word s)
    (hword : ∀ c ∈ word, isSpace c = false) : ∀ c ∈ s, isSpace c = false := by
  intro c hc
  refine not_isSpace_of_fold (hword _ ?_)
  rw [← h]
  exact List.mem_map_of_mem hc

/-- A word without white space is not spelled with any at its front. -/
theorem Spells.head {word s : Text} (h : Spells word s) (hne : word ≠ [])
    (hword : ∀ c ∈ word, isSpace c = false) (rest : Text) :
    ∀ c ∈ (s ++ rest).head?, isSpace c = false := by
  cases s with
  | nil => exact absurd h.symm hne
  | cons c s =>
    rintro _ ⟨⟩
    exact h.not_isSpace hword c List.mem_cons_self

theorem dropWhile_gap {gap rest : Text} (hgap : ∀ c ∈ gap, isSpace c = true)
    (hrest : ∀ c ∈ rest.head?, isSpace c = false) : (gap ++ rest).dropWhile isSpace = rest :=
  dropWhile_run hgap hrest

/-- A word behind a gap. -/
theorem afterFolded?_gap {word rest : Text} (hne : word ≠ [])
    (hword : ∀ c ∈ word, isSpace c = false) :
    afterFolded? word (t.dropWhile isSpace) = some rest ↔
      ∃ gap s, t = gap ++ (s ++ rest) ∧ (∀ c ∈ gap, isSpace c = true) ∧ Spells word s := by
  rw [afterFolded?_eq_some]
  constructor
  · rintro ⟨s, hs, hspells⟩
    obtain ⟨gap, hgap, ht⟩ := exists_dropWhile t
    exact ⟨gap, s, hs ▸ ht, hgap, hspells⟩
  · rintro ⟨gap, s, rfl, hgap, hspells⟩
    exact ⟨s, dropWhile_gap hgap (hspells.head hne hword rest), hspells⟩

/-- An equals sign behind a gap. -/
theorem after?_equals {rest : Text} :
    after? "=" (t.dropWhile isSpace) = some rest ↔
      ∃ gap, t = gap ++ '=' :: rest ∧ ∀ c ∈ gap, isSpace c = true := by
  rw [after?_eq_some]
  constructor
  · intro h
    obtain ⟨gap, hgap, ht⟩ := exists_dropWhile t
    rw [h] at ht
    exact ⟨gap, ht, hgap⟩
  · rintro ⟨gap, rfl, hgap⟩
    refine dropWhile_gap hgap ?_
    rintro c ⟨⟩
    decide

theorem any_afterFolded? {word : Text} {ends : Text → Bool} :
    (afterFolded? word t).any ends = true ↔
      ∃ s rest, t = s ++ rest ∧ Spells word s ∧ ends rest = true := by
  rw [Option.any_eq_true]
  constructor
  · rintro ⟨rest, hrest, hends⟩
    obtain ⟨s, hs, hspells⟩ := afterFolded?_eq_some.1 hrest
    exact ⟨s, rest, hs, hspells, hends⟩
  · rintro ⟨s, rest, hs, hspells, hends⟩
    exact ⟨rest, afterFolded?_eq_some.2 ⟨s, hs, hspells⟩, hends⟩

def LegacyRemnant (t : Text) : Prop := ("[[☃" : Text) <+: t ∨ ("web+graphie:" : Text) <+: t

theorem isSome_after? {start : Text} : (after? start t).isSome = true ↔ start <+: t := by
  rw [Option.isSome_iff_exists]
  simp only [after?_eq_some]
  exact exists_congr fun _ => eq_comm

theorem isLegacyRemnant_iff : isLegacyRemnant t = true ↔ LegacyRemnant t := by
  rw [isLegacyRemnant, Bool.or_eq_true, isSome_after?, isSome_after?, LegacyRemnant]

def ClipboardComment (t : Text) : Prop :=
  ∃ gap s rest, t = ("<!--" : Text) ++ (gap ++ (s ++ rest)) ∧ (∀ c ∈ gap, isSpace c = true) ∧
    (Spells "startfragment" s ∨ Spells "endfragment" s)

theorem isClipboardComment_iff : isClipboardComment t = true ↔ ClipboardComment t := by
  have hword : ∀ word : Text, word ≠ [] → (∀ c ∈ word, isSpace c = false) → ∀ u : Text,
      (afterFolded? word (u.dropWhile isSpace)).isSome = true ↔
        ∃ gap s rest, u = gap ++ (s ++ rest) ∧ (∀ c ∈ gap, isSpace c = true) ∧ Spells word s := by
    intro word hne hhead u
    rw [Option.isSome_iff_exists]
    simp only [afterFolded?_gap hne hhead]
    constructor
    · rintro ⟨rest, gap, s, h⟩
      exact ⟨gap, s, rest, h⟩
    · rintro ⟨gap, s, rest, h⟩
      exact ⟨rest, gap, s, h⟩
  have hstart := hword "startfragment" (by decide) (forall_mem_of_all (by decide))
  have hend := hword "endfragment" (by decide) (forall_mem_of_all (by decide))
  unfold isClipboardComment ClipboardComment
  split
  · next hnone =>
    refine iff_of_false Bool.false_ne_true ?_
    rintro ⟨gap, s, rest, rfl, -⟩
    rw [after?_eq_some.2 rfl] at hnone
    contradiction
  · next u hu =>
    rw [after?_eq_some] at hu
    subst hu
    rw [Bool.or_eq_true, hstart, hend]
    constructor
    · rintro (⟨gap, s, rest, rfl, hgap, hs⟩ | ⟨gap, s, rest, rfl, hgap, hs⟩)
      · exact ⟨gap, s, rest, rfl, hgap, .inl hs⟩
      · exact ⟨gap, s, rest, rfl, hgap, .inr hs⟩
    · rintro ⟨gap, s, rest, heq, hgap, hs⟩
      have hu := List.append_cancel_left heq
      exact hs.imp (fun hs => ⟨gap, s, rest, hu, hgap, hs⟩) fun hs => ⟨gap, s, rest, hu, hgap, hs⟩

/-- A class attribute whose value begins with `Mso`, with or without a quote before it. -/
def WordClass (t : Text) : Prop :=
  ∃ word gap gap' quote s rest,
    t = word ++ (gap ++ '=' :: (gap' ++ (quote ++ (s ++ rest)))) ∧ Spells "class" word ∧
      (∀ c ∈ gap, isSpace c = true) ∧ (∀ c ∈ gap', isSpace c = true) ∧
        (quote = [] ∨ quote = ['"']) ∧ Spells "mso" s

theorem startsMso_iff : startsMso t = true ↔
    ∃ quote s rest, t = quote ++ (s ++ rest) ∧ (quote = [] ∨ quote = ['"']) ∧ Spells "mso" s := by
  have hmso : ∀ u : Text, (afterFolded? "mso" u).isSome = true ↔
      ∃ s rest, u = s ++ rest ∧ Spells "mso" s := by
    intro u
    rw [Option.isSome_iff_exists]
    simp only [afterFolded?_eq_some]
    exact exists_comm
  unfold startsMso
  split
  · next t =>
    rw [hmso]
    constructor
    · rintro ⟨s, rest, rfl, hs⟩
      exact ⟨['"'], s, rest, rfl, .inr rfl, hs⟩
    · rintro ⟨quote, s, rest, heq, rfl | rfl, hs⟩
      · cases s with
        | nil => cases hs
        | cons c s =>
          obtain ⟨rfl, -⟩ := List.cons.inj heq
          exact absurd (List.cons.inj hs).1 (by decide)
      · exact ⟨s, rest, (List.cons.inj heq).2, hs⟩
  · next hplain =>
    rw [hmso]
    constructor
    · rintro ⟨s, rest, rfl, hs⟩
      exact ⟨[], s, rest, rfl, .inl rfl, hs⟩
    · rintro ⟨quote, s, rest, heq, rfl | rfl, hs⟩
      · exact ⟨s, rest, heq, hs⟩
      · exact absurd heq (hplain _)

theorem isWordClass_iff : isWordClass t = true ↔ WordClass t := by
  rw [isWordClass_eq, elim_any, any_afterFolded?]
  have hhead : ∀ quote s rest : Text, (quote = [] ∨ quote = ['"']) → Spells "mso" s →
      ∀ c ∈ (quote ++ (s ++ rest)).head?, isSpace c = false := by
    rintro quote s rest (rfl | rfl) hs
    · exact hs.head (by decide) (forall_mem_of_all (by decide)) rest
    · rintro c ⟨⟩
      decide
  constructor
  · rintro ⟨word, u, rfl, hword, hvalue⟩
    rw [elim_any, Option.any_eq_true] at hvalue
    obtain ⟨value, hequals, hmso⟩ := hvalue
    obtain ⟨gap, rfl, hgap⟩ := after?_equals.1 hequals
    obtain ⟨gap', hgap', hdrop⟩ := exists_dropWhile value
    obtain ⟨quote, s, rest, hquoted, hquote, hs⟩ := startsMso_iff.1 hmso
    rw [hquoted] at hdrop
    exact ⟨word, gap, gap', quote, s, rest, by rw [hdrop], hword, hgap, hgap', hquote, hs⟩
  · rintro ⟨word, gap, gap', quote, s, rest, rfl, hword, hgap, hgap', hquote, hs⟩
    refine ⟨word, _, rfl, hword, ?_⟩
    rw [elim_any, Option.any_eq_true]
    refine ⟨_, after?_equals.2 ⟨gap, rfl, hgap⟩, ?_⟩
    rw [dropWhile_gap hgap' (hhead quote s rest hquote hs)]
    exact startsMso_iff.2 ⟨quote, s, rest, rfl, hquote, hs⟩

def OfficeTag (t : Text) : Prop :=
  (∃ s rest, t = s ++ rest ∧ Spells "<o:p" s ∧ WordEnds rest) ∨
    ∃ s rest, t = s ++ rest ∧ Spells "<w:" s ∧ ¬ WordEnds rest

def AuthoringArtifact (t : Text) : Prop := ClipboardComment t ∨ WordClass t ∨ OfficeTag t

theorem isAuthoringArtifact_iff : isAuthoringArtifact t = true ↔ AuthoringArtifact t := by
  have hnot : ∀ u : Text, (!endsWord u) = true ↔ ¬ WordEnds u := by
    intro u
    rw [← endsWord_iff, Bool.not_eq_true', Bool.not_eq_true]
  simp only [isAuthoringArtifact, Bool.or_eq_true, isClipboardComment_iff, isWordClass_iff,
    any_afterFolded?, hnot, endsWord_iff, AuthoringArtifact, OfficeTag, or_assoc]

def OpensTag (names : List Text) (ends : Text → Prop) (t : Text) : Prop :=
  ∃ name ∈ names, ∃ s rest, t = '<' :: (s ++ rest) ∧ Spells name s ∧ ends rest

theorem opensTag_iff {names : List Text} {ends : Text → Bool} {Ends : Text → Prop}
    (h : ∀ u, ends u = true ↔ Ends u) : opensTag names ends t = true ↔ OpensTag names Ends t := by
  unfold opensTag OpensTag
  split
  · next t =>
    simp only [List.any_eq_true, any_afterFolded?, h, List.cons.injEq, true_and]
  · next hopen =>
    refine iff_of_false Bool.false_ne_true ?_
    rintro ⟨_, _, s, rest, rfl, -⟩
    exact hopen _ rfl

def BannedMath (t : Text) : Prop := OpensTag ["mfenced", "maction", "mglyph"] WordEnds t

def BlockTag (t : Text) : Prop := OpensTag blockNames NameEnds t

def MathTag (t : Text) : Prop := OpensTag ["math"] NameEnds t

def Kind (kind t : Text) : Prop :=
  kind ≠ [] ∧ (∀ c ∈ kind, ('a' ≤ fold c ∧ fold c ≤ 'z') ∨ c = '-') ∧
    ∃ s rest, t = kind ++ (s ++ rest) ∧ Spells "-interaction" s ∧ WordEnds rest

/-- The longest of the kinds that a text may be read to begin with. -/
def LongestKind (kind t : Text) : Prop :=
  Kind kind t ∧ ∀ other, Kind other t → other.length ≤ kind.length

theorem not_kind_nil (kind : Text) : ¬ Kind kind [] := by
  rintro ⟨hne, -, s, rest, heq, -⟩
  exact hne (List.append_eq_nil_iff.1 heq.symm).1

theorem kind_cons {c : Char} {kind : Text} : Kind (c :: kind) (c :: t) ↔
    (('a' ≤ fold c ∧ fold c ≤ 'z') ∨ c = '-') ∧
      (kind = [] ∧ (afterFolded? "-interaction" t).any endsWord = true ∨ Kind kind t) := by
  rw [any_afterFolded?]
  simp only [endsWord_iff, Kind, ne_eq, reduceCtorEq, not_false_eq_true, true_and,
    List.forall_mem_cons, List.cons_append, List.cons.injEq, and_assoc, and_congr_right_iff]
  intro _
  by_cases hkind : kind = []
  · subst hkind
    simp
  · simp [hkind]

theorem interactionKind?_spec (t : Text) :
    (∀ kind, interactionKind? t = some kind → LongestKind kind t) ∧
      (interactionKind? t = none → ∀ kind, ¬ Kind kind t) := by
  induction t with
  | nil => exact ⟨fun kind h => absurd h.symm (Option.some_ne_none kind), fun _ => not_kind_nil⟩
  | cons c t ih =>
    obtain ⟨hsome, hnone⟩ := ih
    have hhead : ∀ kind, Kind kind (c :: t) → ∃ more, kind = c :: more := by
      rintro kind ⟨hne, -, s, rest, heq, -⟩
      obtain ⟨d, more, rfl⟩ := List.exists_cons_of_ne_nil hne
      obtain ⟨rfl, -⟩ := List.cons.inj heq
      exact ⟨more, rfl⟩
    by_cases hclass : ('a' ≤ fold c ∧ fold c ≤ 'z') ∨ c = '-'
    · rw [interactionKind?, if_pos (by simpa using hclass)]
      cases hrest : interactionKind? t with
      | some kind =>
        refine ⟨?_, fun h => absurd h (Option.some_ne_none _)⟩
        rintro _ ⟨⟩
        obtain ⟨hkind, hlongest⟩ := hsome kind hrest
        refine ⟨kind_cons.2 ⟨hclass, .inr hkind⟩, fun other hother => ?_⟩
        obtain ⟨more, rfl⟩ := hhead other hother
        rcases (kind_cons.1 hother).2 with ⟨rfl, -⟩ | hmore
        · simp
        · simpa using hlongest more hmore
      | none =>
        have hmore : ∀ more, Kind (c :: more) (c :: t) →
            more = [] ∧ (afterFolded? "-interaction" t).any endsWord = true :=
          fun more h => (kind_cons.1 h).2.resolve_right (hnone hrest more)
        dsimp only
        split_ifs with hend
        · refine ⟨?_, False.elim⟩
          rintro _ ⟨⟩
          refine ⟨kind_cons.2 ⟨hclass, .inl ⟨rfl, hend⟩⟩, fun other hother => ?_⟩
          obtain ⟨more, rfl⟩ := hhead other hother
          rw [(hmore more hother).1]
        · refine ⟨fun _ => False.elim, fun _ kind hkind => ?_⟩
          obtain ⟨more, rfl⟩ := hhead kind hkind
          exact hend (hmore more hkind).2
    · rw [interactionKind?, if_neg (by simpa using hclass)]
      refine ⟨fun kind h => absurd h.symm (Option.some_ne_none kind), fun _ kind hkind => ?_⟩
      obtain ⟨more, rfl⟩ := hhead kind hkind
      exact hclass (kind_cons.1 hkind).1

/-- The name of an interaction other than an inline choice, in lower case, follows a tag that
opens; of the kinds that the name may be read with, the longest counts. -/
def OtherInteraction (t : Text) : Prop :=
  ∃ s rest kind, t = s ++ rest ∧ Spells "<qti-" s ∧ LongestKind kind rest ∧ kind ≠ "inline-choice"

theorem LongestKind.unique {kind other : Text} (h : LongestKind kind t)
    (hother : LongestKind other t) : kind = other := by
  have hlength := Nat.le_antisymm (hother.2 _ h.1) (h.2 _ hother.1)
  obtain ⟨⟨-, -, s, rest, ht, -⟩, -⟩ := h
  obtain ⟨⟨-, -, s', rest', ht', -⟩, -⟩ := hother
  exact (List.append_inj (ht.symm.trans ht') hlength).1

theorem interactionKind?_eq_some {kind : Text} :
    interactionKind? t = some kind ↔ LongestKind kind t := by
  obtain ⟨hsome, hnone⟩ := interactionKind?_spec t
  refine ⟨hsome kind, fun h => ?_⟩
  cases hread : interactionKind? t with
  | none => exact absurd h.1 (hnone hread kind)
  | some other => rw [(hsome other hread).unique h]

theorem isOtherInteraction_iff : isOtherInteraction t = true ↔ OtherInteraction t := by
  have hread : ∀ kind, (afterFolded? "<qti-" t).bind interactionKind? = some kind ↔
      ∃ s rest, t = s ++ rest ∧ Spells "<qti-" s ∧ LongestKind kind rest := by
    intro kind
    simp only [Option.bind_eq_some_iff, afterFolded?_eq_some, interactionKind?_eq_some]
    constructor
    · rintro ⟨rest, ⟨s, ht, hs⟩, hkind⟩
      exact ⟨s, rest, ht, hs, hkind⟩
    · rintro ⟨s, rest, ht, hs, hkind⟩
      exact ⟨rest, ⟨s, ht, hs⟩, hkind⟩
  unfold isOtherInteraction
  split
  · next kind hkind =>
    rw [decide_eq_true_iff]
    obtain ⟨s, rest, ht, hs, hlongest⟩ := (hread kind).1 hkind
    refine ⟨fun hne => ⟨s, rest, kind, ht, hs, hlongest, hne⟩, ?_⟩
    rintro ⟨s', rest', other, ht', hs', hother, hne⟩
    have hsame := hkind.symm.trans ((hread other).2 ⟨s', rest', ht', hs', hother⟩)
    rwa [Option.some.inj hsame]
  · next hnone =>
    refine iff_of_false Bool.false_ne_true ?_
    rintro ⟨s, rest, kind, ht, hs, hlongest, -⟩
    rw [(hread kind).2 ⟨s, rest, ht, hs, hlongest⟩] at hnone
    contradiction

/-- An attribute `alt` behind white space, with its value between two quotes. -/
def AltAttribute (value t : Text) : Prop :=
  ∃ c s gap gap' quote rest,
    t = c :: (s ++ (gap ++ '=' :: (gap' ++ quote :: (value ++ quote :: rest)))) ∧
      isSpace c = true ∧ Spells "alt" s ∧ (∀ c ∈ gap, isSpace c = true) ∧
        (∀ c ∈ gap', isSpace c = true) ∧ (quote = '"' ∨ quote = '\'') ∧ quote ∉ value

theorem takeWhile_quote {quote : Char} {value : Text} :
    quote ∈ t ∧ t.takeWhile (· ≠ quote) = value ↔
      quote ∉ value ∧ ∃ rest, t = value ++ quote :: rest := by
  constructor
  · rintro ⟨hmem, rfl⟩
    obtain ⟨value, rest, rfl, hnot⟩ := List.eq_append_cons_of_mem hmem
    have htake : (value ++ quote :: rest).takeWhile (· ≠ quote) = value :=
      takeWhile_run (fun c hc => decide_eq_true fun heq => hnot (heq ▸ hc)) (by simp)
    rw [htake]
    exact ⟨hnot, rest, rfl⟩
  · rintro ⟨hnot, rest, rfl⟩
    exact ⟨by simp, takeWhile_run (fun c hc => decide_eq_true fun heq => hnot (heq ▸ hc)) (by simp)⟩

theorem altAttribute?_eq_some {value : Text} :
    altAttribute? t = some value ↔ AltAttribute value t := by
  have hquote : ∀ quote : Char, quote = '"' ∨ quote = '\'' → isSpace quote = false := by
    rintro quote (rfl | rfl) <;> decide
  cases t with
  | nil =>
    refine iff_of_false nofun ?_
    rintro ⟨c, s, gap, gap', quote, rest, heq, -⟩
    cases heq
  | cons c t =>
    simp only [altAttribute?, Option.ite_none_right_eq_some, Option.bind_eq_bind,
      Option.bind_eq_some_iff]
    constructor
    · rintro ⟨hc, u, hword, w, hequals, hvalue⟩
      obtain ⟨s, rfl, hs⟩ := afterFolded?_eq_some.1 hword
      obtain ⟨gap, rfl, hgap⟩ := after?_equals.1 hequals
      obtain ⟨gap', hgap', hw⟩ := exists_dropWhile w
      split at hvalue
      · cases hvalue
      · next quote v hdrop =>
        rw [Option.ite_none_right_eq_some, Option.some.injEq] at hvalue
        obtain ⟨⟨hmark, hmem⟩, htake⟩ := hvalue
        obtain ⟨hnot, rest, rfl⟩ := takeWhile_quote.1 ⟨hmem, htake⟩
        rw [hdrop] at hw
        exact ⟨c, s, gap, gap', quote, rest, by rw [hw], hc, hs, hgap, hgap', hmark, hnot⟩
    · rintro ⟨c, s, gap, gap', quote, rest, heq, hc, hs, hgap, hgap', hmark, hnot⟩
      obtain ⟨rfl, rfl⟩ := List.cons.inj heq
      refine ⟨hc, _, afterFolded?_eq_some.2 ⟨s, rfl, hs⟩, _, after?_equals.2 ⟨gap, rfl, hgap⟩, ?_⟩
      have hhead : ∀ d ∈ (quote :: (value ++ quote :: rest)).head?, isSpace d = false := by
        rintro d ⟨⟩
        exact hquote quote hmark
      rw [dropWhile_gap hgap' hhead]
      obtain ⟨hmem, htake⟩ := takeWhile_quote.2 ⟨hnot, rest, rfl⟩
      dsimp only
      rw [if_pos ⟨hmark, hmem⟩, htake]

theorem firstMatch_eq_some {α : Type} {recognise : Text → Option α} {a : α} :
    firstMatch recognise t = some a ↔
      ∃ before rest, t = before ++ rest ∧ rest ≠ [] ∧ recognise rest = some a ∧
        ∀ s, s <:+ before → s ≠ [] → recognise (s ++ rest) = none := by
  induction t with
  | nil =>
    refine iff_of_false nofun ?_
    rintro ⟨before, rest, heq, hne, -⟩
    exact hne (List.append_eq_nil_iff.1 heq.symm).2
  | cons c t ih =>
    rw [firstMatch]
    cases hread : recognise (c :: t) with
    | some b =>
      change some b = some a ↔ _
      constructor
      · intro h
        exact ⟨[], c :: t, rfl, List.cons_ne_nil _ _, hread.trans h,
          fun s hs hne => absurd (List.suffix_nil.1 hs) hne⟩
      · rintro ⟨before, rest, heq, -, hrest, hnone⟩
        cases before with
        | nil =>
          rw [← hread, heq]
          exact hrest
        | cons d before =>
          have hfirst := hnone _ List.suffix_rfl (List.cons_ne_nil _ _)
          rw [← heq, hread] at hfirst
          contradiction
    | none =>
      refine ih.trans ?_
      constructor
      · rintro ⟨before, rest, rfl, hne, hrest, hnone⟩
        refine ⟨c :: before, rest, rfl, hne, hrest, fun s hs hs' => ?_⟩
        rcases List.suffix_cons_iff.1 hs with rfl | hs
        · exact hread
        · exact hnone s hs hs'
      · rintro ⟨before, rest, heq, hne, hrest, hnone⟩
        cases before with
        | nil =>
          rw [List.nil_append] at heq
          rw [heq, hrest] at hread
          contradiction
        | cons d before =>
          obtain ⟨rfl, rfl⟩ := List.cons.inj heq
          refine ⟨before, rest, rfl, hne, hrest, fun s hs => hnone s ?_⟩
          exact hs.trans (List.suffix_cons _ _)

def FirstAlt (tag value : Text) : Prop :=
  ∃ before rest, tag = before ++ rest ∧ AltAttribute value rest ∧
    ∀ s, s <:+ before → s ≠ [] → ∀ other, ¬ AltAttribute other (s ++ rest)

theorem firstMatch_altAttribute? {tag value : Text} :
    firstMatch altAttribute? tag = some value ↔ FirstAlt tag value := by
  have hnone : ∀ u : Text, altAttribute? u = none ↔ ∀ other, ¬ AltAttribute other u := by
    intro u
    simp only [Option.eq_none_iff_forall_ne_some, ne_eq, altAttribute?_eq_some]
  rw [firstMatch_eq_some]
  simp only [altAttribute?_eq_some, hnone]
  constructor
  · rintro ⟨before, rest, htag, -, hvalue, hfirst⟩
    exact ⟨before, rest, htag, hvalue, hfirst⟩
  · rintro ⟨before, rest, htag, hvalue, hfirst⟩
    refine ⟨before, rest, htag, ?_, hvalue, hfirst⟩
    rintro rfl
    obtain ⟨c, s, gap, gap', quote, rest, heq, -⟩ := hvalue
    contradiction

def Described (tag : Text) : Prop := ∃ value, FirstAlt tag value ∧ isBlank value = false

theorem lacksAlt_eq_false {tag : Text} : lacksAlt tag = false ↔ Described tag := by
  unfold lacksAlt Described
  simp only [← firstMatch_altAttribute?]
  cases firstMatch altAttribute? tag <;> simp

def ImageTag (tag : Text) : Prop :=
  ∃ s inside, tag = s ++ (inside ++ ['>']) ∧ Spells "<img" s ∧ WordEnds (inside ++ ['>']) ∧
    '>' ∉ inside

def EndsInImage (t : Text) : Prop :=
  ∃ before s inside, t = before ++ (s ++ inside) ∧ Spells "<img" s ∧ WordEnds inside ∧ '>' ∉ inside

theorem isTag_iff {tag : Text} : IsTag "<img" tag ↔ ImageTag tag := by
  constructor
  · intro h
    obtain ⟨rest, hrest, hends, hclose, -⟩ := tag?_eq_some.1 h
    obtain ⟨whole, hwhole, heq⟩ := h.exists_inside
    obtain ⟨s, hs, hspells⟩ := afterFolded?_eq_some.1 hrest
    rcases List.eq_nil_or_concat rest with rfl | ⟨inside, c, rfl⟩
    · contradiction
    · rw [heq, List.concat_eq_append, ← List.append_assoc] at hs
      obtain ⟨rfl, hc⟩ := List.append_inj' hs rfl
      obtain rfl := (List.cons.inj hc).1
      refine ⟨s, inside, by simpa using heq, hspells, endsWord_iff.1 (by simpa using hends), ?_⟩
      exact fun hmem => hwhole (List.mem_append_right _ hmem)
  · rintro ⟨s, inside, rfl, hspells, hends, hnot⟩
    refine tag?_eq_some.2 ⟨_, afterFolded?_eq_some.2 ⟨s, rfl, hspells⟩, endsWord_iff.2 hends,
      by simp, ?_⟩
    have hall : ∀ c ∈ s ++ inside, decide (c ≠ '>') = true := by
      refine fun c hc => decide_eq_true ?_
      rintro rfl
      rcases List.mem_append.1 hc with hc | hc
      · exact hspells.not_mem (by decide) hc
      · exact hnot hc
    rw [← List.append_assoc, takeWhile_run hall (by simp)]

theorem endsInside_iff : EndsInside "<img" t ↔ EndsInImage t := by
  constructor
  · rintro ⟨_, ⟨before, rfl⟩, inside, hinside, hends, hnot⟩
    obtain ⟨s, rfl, hs⟩ := afterFolded?_eq_some.1 hinside
    exact ⟨before, s, inside, rfl, hs, endsWord_iff.1 hends, hnot⟩
  · rintro ⟨before, s, inside, rfl, hs, hends, hnot⟩
    exact ⟨_, List.suffix_append _ _, inside, afterFolded?_eq_some.2 ⟨s, rfl, hs⟩,
      endsWord_iff.2 hends, hnot⟩

/-- The tag of an image without a description follows a text that ends inside no such tag. -/
def BareImage (before t : Text) : Prop :=
  ¬ EndsInImage before ∧ ∃ tag rest, t = tag ++ rest ∧ ImageTag tag ∧ ¬ Described tag

end AssessmentItems.Constructs
