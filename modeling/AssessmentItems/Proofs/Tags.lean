import AssessmentItems.Proofs.Placeholders
import AssessmentItems.Proofs.Results

/-!
Tags in texts. A tag is read from where it opens up to its end, and is read there whatever
follows. Nothing is left over in a text exactly if nowhere in it a tag opens that looks like
a slot; then no part of the text has any, and above all no placeholder.
-/
namespace AssessmentItems.Tags

open Text Scanning Slots Pieces Placeholders TextClasses Results

theorem tag?_eq_some {start t tag : Text} :
    tag? start t = some tag ↔ ∃ rest, afterFolded? start t = some rest ∧ endsWord rest = true ∧
      '>' ∈ rest ∧ t.takeWhile (· ≠ '>') ++ ['>'] = tag := by
  simp only [tag?, Option.bind_eq_bind, Option.bind_eq_some_iff, Option.ite_none_right_eq_some,
    Option.some.injEq, and_assoc]

/-- The cut of a text at its first `>`. -/
theorem takeWhile_close (s b : Text) :
    (s ++ '>' :: b).takeWhile (· ≠ '>') = s.takeWhile (· ≠ '>') := by
  induction s with
  | nil => simp
  | cons c s ih => simp only [List.cons_append, List.takeWhile_cons, ih]

theorem prefix_of_mem_close {t : Text} (h : '>' ∈ t) :
    t.takeWhile (· ≠ '>') ++ ['>'] <+: t := by
  induction t with
  | nil => simp at h
  | cons c t ih =>
    by_cases hc : c = '>'
    · simp [hc]
    · have hmem : '>' ∈ t := (List.mem_cons.1 h).resolve_left (Ne.symm hc)
      rw [List.takeWhile_cons_of_pos (by simpa using hc), List.cons_append,
        List.prefix_cons_inj]
      exact ih hmem

/-- The tag is spelled at the front of the text. -/
theorem spelled_tag? (start : Text) : Spelled (tag? start) id := by
  intro t tag h
  obtain ⟨rest, hrest, -, hclose, rfl⟩ := tag?_eq_some.1 h
  obtain ⟨front, rfl, -⟩ := afterFolded?_eq_some.1 hrest
  exact ⟨by simp, prefix_of_mem_close (List.mem_append_right _ hclose)⟩

/-- A tag ends at the first `>`. -/
theorem tag?_close {start : Text} (hstart : '>' ∉ start) (s b : Text) :
    tag? start (s ++ '>' :: b) = tag? start (s ++ ['>']) := by
  have hends : ∀ rest : Text, endsWord (rest ++ '>' :: b) = endsWord (rest ++ ['>']) := by
    intro rest
    cases rest <;> rfl
  simp only [tag?, afterFolded?_append_cons hstart fold_close, takeWhile_close]
  cases afterFolded? start s with
  | none => rfl
  | some rest => simp [hends]

/-- A tag is read whatever follows. -/
theorem tag?_append {start s tag : Text} (h : tag? start s = some tag) (b : Text) :
    tag? start (s ++ b) = some tag := by
  obtain ⟨rest, hrest, hends, hclose, rfl⟩ := tag?_eq_some.1 h
  refine tag?_eq_some.2 ⟨rest ++ b, afterFolded?_append hrest b, ?_,
    List.mem_append_left _ hclose, ?_⟩
  · cases rest with
    | nil => simp at hclose
    | cons c rest => exact hends
  · obtain ⟨front, rfl, -⟩ := afterFolded?_eq_some.1 hrest
    obtain ⟨before, after, hsplit⟩ := List.append_of_mem (List.mem_append_right front hclose)
    rw [hsplit, List.append_assoc, List.cons_append, takeWhile_close, takeWhile_close]

def EndsInside (start t : Text) : Prop :=
  ∃ s, s <:+ t ∧ ∃ rest, afterFolded? start s = some rest ∧ endsWord rest = true ∧ '>' ∉ rest

theorem endsWord_append_cons {d : Char} (hword : isWord d = false) (t b : Text) :
    endsWord (t ++ d :: b) = endsWord t := by
  cases t with
  | nil => simp [endsWord, hword]
  | cons c t => rfl

section

variable {name : Text} {d : Char} (hname : d ∉ name) (hfold : fold d = d)
include hname hfold

/-- A tag that has begun begins the same way before a character that its name does not have. -/
theorem afterFolded?_open_append {s : Text} (hs : s ≠ []) (b : Text) :
    afterFolded? ('<' :: name) (s ++ d :: b) =
      (afterFolded? ('<' :: name) s).map (· ++ d :: b) := by
  obtain ⟨c, s, rfl⟩ := List.exists_cons_of_ne_nil hs
  simp only [List.cons_append, afterFolded?]
  split_ifs
  · exact afterFolded?_append_cons hname hfold s b
  · rfl

variable (hword : isWord d = false)
include hword

/-- Where a text ends inside no tag, no tag of it goes on behind a character that ends its
name. -/
theorem apart_tag {a : Text} (ha : ¬ EndsInside ('<' :: name) a) (b : Text) :
    Apart (tag? ('<' :: name)) a (d :: b) := by
  intro s hs hne
  refine Option.ext fun tag => ⟨fun h => ?_, fun h => tag?_append h _⟩
  obtain ⟨_, hlong, hends, -, -⟩ := tag?_eq_some.1 h
  rw [afterFolded?_open_append hname hfold hne] at hlong
  obtain ⟨rest, hrest, rfl⟩ := Option.map_eq_some_iff.1 hlong
  rw [endsWord_append_cons hword] at hends
  have hclose : '>' ∈ rest := by
    by_contra hclose
    exact ha ⟨_, hs, rest, hrest, hends, hclose⟩
  have hshort := tag?_eq_some.2 ⟨rest, hrest, hends, hclose, rfl⟩
  rw [← h, tag?_append hshort]
  exact hshort

/-- A tag in which a text ends is ended by what follows. -/
theorem nowhere_tag_append {a b : Text} (hb : '>' ∈ b) :
    Nowhere (fun s => (tag? ('<' :: name) s).isSome) (a ++ d :: b) ↔
      ¬ EndsInside ('<' :: name) a ∧ Nowhere (fun s => (tag? ('<' :: name) s).isSome) a ∧
        Nowhere (fun s => (tag? ('<' :: name) s).isSome) (d :: b) := by
  by_cases ha : EndsInside ('<' :: name) a
  · refine iff_of_false (fun h => ?_) fun h => h.1 ha
    obtain ⟨s, hs, rest, hrest, hends, -⟩ := ha
    have htag : tag? ('<' :: name) (s ++ d :: b) = some _ := tag?_eq_some.2
      ⟨rest ++ d :: b, afterFolded?_append hrest _, (endsWord_append_cons hword _ _).trans hends,
        by simp [hb], rfl⟩
    have hnot := h _ ((List.suffix_append_inj_of_length_eq rfl).2 ⟨hs, rfl⟩) (by simp)
    simp [htag] at hnot
  · rw [nowhere_append fun s hs hne => congrArg Option.isSome
      (apart_tag hname hfold hword ha b s hs hne)]
    exact (and_iff_right ha).symm

end

theorem isWord_of_isSpace {c : Char} (h : isSpace c = true) : isWord c = false := by
  have hall : ∀ n ∈ spaces, (CharacterTables.covers n CharacterTables.alphabetic ||
      CharacterTables.covers n CharacterTables.decimalDigits ||
      CharacterTables.covers n CharacterTables.wordMarks) = false := by
    decide +kernel
  rw [isWord, hall _ (toNat_mem_spaces h), Bool.false_and]

theorem looseTags_eq_nil {t : Text} :
    looseTags t = [] ↔ Nowhere (fun s => (looseTag? s).isSome) t :=
  occurrences_eq_nil (spelled_tag? _)

theorem leftover_eq_nil {t : Text} :
    leftover t = [] ↔ Nowhere (fun s => (looseTag? s).isSome) t := by
  rw [leftover, ascending_eq_nil, List.map_eq_nil_iff, looseTags_eq_nil]

theorem leftover_of_part {t u : Text} (h : leftover t = []) (hpart : u <:+: t) :
    leftover u = [] := by
  rw [leftover_eq_nil] at h ⊢
  refine h.of_part (fun s b hs => ?_) hpart
  obtain ⟨tag, htag⟩ := Option.isSome_iff_exists.1 hs
  exact Option.isSome_iff_exists.2 ⟨tag, tag?_append htag b⟩

/-- A placeholder looks like a slot. -/
theorem isSome_looseTag?_spelling {p : Placeholder} (hp : WellFormed p) (rest : Text) :
    (looseTag? (p.spelling ++ rest)).isSome = true := by
  obtain ⟨c, gap, hgap⟩ := List.exists_cons_of_ne_nil hp.gap_ne_nil
  have hspace : isSpace c = true := hp.gap c (by simp [hgap])
  let after : Text := p.gap ++ ("name=\"" ++ (p.name ++ ("\"" ++ (p.tail ++ ("/>" ++ rest)))))
  have hafter : afterFolded? "<slot" (p.spelling ++ rest) = some after := by
    rw [spelling_append]
    rfl
  have hends : endsWord after = true := by
    simp only [after, hgap, List.cons_append, endsWord, isWord_of_isSpace hspace, Bool.not_false]
  refine Option.isSome_iff_exists.2 ⟨_, tag?_eq_some.2 ⟨after, hafter, hends, ?_, rfl⟩⟩
  simp [after]

theorem not_spelled_within {t : Text} {p : Placeholder} (h : leftover t = [])
    (hp : WellFormed p) : ¬ p.spelling <:+: t := by
  rintro ⟨a, b, rfl⟩
  have hne : p.spelling ++ b ≠ [] := by simp [spelling_eq]
  have hnot : (looseTag? (p.spelling ++ b)).isSome = false :=
    leftover_eq_nil.1 h _ ⟨a, (List.append_assoc _ _ _).symm⟩ hne
  rw [isSome_looseTag?_spelling hp b] at hnot
  contradiction

theorem referenced_of_leftover {t : Text} (h : leftover t = []) : referenced t = [] := by
  refine List.eq_nil_iff_forall_not_mem.2 fun name hname => ?_
  obtain ⟨p, hp, -⟩ := mem_referenced.1 hname
  obtain ⟨hwell, hspelled⟩ := mem_occurrences_segments.1 hp
  exact not_spelled_within h hwell hspelled

theorem resolve_eq_ok {slots : SlotTable} {content t : Text} :
    resolve slots content = .ok t ↔
      substitute slots maxDepth [] content = .ok t ∧ leftover t = [] := by
  unfold resolve
  rw [bind_eq_ok]
  constructor
  · rintro ⟨u, hu, h⟩
    split at h
    · next hleft =>
      obtain rfl := Except.ok.inj h
      exact ⟨hu, hleft⟩
    · contradiction
  · rintro ⟨ht, hleft⟩
    refine ⟨t, ht, ?_⟩
    rw [hleft]

end AssessmentItems.Tags
