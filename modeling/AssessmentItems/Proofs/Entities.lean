import AssessmentItems.Proofs.EmbeddedWidgets
import AssessmentItems.Proofs.Pieces

/-!
Entities in escaped texts. Reading replaces each entity once, from left to right, so it undoes
both ways of escaping, whatever the text looked like before. The escaped texts are exactly those
in which no mark but the ampersand stands and every ampersand begins an entity: nothing in them
opens or ends a tag, and each is the escaped form of one text only.
-/
namespace AssessmentItems.Entities

open Text Escaping Scanning TextClasses Pieces Elements EmbeddedWidgets

structure Entity where
  character : Char
  spelling : Text
deriving DecidableEq

def entities : List Entity :=
  [⟨'&', "&amp;"⟩, ⟨'<', "&lt;"⟩, ⟨'>', "&gt;"⟩, ⟨'"', "&quot;"⟩, ⟨'\'', "&apos;"⟩]

def entity? (t : Text) : Option Entity := entities.find? fun e => e.spelling.isPrefixOf t

/-- No entity begins another. -/
theorem eq_of_begins {e e' : Entity} (he : e ∈ entities) (he' : e' ∈ entities)
    (h : e.spelling <+: e'.spelling) : e = e' := by
  have hall : ∀ e ∈ entities, ∀ e' ∈ entities, e.spelling <+: e'.spelling → e = e' := by decide
  exact hall e he e' he' h

theorem eq_of_character {e e' : Entity} (he : e ∈ entities) (he' : e' ∈ entities)
    (h : e.character = e'.character) : e = e' := by
  have hall : ∀ e ∈ entities, ∀ e' ∈ entities, e.character = e'.character → e = e' := by decide
  exact hall e he e' he' h

/-- The only ampersand of an entity is its first character. -/
theorem exists_spelling {e : Entity} (he : e ∈ entities) :
    ∃ tail, e.spelling = '&' :: tail ∧ '&' ∉ tail := by
  have hall : ∀ e ∈ entities, e.spelling.head? = some '&' ∧ '&' ∉ e.spelling.tail := by decide
  obtain ⟨hhead, htail⟩ := hall e he
  obtain ⟨tail, htail'⟩ := List.head?_eq_some_iff.1 hhead
  rw [htail'] at htail
  exact ⟨tail, htail', htail⟩

theorem entity?_eq_some {t : Text} {e : Entity} :
    entity? t = some e ↔ e ∈ entities ∧ e.spelling <+: t := by
  have hsound : ∀ {e}, entity? t = some e → e ∈ entities ∧ e.spelling <+: t := by
    intro e h
    have hfound : e.spelling.isPrefixOf t = true := by simpa using List.find?_some h
    exact ⟨List.mem_of_find?_eq_some h, List.isPrefixOf_iff_prefix.1 hfound⟩
  refine ⟨hsound, fun ⟨he, hbegins⟩ => ?_⟩
  cases hread : entity? t with
  | none =>
    have hnot := List.find?_eq_none.1 hread e he
    exact absurd (List.isPrefixOf_iff_prefix.2 hbegins) hnot
  | some e' =>
    obtain ⟨he', hbegins'⟩ := hsound hread
    rcases List.prefix_or_prefix_of_prefix hbegins hbegins' with h | h
    · rw [eq_of_begins he he' h]
    · rw [eq_of_begins he' he h]

theorem spelled_entity? : Spelled entity? Entity.spelling := by
  intro t e h
  obtain ⟨he, hbegins⟩ := entity?_eq_some.1 h
  obtain ⟨tail, hspelling, -⟩ := exists_spelling he
  exact ⟨by simp [hspelling], hbegins⟩

theorem unescape_spelling {e : Entity} (he : e ∈ entities) (t : Text) :
    unescape (e.spelling ++ t) = e.character :: unescape t := by
  simp only [entities, List.mem_cons, List.not_mem_nil, or_false] at he
  rcases he with rfl | rfl | rfl | rfl | rfl <;> rfl

theorem unescape_character {c : Char} {t : Text} (h : entity? (c :: t) = none) :
    unescape (c :: t) = c :: unescape t := by
  have hnot : ∀ e ∈ entities, ∀ rest, c :: t ≠ e.spelling ++ rest := by
    intro e he rest heq
    have hread := entity?_eq_some.2 ⟨he, rest, heq.symm⟩
    rw [h] at hread
    contradiction
  rw [unescape]
  · exact fun rest hc ht => hnot ⟨'&', "&amp;"⟩ (by decide) rest (by rw [hc, ht]; rfl)
  · exact fun rest hc ht => hnot ⟨'<', "&lt;"⟩ (by decide) rest (by rw [hc, ht]; rfl)
  · exact fun rest hc ht => hnot ⟨'>', "&gt;"⟩ (by decide) rest (by rw [hc, ht]; rfl)
  · exact fun rest hc ht => hnot ⟨'"', "&quot;"⟩ (by decide) rest (by rw [hc, ht]; rfl)
  · exact fun rest hc ht => hnot ⟨'\'', "&apos;"⟩ (by decide) rest (by rw [hc, ht]; rfl)

/-- Each entity is replaced by its character, and what comes of it is not read again. -/
theorem unescape_eq_written (t : Text) :
    unescape t = written (fun e => [e.character]) (pieces entity? Entity.spelling t) := by
  induction t using scan_induction spelled_entity? with
  | nil => rfl
  | character c t hread ih =>
    rw [pieces_of_not_recognise _ _ _ _ hread, written_character, unescape_character hread, ih]
  | occurrence e rest hne hread ih =>
    rw [pieces_of_recognise _ _ _ _ hne hread, written_occurrence,
      unescape_spelling (entity?_eq_some.1 hread).1, ih, List.singleton_append]

/-- No mark but the ampersand stands in the text, and every ampersand begins the entity of a
mark. -/
structure Escaped (marks t : Text) : Prop where
  clean : ∀ c ∈ marks, c ≠ '&' → c ∉ t
  entity : ∀ s, '&' :: s <:+ t →
    ∃ e ∈ entities, e.character ∈ marks ∧ e.spelling <+: '&' :: s

section

variable {marks a b : Text}

theorem escaped_nil : Escaped marks [] where
  clean := fun _ _ _ => List.not_mem_nil
  entity := fun _ hs => absurd (List.suffix_nil.1 hs) (List.cons_ne_nil _ _)

theorem Escaped.of_suffix (hb : Escaped marks b) (h : a <:+ b) : Escaped marks a where
  clean := fun c hc hne hmem => hb.clean c hc hne (h.mem hmem)
  entity := fun s hs => hb.entity s (hs.trans h)

/-- Where two escaped texts meet, no ampersand loses its entity. -/
theorem Escaped.append (ha : Escaped marks a) (hb : Escaped marks b) :
    Escaped marks (a ++ b) where
  clean := by
    intro c hc hne hmem
    exact (List.mem_append.1 hmem).elim (ha.clean c hc hne) (hb.clean c hc hne)
  entity := by
    rintro s ⟨front, h⟩
    rcases List.append_eq_append_iff.1 h with ⟨rest, rfl, hrest⟩ | ⟨rest, -, rfl⟩
    · cases rest with
      | nil => exact hb.entity s ⟨[], hrest⟩
      | cons d rest =>
        obtain ⟨rfl, rfl⟩ := List.cons.inj hrest
        obtain ⟨e, he, hmark, hbegins⟩ := ha.entity rest (List.suffix_append _ _)
        exact ⟨e, he, hmark, hbegins.trans (List.prefix_append _ b)⟩
    · exact hb.entity s (List.suffix_append _ _)

/-- An entity of a mark is an escaped text, if all marks are characters of entities. -/
theorem escaped_spelling (hmarks : ∀ c ∈ marks, ∃ e ∈ entities, e.character = c) {e : Entity}
    (he : e ∈ entities) (hmark : e.character ∈ marks) : Escaped marks e.spelling where
  clean := by
    have hall : ∀ m ∈ entities, m.character ≠ '&' → ∀ e ∈ entities, m.character ∉ e.spelling := by
      decide
    intro c hc hne
    obtain ⟨m, hm, rfl⟩ := hmarks c hc
    exact hall m hm hne e he
  entity := by
    obtain ⟨tail, hspelling, htail⟩ := exists_spelling he
    intro s hs
    rw [hspelling] at hs
    rcases List.suffix_cons_iff.1 hs with heq | hs
    · exact ⟨e, he, hmark, by rw [hspelling, heq]⟩
    · exact absurd (hs.mem List.mem_cons_self) htail

theorem escaped_character {c : Char} (hampersand : '&' ∈ marks) (hc : c ∉ marks) :
    Escaped marks [c] where
  clean := by
    intro d hd _ hmem
    rw [List.mem_singleton.1 hmem] at hd
    exact hc hd
  entity := by
    intro s hs
    obtain rfl := List.mem_singleton.1 (hs.mem List.mem_cons_self)
    exact absurd hampersand hc

/-- An escaped text begins with an entity of a mark, or else with a character that is no mark. -/
theorem Escaped.mem_of_entity {e : Entity} {t : Text} (h : Escaped marks t)
    (hread : entity? t = some e) : e.character ∈ marks := by
  obtain ⟨he, rest, rfl⟩ := entity?_eq_some.1 hread
  obtain ⟨tail, hspelling, -⟩ := exists_spelling he
  have hsuffix : '&' :: (tail ++ rest) <:+ e.spelling ++ rest := by
    rw [hspelling]
    exact List.suffix_rfl
  obtain ⟨e', he', hmark, hbegins⟩ := h.entity _ hsuffix
  have hread' : entity? (e.spelling ++ rest) = some e' := by
    refine entity?_eq_some.2 ⟨he', ?_⟩
    rwa [hspelling]
  obtain rfl := Option.some.inj (hread.symm.trans hread')
  exact hmark

theorem Escaped.not_mem_of_character {c : Char} {t : Text} (h : Escaped marks (c :: t))
    (hread : entity? (c :: t) = none) : c ∉ marks := by
  intro hc
  have hampersand : c = '&' := by
    by_contra hne
    exact h.clean c hc hne List.mem_cons_self
  subst hampersand
  obtain ⟨e, he, -, hbegins⟩ := h.entity t List.suffix_rfl
  rw [entity?_eq_some.2 ⟨he, hbegins⟩] at hread
  contradiction

end

/-- A writing of single characters: the marks as entities, all others as they are. -/
structure Writes (write : Char → Text) (marks : Text) : Prop where
  ampersand : '&' ∈ marks
  mark : ∀ c ∈ marks, ⟨c, write c⟩ ∈ entities
  other : ∀ c, c ∉ marks → write c = [c]

theorem writes_textEntity : Writes textEntity "&<>" where
  ampersand := by decide
  mark := forall_mem_of_all (by decide)
  other := by
    intro c hc
    unfold textEntity
    split
    · exact absurd (by decide) hc
    · exact absurd (by decide) hc
    · exact absurd (by decide) hc
    · rfl

theorem writes_attributeEntity : Writes attributeEntity marks where
  ampersand := by decide
  mark := forall_mem_of_all (by decide)
  other := fun _ => attributeEntity_eq_self

section

variable {write : Char → Text} {marks : Text} (h : Writes write marks)
include h

theorem Writes.escaped (t : Text) : Escaped marks (t.flatMap write) := by
  induction t with
  | nil => exact escaped_nil
  | cons c t ih =>
    rw [List.flatMap_cons]
    refine Escaped.append ?_ ih
    by_cases hc : c ∈ marks
    · exact escaped_spelling (fun d hd => ⟨_, h.mark d hd, rfl⟩) (h.mark c hc) hc
    · rw [h.other c hc]
      exact escaped_character h.ampersand hc

/-- An escaped text is written again as it was read. -/
theorem Writes.flatMap_unescape {t : Text} (ht : Escaped marks t) :
    (unescape t).flatMap write = t := by
  induction t using scan_induction spelled_entity? with
  | nil => rfl
  | character c t hread ih =>
    rw [unescape_character hread, List.flatMap_cons, h.other c (ht.not_mem_of_character hread),
      ih (ht.of_suffix (List.suffix_cons c t)), List.singleton_append]
  | occurrence e rest hne hread ih =>
    have he := (entity?_eq_some.1 hread).1
    have hmark := h.mark _ (ht.mem_of_entity hread)
    have hwrite : write e.character = e.spelling :=
      congrArg Entity.spelling (eq_of_character hmark he rfl)
    rw [unescape_spelling he, List.flatMap_cons, hwrite, ih (ht.of_suffix (List.suffix_append _ _))]

end

/-- A way of escaping that can be undone, part by part, and has all escaped texts as its values. -/
structure Reversible (escape : Text → Text) (marks : Text) : Prop where
  read_back : ∀ s, unescape (escape s) = s
  injective : Function.Injective escape
  escaped : ∀ s, Escaped marks (escape s)
  written_back : ∀ u, Escaped marks u → escape (unescape u) = u
  append : ∀ s t, escape (s ++ t) = escape s ++ escape t

theorem Writes.reversible {write : Char → Text} {marks : Text} (h : Writes write marks)
    (hread : ∀ s : Text, unescape (s.flatMap write) = s) :
    Reversible (fun t => t.flatMap write) marks where
  read_back := hread
  injective := Function.LeftInverse.injective hread
  escaped := h.escaped
  written_back := fun _ => h.flatMap_unescape
  append := fun _ _ => List.flatMap_append

/-- Reading replaces the five entities once, from left to right, and gives back every text from
its escaped form. In element content the two brackets are left nowhere, in attribute values the
quotes neither, and every ampersand begins an entity. -/
theorem escaping_reversible :
    (∀ t, unescape t = written (fun e => [e.character]) (pieces entity? Entity.spelling t)) ∧
      Reversible escapeText "&<>" ∧ Reversible escapeAttribute "&<>\"'" :=
  ⟨unescape_eq_written, writes_textEntity.reversible unescape_escapeText,
    writes_attributeEntity.reversible unescape_escapeAttribute⟩

/-- What looks escaped is escaped once more, and is read once only. -/
example : escapeText "&lt;" = "&amp;lt;" ∧ unescape "&amp;lt;" = "&lt;" := by decide

end AssessmentItems.Entities
