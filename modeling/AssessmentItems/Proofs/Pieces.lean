import AssessmentItems.Scanning
import Mathlib.Data.List.Infix

/-!
Cuts of a text into pieces, followed from the front. Nothing of the text is lost, and the
cut of two texts one after another is that of each, as long as nothing is read across the
place where they meet. For a reading that stays inside a tag, the texts may meet where a
tag opens or where one has ended.
-/
namespace AssessmentItems.Pieces

open Scanning

variable {α β : Type}

/-- A fixed text is the list of its characters. -/
theorem literal_eq {s : String} {t : Text} (h : s = String.ofList t) : (s : Text) = t := by
  rw [h, String.toList_ofList]

theorem head?_append_left {a : Text} {c : Char} (h : a.head? = some c) (b : Text) :
    (a ++ b).head? = some c := by
  rw [List.head?_append, h]
  rfl

theorem getLast?_append_right {b : Text} {c : Char} (h : b.getLast? = some c) (a : Text) :
    (a ++ b).getLast? = some c := by
  rw [List.getLast?_append, h]
  rfl

/-- At no place of the first text does a reading depend on the second, which follows. -/
def Apart (read : Text → β) (a b : Text) : Prop :=
  ∀ s, s <:+ a → s ≠ [] → read (s ++ b) = read s

theorem Apart.tail {read : Text → β} {c : Char} {a b : Text} (h : Apart read (c :: a) b) :
    Apart read a b := fun s hs hne => h s (hs.trans (List.suffix_cons c a)) hne

theorem Apart.head {read : Text → β} {c : Char} {a b : Text} (h : Apart read (c :: a) b) :
    read (c :: (a ++ b)) = read (c :: a) := h (c :: a) List.suffix_rfl (by simp)

theorem Apart.of_suffix {read : Text → β} {a a' b : Text} (h : Apart read a b)
    (hsuffix : a' <:+ a) : Apart read a' b := fun s hs hne => h s (hs.trans hsuffix) hne

def Nowhere (read : Text → Bool) (t : Text) : Prop := ∀ s, s <:+ t → s ≠ [] → read s = false

theorem nowhere_nil (read : Text → Bool) : Nowhere read [] :=
  fun _ hs hne => absurd (List.suffix_nil.1 hs) hne

theorem nowhere_cons {read : Text → Bool} {c : Char} {t : Text} :
    Nowhere read (c :: t) ↔ read (c :: t) = false ∧ Nowhere read t := by
  constructor
  · intro h
    exact ⟨h _ List.suffix_rfl (by simp), fun s hs hne => h s (hs.trans (List.suffix_cons c t)) hne⟩
  · rintro ⟨hhead, htail⟩ s hs hne
    rcases List.suffix_cons_iff.1 hs with rfl | hs
    · exact hhead
    · exact htail s hs hne

theorem nowhere_append {read : Text → Bool} {a b : Text} (h : Apart read a b) :
    Nowhere read (a ++ b) ↔ Nowhere read a ∧ Nowhere read b := by
  induction a with
  | nil => simp [nowhere_nil]
  | cons c a ih =>
    rw [List.cons_append, nowhere_cons, nowhere_cons, h.head, ih h.tail, and_assoc]

theorem nowhere_or {f g : Text → Bool} {t : Text} (hf : Nowhere f t) (hg : Nowhere g t) :
    Nowhere (fun s => f s || g s) t := by
  intro s hs hne
  simp only [hf s hs hne, hg s hs hne, Bool.or_self]

/-- What is read wherever a text goes on is missed in no part of a text. -/
theorem Nowhere.of_part {read : Text → Bool} {t u : Text}
    (hread : ∀ s b, read s = true → read (s ++ b) = true) (h : Nowhere read t) (hu : u <:+: t) :
    Nowhere read u := by
  obtain ⟨a, b, rfl⟩ := hu
  intro s hs hne
  by_contra hs'
  have hlong : read (s ++ b) = true := hread s b (by simpa using hs')
  obtain ⟨front, rfl⟩ := hs
  have hnot := h (s ++ b) ⟨a ++ front, by simp⟩ (by simp [hne])
  rw [hlong] at hnot
  contradiction

theorem locate_eq_none {occurs : Text → Bool} {t : Text} :
    locate occurs t = none ↔ Nowhere occurs t := by
  induction t with
  | nil => simp [locate, nowhere_nil]
  | cons c t ih =>
    rw [nowhere_cons, ← ih, locate]
    cases hc : occurs (c :: t) <;> simp

/-- What is recognised at the front of a text is spelled there, by some characters. -/
def Spelled (recognise : Text → Option α) (spelling : α → Text) : Prop :=
  ∀ t a, recognise t = some a → spelling a ≠ [] ∧ spelling a <+: t

/-- A text with something written in the place of every occurrence. -/
def written (write : α → Text) (ps : List (Piece α)) : Text :=
  ps.flatMap fun
    | .character c => [c]
    | .occurrence a => write a

@[simp] theorem written_nil (write : α → Text) : written write [] = [] := rfl

@[simp] theorem written_character (write : α → Text) (c : Char) (ps : List (Piece α)) :
    written write (.character c :: ps) = c :: written write ps := rfl

@[simp] theorem written_occurrence (write : α → Text) (a : α) (ps : List (Piece α)) :
    written write (.occurrence a :: ps) = write a ++ written write ps := rfl

@[simp] theorem written_append (write : α → Text) (ps qs : List (Piece α)) :
    written write (ps ++ qs) = written write ps ++ written write qs := List.flatMap_append

@[simp] theorem occurrences_nil : occurrences ([] : List (Piece α)) = [] := rfl

@[simp] theorem occurrences_character (c : Char) (ps : List (Piece α)) :
    occurrences (.character c :: ps) = occurrences ps := rfl

@[simp] theorem occurrences_occurrence (a : α) (ps : List (Piece α)) :
    occurrences (.occurrence a :: ps) = a :: occurrences ps := rfl

@[simp] theorem occurrences_append (ps qs : List (Piece α)) :
    occurrences (ps ++ qs) = occurrences ps ++ occurrences qs := List.filterMap_append

theorem written_congr {write write' : α → Text} {ps : List (Piece α)}
    (h : ∀ a ∈ occurrences ps, write a = write' a) : written write ps = written write' ps := by
  induction ps with
  | nil => rfl
  | cons piece ps ih =>
    cases piece with
    | character c => simpa using ih h
    | occurrence a =>
      rw [occurrences_occurrence, List.forall_mem_cons] at h
      rw [written_occurrence, written_occurrence, h.1, ih h.2]

/-- What is written for an occurrence stands in the text. -/
theorem part_written {write : α → Text} {ps : List (Piece α)} {a : α}
    (ha : a ∈ occurrences ps) : write a <:+: written write ps := by
  induction ps with
  | nil => simp at ha
  | cons piece ps ih =>
    cases piece with
    | character c => exact (ih ha).trans (List.suffix_cons c _).isInfix
    | occurrence b =>
      rcases List.mem_cons.1 ha with rfl | ha
      · exact (List.prefix_append _ _).isInfix
      · exact (ih ha).trans (List.suffix_append _ _).isInfix

/-- Where nothing is recognised, all pieces are characters. -/
theorem pieces_of_nowhere {recognise : Text → Option α} {spelling : α → Text} {t : Text}
    (hnot : Nowhere (fun s => (recognise s).isSome) t) :
    pieces recognise spelling t = t.map .character := by
  induction t with
  | nil => rfl
  | cons c t ih =>
    rw [nowhere_cons] at hnot
    have hread : recognise (c :: t) = none := by simpa using hnot.1
    rw [pieces_of_not_recognise _ _ _ _ hread, ih hnot.2, List.map_cons]

section

variable {recognise : Text → Option α} {spelling : α → Text} (h : Spelled recognise spelling)
include h

/-- A text begins with an occurrence, which is followed by the cut of the rest, or with a
character outside all. -/
theorem scan_induction {motive : Text → Prop} (nil : motive [])
    (character : ∀ c t, recognise (c :: t) = none → motive t → motive (c :: t))
    (occurrence : ∀ a rest, spelling a ≠ [] → recognise (spelling a ++ rest) = some a →
      motive rest → motive (spelling a ++ rest)) (t : Text) : motive t := by
  induction hlength : t.length using Nat.strong_induction_on generalizing t with
  | _ n ih =>
    subst hlength
    cases t with
    | nil => exact nil
    | cons c t =>
      cases hread : recognise (c :: t) with
      | none => exact character c t hread (ih _ (by simp) t rfl)
      | some a =>
        obtain ⟨hne, rest, hrest⟩ := h _ a hread
        have hlt : rest.length < (c :: t).length := by
          have hpos := List.length_pos_of_ne_nil hne
          rw [← hrest, List.length_append]
          omega
        rw [← hrest] at hread ⊢
        exact occurrence a rest hne hread (ih _ hlt rest rfl)

/-- Nothing of a text is lost in its pieces. -/
theorem written_pieces (t : Text) : written spelling (pieces recognise spelling t) = t := by
  induction t using scan_induction h with
  | nil => rfl
  | character c t hread ih =>
    rw [pieces_of_not_recognise _ _ _ _ hread, written_character, ih]
  | occurrence a rest hne hread ih =>
    rw [pieces_of_recognise _ _ _ _ hne hread, written_occurrence, ih]

theorem pieces_append {a b : Text} (hab : Apart recognise a b) :
    pieces recognise spelling (a ++ b) =
      pieces recognise spelling a ++ pieces recognise spelling b := by
  induction a using scan_induction h with
  | nil => rfl
  | character c t hread ih =>
    have hlong : recognise (c :: (t ++ b)) = none := hab.head.trans hread
    rw [List.cons_append, pieces_of_not_recognise _ _ _ _ hlong,
      pieces_of_not_recognise _ _ _ _ hread, ih hab.tail, List.cons_append]
  | occurrence x rest hne hread ih =>
    have hlong : recognise (spelling x ++ (rest ++ b)) = some x := by
      rw [← List.append_assoc, hab _ List.suffix_rfl (by simp [hne]), hread]
    rw [List.append_assoc, pieces_of_recognise _ _ _ _ hne hlong,
      pieces_of_recognise _ _ _ _ hne hread, ih (hab.of_suffix (List.suffix_append _ _)),
      List.cons_append]

theorem exists_recognise {t : Text} {a : α}
    (ha : a ∈ occurrences (pieces recognise spelling t)) : ∃ s, s <:+ t ∧ recognise s = some a := by
  induction t using scan_induction h with
  | nil => simp [pieces, piecesFrom] at ha
  | character c t hread ih =>
    rw [pieces_of_not_recognise _ _ _ _ hread, occurrences_character] at ha
    obtain ⟨s, hs, hrecognise⟩ := ih ha
    exact ⟨s, hs.trans (List.suffix_cons c t), hrecognise⟩
  | occurrence b rest hne hread ih =>
    rw [pieces_of_recognise _ _ _ _ hne hread, occurrences_occurrence] at ha
    rcases List.mem_cons.1 ha with rfl | ha
    · exact ⟨_, List.suffix_rfl, hread⟩
    · obtain ⟨s, hs, hrecognise⟩ := ih ha
      exact ⟨s, hs.trans (List.suffix_append _ _), hrecognise⟩

/-- There are no occurrences exactly where nothing is recognised. -/
theorem occurrences_eq_nil {t : Text} :
    occurrences (pieces recognise spelling t) = [] ↔ Nowhere (fun s => (recognise s).isSome) t := by
  induction t using scan_induction h with
  | nil => exact ⟨fun _ => nowhere_nil _, fun _ => rfl⟩
  | character c t hread ih =>
    rw [pieces_of_not_recognise _ _ _ _ hread, occurrences_character, ih, nowhere_cons, hread]
    simp
  | occurrence a rest hne hread ih =>
    rw [pieces_of_recognise _ _ _ _ hne hread, occurrences_occurrence]
    constructor
    · intro hnil
      contradiction
    · intro hnot
      have := hnot _ List.suffix_rfl (by simp [hne])
      simp [hread] at this

end

/-- A reading from inside a tag that sees neither past the end of the tag nor into a tag
that opens. -/
structure Bounded (read : Text → β) : Prop where
  opens : ∀ s b, read (s ++ '<' :: b) = read s
  closes : ∀ s b, read (s ++ '>' :: b) = read (s ++ ['>'])

/-- A reading that may begin where a tag opens, and stays inside the tag. -/
structure WithinTag (read : Text → β) : Prop where
  opens : ∀ s b, s ≠ [] → read (s ++ '<' :: b) = read s
  closes : ∀ s b, read (s ++ '>' :: b) = read (s ++ ['>'])

theorem bounded_const (b : β) : Bounded fun _ : Text => b := ⟨fun _ _ => rfl, fun _ _ => rfl⟩

theorem Bounded.map {γ : Type} {f : Text → β} (hf : Bounded f) (g : β → γ) :
    Bounded fun t => g (f t) where
  opens s rest := congrArg g (hf.opens s rest)
  closes s rest := congrArg g (hf.closes s rest)

theorem dropWhile_append_cons {p : Char → Bool} {c : Char} (hc : p c = false) (s rest : Text) :
    (s ++ c :: rest).dropWhile p = s.dropWhile p ++ c :: rest := by
  rw [List.dropWhile_append]
  split
  · next h => simp [List.isEmpty_iff.1 h, hc]
  · rfl

theorem Bounded.dropSpace {k : Text → β} (hk : Bounded k) :
    Bounded fun t => k (t.dropWhile Text.isSpace) where
  opens s rest := by
    rw [dropWhile_append_cons (by decide)]
    exact hk.opens _ rest
  closes s rest := by
    rw [dropWhile_append_cons (by decide), dropWhile_append_cons (by decide)]
    exact hk.closes _ rest

theorem Bounded.or {f g : Text → Bool} (hf : Bounded f) (hg : Bounded g) :
    Bounded fun t => f t || g t where
  opens s rest := by rw [hf.opens, hg.opens]
  closes s rest := by rw [hf.closes, hg.closes]

theorem Bounded.withinTag {f : Text → β} (hf : Bounded f) : WithinTag f :=
  ⟨fun s rest _ => hf.opens s rest, hf.closes⟩

theorem WithinTag.or {f g : Text → Bool} (hf : WithinTag f) (hg : WithinTag g) :
    WithinTag fun t => f t || g t where
  opens s rest hne := by rw [hf.opens s rest hne, hg.opens s rest hne]
  closes s rest := by rw [hf.closes, hg.closes]

theorem WithinTag.of_bounded {read : Text → β} (hbounded : ∀ c, Bounded fun t => read (c :: t))
    (hclose : ∀ b, read ('>' :: b) = read ['>']) : WithinTag read where
  opens s b hne := by
    obtain ⟨c, s, rfl⟩ := List.exists_cons_of_ne_nil hne
    exact (hbounded c).opens s b
  closes s b := by
    cases s with
    | nil => exact hclose b
    | cons c s => exact (hbounded c).closes s b

/-- A reading that may begin where a tag opens, from what it reads after its first character. -/
theorem withinTag_of_head {f k : Text → β} {b : β} {p : Char → Prop} [DecidablePred p]
    (hk : Bounded k) (hclose : ¬ p '>') (h : ∀ c t, f (c :: t) = if p c then k t else b) :
    WithinTag f := by
  apply WithinTag.of_bounded
  · intro c
    simp only [h]
    by_cases hc : p c
    · simpa only [hc, if_true] using hk
    · simpa only [hc, if_false] using bounded_const b
  · intro rest
    rw [h, h, if_neg hclose, if_neg hclose]

/-- Texts are apart where a tag opens. -/
theorem WithinTag.apart_open {read : Text → β} (h : WithinTag read) (a : Text) {b : Text}
    (hb : b.head? = some '<') : Apart read a b := by
  obtain ⟨b, rfl⟩ := List.head?_eq_some_iff.1 hb
  exact fun s _ hne => h.opens s b hne

theorem apart_of_closes {read : Text → β} (h : ∀ s b, read (s ++ '>' :: b) = read (s ++ ['>']))
    {a : Text} (b : Text) (ha : a.getLast? = some '>') : Apart read a b := by
  obtain ⟨a, rfl⟩ := List.getLast?_eq_some_iff.1 ha
  intro s hs hne
  rcases List.suffix_concat_iff.1 hs with rfl | ⟨s, rfl, -⟩
  · exact absurd rfl hne
  · rw [List.append_assoc, List.singleton_append, h]

/-- Texts are apart where a tag has ended. -/
theorem WithinTag.apart_close {read : Text → β} (h : WithinTag read) {a : Text} (b : Text)
    (ha : a.getLast? = some '>') : Apart read a b := apart_of_closes h.closes b ha

end AssessmentItems.Pieces
