import AssessmentItems.Text
import Mathlib.Data.List.Basic
import Mathlib.Data.List.TakeWhile
import Mathlib.Order.Basic

/-!
Facts on the classes of characters and on white space. White space, digits of any
script and plain letters exclude one another. Removing white space is compatible with
concatenation and does not see what trimming cuts off.
-/
namespace AssessmentItems.TextClasses

open Text CharacterTables

/-- What holds of every character of a fixed text can be computed. -/
theorem forall_mem_of_all {p : Char → Prop} [DecidablePred p] {t : Text}
    (h : t.all (p ·) = true) : ∀ c ∈ t, p c := by
  simpa using h

def ranges : List ℕ → List (ℕ × ℕ)
  | first :: past :: rest => (first, past) :: ranges rest
  | _ => []

theorem exists_range {n : ℕ} (table : List ℕ) (heven : table.length % 2 = 0)
    (h : covers n table = true) : ∃ r ∈ ranges table, r.1 ≤ n ∧ n < r.2 := by
  induction table using covers.induct (n := n) with
  | case1 first past rest hlt => simp [covers, hlt] at h
  | case2 first past rest hle hlt =>
    exact ⟨(first, past), List.mem_cons_self, Nat.le_of_not_lt hle, hlt⟩
  | case3 first past rest hle hge ih =>
    simp only [covers, hle, hge, if_false] at h
    simp only [List.length_cons] at heven
    obtain ⟨r, hr, hbounds⟩ := ih (by omega) h
    exact ⟨r, List.mem_cons_of_mem _ hr, hbounds⟩
  | case4 first => simp at heven
  | case5 => simp [covers] at h

def spaces : List ℕ := (ranges whiteSpace).flatMap fun r => List.range' r.1 (r.2 - r.1)

def letters : List ℕ := List.range' 65 26 ++ List.range' 97 26

theorem toNat_mem_spaces {c : Char} (h : isSpace c = true) : c.toNat ∈ spaces := by
  obtain ⟨r, hr, hle, hlt⟩ := exists_range whiteSpace rfl h
  exact List.mem_flatMap.2 ⟨r, hr, List.mem_range'_1.2 ⟨hle, by omega⟩⟩

theorem toNat_mem_letters {c : Char} (h : isPlainLetter c = true) : c.toNat ∈ letters := by
  simp only [isPlainLetter, Bool.or_eq_true, Bool.and_eq_true, decide_eq_true_eq, Char.le_def,
    UInt32.le_iff_toNat_le] at h
  have ha : 'a'.val.toNat = 97 := rfl
  have hz : 'z'.val.toNat = 122 := rfl
  have hA : 'A'.val.toNat = 65 := rfl
  have hZ : 'Z'.val.toNat = 90 := rfl
  have hc : c.val.toNat = c.toNat := rfl
  simp only [letters, List.mem_append, List.mem_range'_1]
  omega

theorem isDigit_of_isSpace {c : Char} (h : isSpace c = true) : isDigit c = false := by
  have hall : ∀ n ∈ spaces, covers n decimalDigits = false := by decide
  rw [isDigit, hall _ (toNat_mem_spaces h), Bool.false_and]

theorem isDigit_of_isPlainLetter {c : Char} (h : isPlainLetter c = true) :
    isDigit c = false := by
  have hall : ∀ n ∈ letters, covers n decimalDigits = false := by decide
  rw [isDigit, hall _ (toNat_mem_letters h), Bool.false_and]

theorem isSpace_of_isPlainLetter {c : Char} (h : isPlainLetter c = true) :
    isSpace c = false := by
  have hall : ∀ n ∈ letters, covers n whiteSpace = false := by decide
  exact hall _ (toNat_mem_letters h)

theorem isSpace_of_isDigit {c : Char} (h : isDigit c = true) : isSpace c = false := by
  by_contra hc
  simp [isDigit_of_isSpace (by simpa using hc)] at h

theorem isDigit_of_isPlainDigit {c : Char} (h : isPlainDigit c = true) : isDigit c = true := by
  have hall : ∀ n ∈ List.range' 48 10, (covers n decimalDigits && !covers n recent) = true := by
    decide
  simp only [isPlainDigit, Bool.and_eq_true, decide_eq_true_eq, Char.le_def,
    UInt32.le_iff_toNat_le] at h
  have hzero : '0'.val.toNat = 48 := rfl
  have hnine : '9'.val.toNat = 57 := rfl
  rw [hzero, hnine] at h
  have hmem : c.toNat ∈ List.range' 48 10 := List.mem_range'_1.2 ⟨h.1, Nat.lt_succ_of_le h.2⟩
  exact hall _ hmem

theorem isPlainLetter_of_isDigit {c : Char} (h : isDigit c = true) :
    isPlainLetter c = false := by
  by_contra hc
  simp [isDigit_of_isPlainLetter (by simpa using hc)] at h

@[simp] theorem compact_nil : compact [] = [] := rfl

theorem compact_cons_of_isSpace {c : Char} {t : Text} (h : isSpace c = true) :
    compact (c :: t) = compact t := by simp [compact, h]

theorem compact_cons_of_not_isSpace {c : Char} {t : Text} (h : isSpace c = false) :
    compact (c :: t) = c :: compact t := by simp [compact, h]

@[simp] theorem compact_append (t u : Text) : compact (t ++ u) = compact t ++ compact u :=
  List.filter_append t u

@[simp] theorem compact_compact (t : Text) : compact (compact t) = compact t := by
  simp [compact]

theorem mem_compact {c : Char} {t : Text} : c ∈ compact t ↔ c ∈ t ∧ isSpace c = false := by
  simp [compact]

theorem compact_eq_self {t : Text} (h : ∀ c ∈ t, isSpace c = false) : compact t = t :=
  List.filter_eq_self.2 fun c hc => by simp [h c hc]

theorem compact_eq_nil {t : Text} (h : ∀ c ∈ t, isSpace c = true) : compact t = [] :=
  List.filter_eq_nil_iff.2 fun c hc => by simp [h c hc]

/-- White space at the front, and a rest that begins with none. -/
theorem exists_dropWhile (t : Text) :
    ∃ gap, (∀ c ∈ gap, isSpace c = true) ∧ t = gap ++ t.dropWhile isSpace :=
  ⟨t.takeWhile isSpace, fun _ hc => List.mem_takeWhile_imp hc,
    (List.takeWhile_append_dropWhile).symm⟩

theorem compact_dropWhile (t : Text) : compact (t.dropWhile isSpace) = compact t := by
  obtain ⟨gap, hgap, ht⟩ := exists_dropWhile t
  have hcompact := congrArg compact ht
  rw [compact_append, compact_eq_nil hgap, List.nil_append] at hcompact
  exact hcompact.symm

/-- The first character that is no white space comes first once it is removed. -/
theorem compact_of_dropWhile {t rest : Text} {c : Char}
    (h : t.dropWhile isSpace = c :: rest) : compact t = c :: compact rest := by
  have hc : isSpace c = false := by
    have := List.head?_dropWhile_not isSpace t
    rw [h] at this
    simpa using this
  rw [← compact_dropWhile, h, compact_cons_of_not_isSpace hc]

theorem exists_trim (t : Text) :
    ∃ before after, (∀ c ∈ before, isSpace c = true) ∧ (∀ c ∈ after, isSpace c = true) ∧
      t = before ++ trim t ++ after := by
  obtain ⟨before, hbefore, ht⟩ := exists_dropWhile t
  obtain ⟨gap, hgap, hrev⟩ := exists_dropWhile (t.dropWhile isSpace).reverse
  refine ⟨before, gap.reverse, hbefore, fun c hc => hgap c (List.mem_reverse.1 hc), ?_⟩
  have hend := congrArg List.reverse hrev
  rw [List.reverse_reverse, List.reverse_append] at hend
  rw [List.append_assoc, trim, trimEnd, trimStart, ← hend, ← ht]

@[simp] theorem compact_trim (t : Text) : compact (trim t) = compact t := by
  obtain ⟨before, after, hbefore, hafter, ht⟩ := exists_trim t
  have hcompact := congrArg compact ht
  simp only [compact_append, compact_eq_nil hbefore, compact_eq_nil hafter, List.nil_append,
    List.append_nil] at hcompact
  exact hcompact.symm

/-- A text is trimmed if neither of its ends is white space. -/
theorem trim_eq_self {t : Text} (hhead : ∀ c ∈ t.head?, isSpace c = false)
    (hlast : ∀ c ∈ t.getLast?, isSpace c = false) : trim t = t := by
  have hstart : trimStart t = t := by
    cases t with
    | nil => rfl
    | cons c t => simp [trimStart, hhead c rfl]
  rw [trim, hstart, trimEnd]
  cases hrev : t.reverse with
  | nil => simpa using hrev.symm
  | cons c u =>
    have hc : isSpace c = false := by
      refine hlast c ?_
      rw [← List.head?_reverse, hrev]
      rfl
    rw [List.dropWhile_cons_of_neg (by simp [hc]), ← hrev, List.reverse_reverse]

/-- A trimmed text neither begins nor ends with white space. -/
theorem trim_ends (t : Text) :
    (∀ c ∈ (trim t).head?, isSpace c = false) ∧ ∀ c ∈ (trim t).getLast?, isSpace c = false := by
  have hdrop : ∀ u : Text, ∀ c ∈ (u.dropWhile isSpace).head?, isSpace c = false := by
    intro u c hc
    have h := List.head?_dropWhile_not isSpace u
    rw [hc] at h
    simpa using h
  constructor
  · intro c hc
    obtain ⟨after, -, hsplit⟩ := exists_dropWhile (trimStart t).reverse
    have hsplit := congrArg List.reverse hsplit
    rw [List.reverse_reverse, List.reverse_append] at hsplit
    refine hdrop t c ?_
    change c ∈ (trimStart t).head?
    rw [hsplit, List.head?_append]
    change c ∈ ((trim t).head?.or after.reverse.head?)
    rw [hc]
    rfl
  · intro c hc
    rw [trim, trimEnd, List.getLast?_reverse] at hc
    exact hdrop _ c hc

@[simp] theorem trim_trim (t : Text) : trim (trim t) = trim t :=
  trim_eq_self (trim_ends t).1 (trim_ends t).2

theorem trim_of_compact {t : Text} (h : ∀ c ∈ t, isSpace c = false) : trim t = t :=
  trim_eq_self (fun c hc => h c (List.mem_of_mem_head? hc))
    (fun c hc => h c (List.mem_of_getLast? hc))

end AssessmentItems.TextClasses
