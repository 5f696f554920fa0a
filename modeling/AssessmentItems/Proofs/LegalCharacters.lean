import AssessmentItems.Proofs.DecimalNumerals
import AssessmentItems.Proofs.SlotContents

/-!
The characters that may stand in an XML document, and the parts of which documents are made.
Escaping replaces characters that markup gives a meaning of its own. None of them is among the
characters that are not allowed, so an escaped text is legal exactly if the text is.
-/
namespace AssessmentItems.LegalCharacters

open Text Escaping SlotContents TextClasses

def isXmlChar (c : Char) : Bool :=
  let n := c.toNat
  n = 0x9 || n = 0xA || n = 0xD || (0x20 ≤ n && n ≤ 0xD7FF) || (0xE000 ≤ n && n ≤ 0xFFFD) ||
    (0x10000 ≤ n && n ≤ 0x10FFFF)

def Legal (t : Text) : Prop := ∀ c ∈ t, isXmlChar c = true

instance (t : Text) : Decidable (Legal t) :=
  decidable_of_iff (t.all isXmlChar = true) List.all_eq_true

def illegal : List ℕ := List.range 9 ++ [0xB, 0xC] ++ List.range' 0xE 18 ++ [0xFFFE, 0xFFFF]

theorem isXmlChar_eq_true_iff {c : Char} : isXmlChar c = true ↔ c.toNat ∉ illegal := by
  have hchar : c.toNat < 0xD800 ∨ 0xDFFF < c.toNat ∧ c.toNat < 0x110000 := c.valid
  simp only [isXmlChar, Bool.or_eq_true, Bool.and_eq_true, decide_eq_true_eq, illegal,
    List.mem_append, List.mem_range, List.mem_range'_1, List.mem_cons, List.not_mem_nil, or_false]
  omega

/-- The characters of a class are allowed if no other code point is in it. -/
theorem isXmlChar_of_class {p : ℕ → Bool} (hp : ∀ n ∈ illegal, p n = false) {c : Char}
    (h : p c.toNat = true) : isXmlChar c = true := by
  rw [isXmlChar_eq_true_iff]
  intro hmem
  rw [hp _ hmem] at h
  contradiction

theorem isXmlChar_of_isDigit {c : Char} (h : isDigit c = true) : isXmlChar c = true :=
  isXmlChar_of_class (p := fun n => CharacterTables.covers n CharacterTables.decimalDigits)
    (by decide +kernel) (Bool.and_eq_true_iff.1 h).1

theorem isXmlChar_of_isPlainLetter {c : Char} (h : isPlainLetter c = true) :
    isXmlChar c = true := by
  have hall : ∀ n ∈ letters, n ∉ illegal := by decide
  exact isXmlChar_eq_true_iff.2 (hall _ (toNat_mem_letters h))

@[simp] theorem legal_nil : Legal [] := fun _ hc => absurd hc List.not_mem_nil

@[simp] theorem legal_cons {c : Char} {t : Text} :
    Legal (c :: t) ↔ isXmlChar c = true ∧ Legal t := List.forall_mem_cons

@[simp] theorem legal_append {a b : Text} : Legal (a ++ b) ↔ Legal a ∧ Legal b :=
  List.forall_mem_append

theorem Legal.of_subset {a b : Text} (h : Legal b) (hsub : a ⊆ b) : Legal a :=
  fun c hc => h c (hsub hc)

theorem legal_flatMap {α : Type} {f : α → Text} {as : List α} :
    Legal (as.flatMap f) ↔ ∀ a ∈ as, Legal (f a) := by
  simp only [Legal, List.mem_flatMap]
  exact ⟨fun h a ha c hc => h c ⟨a, ha, hc⟩, fun h c ⟨a, ha, hc⟩ => h a ha c hc⟩

theorem legal_lines {parts : List Text} : Legal (lines parts) ↔ ∀ part ∈ parts, Legal part := by
  cases parts with
  | nil => simp [lines, join]
  | cons part rest =>
    rw [lines_cons, legal_append, legal_flatMap, List.forall_mem_cons]
    simp +decide only [legal_cons, true_and]

theorem legal_groupedLines {groups : List (List Text)} :
    Legal (groupedLines groups) ↔ ∀ group ∈ groups, ∀ line ∈ group, Legal line := by
  rw [groupedLines, legal_lines, List.forall_mem_flatten]

/-- Escaping neither hides nor replaces a character that is not allowed. -/
theorem legal_escapeText {t : Text} : Legal (escapeText t) ↔ Legal t := by
  have hentity : ∀ c, Legal (textEntity c) ↔ isXmlChar c = true := by
    intro c
    unfold textEntity
    split <;> simp +decide
  rw [escapeText, legal_flatMap]
  exact forall₂_congr fun c _ => hentity c

theorem legal_escapeAttribute {t : Text} : Legal (escapeAttribute t) ↔ Legal t := by
  have hentity : ∀ c, Legal (attributeEntity c) ↔ isXmlChar c = true := by
    intro c
    unfold attributeEntity
    split
    · simp +decide
    · simp +decide
    · simpa [escapeText] using legal_escapeText (t := [c])
  rw [escapeAttribute, legal_flatMap]
  exact forall₂_congr fun c _ => hentity c

theorem legal_plainDigits {t : Text} (h : ∀ c ∈ t, isPlainDigit c = true) : Legal t :=
  fun c hc => isXmlChar_of_isDigit (isDigit_of_isPlainDigit (h c hc))

@[simp] theorem legal_ofNat (n : ℕ) : Legal (ofNat n) :=
  legal_plainDigits fun _ hc => DecimalNumerals.isPlainDigit_of_mem_ofNat hc

@[simp] theorem legal_ofBool (b : Bool) : Legal (ofBool b) := by
  cases b <;> decide

@[simp] theorem legal_base64 (bytes : List UInt8) : Legal (Base64.encode bytes) :=
  Base64.forall_mem_encode (by decide) (by decide) bytes

end AssessmentItems.LegalCharacters
