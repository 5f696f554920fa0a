import AssessmentItems.CharacterTables

/-!
Text as a list of characters, the character classes that the formats speak of, and
texts kept in ascending order. The order is that of code points, which is also the
order of the UTF-8 encodings.
-/
namespace AssessmentItems

/-- A text is the sequence of its characters. -/
abbrev Text := List Char

instance : Coe String Text := ⟨String.toList⟩

/-- Texts that compare as equal are equal. -/
instance Text.instLawfulBEq : LawfulBEq Text := inferInstance

namespace Text

def isSpace (c : Char) : Bool := CharacterTables.covers c.toNat CharacterTables.whiteSpace

def isAlphanumeric (c : Char) : Bool :=
  CharacterTables.covers c.toNat CharacterTables.alphabetic ||
    CharacterTables.covers c.toNat CharacterTables.decimalDigits ||
    CharacterTables.covers c.toNat CharacterTables.otherNumbers

/-- A character of words that is too new for the rules on digits and words, which follow
version 16 of the standard. -/
def isRecent (c : Char) : Bool := CharacterTables.covers c.toNat CharacterTables.recent

/-- A decimal digit of any script. -/
def isDigit (c : Char) : Bool :=
  CharacterTables.covers c.toNat CharacterTables.decimalDigits && !isRecent c

/-- A character of a word; a word ends where the next character is none. -/
def isWord (c : Char) : Bool :=
  (CharacterTables.covers c.toNat CharacterTables.alphabetic ||
    CharacterTables.covers c.toNat CharacterTables.decimalDigits ||
    CharacterTables.covers c.toNat CharacterTables.wordMarks) && !isRecent c

/-- The letters `a` to `z` and `A` to `Z`. -/
def isPlainLetter (c : Char) : Bool :=
  ('a' ≤ c && c ≤ 'z') || ('A' ≤ c && c ≤ 'Z')

/-- The digits `0` to `9`. -/
def isPlainDigit (c : Char) : Bool := '0' ≤ c && c ≤ '9'

/-- Forgets case among the plain letters. The long s and the Kelvin sign are the only
other characters that fold to one. -/
def fold (c : Char) : Char :=
  if 'A' ≤ c ∧ c ≤ 'Z' then Char.ofNat (c.toNat + 32)
  else if c = '\u017f' then 's'
  else if c = '\u212a' then 'k'
  else c

def trimStart (t : Text) : Text := t.dropWhile isSpace

def trimEnd (t : Text) : Text := (t.reverse.dropWhile isSpace).reverse

def trim (t : Text) : Text := trimEnd (trimStart t)

/-- The text without its white space. -/
def compact (t : Text) : Text := t.filter (!isSpace ·)

def isBlank (t : Text) : Bool := t.all isSpace

/-- Whether no character of a word begins the text. -/
def endsWord : Text → Bool
  | [] => true
  | c :: _ => !isWord c

/-- The number of bytes of the UTF-8 encoding. -/
def byteSize (t : Text) : Nat := t.foldr (fun c size => c.utf8Size + size) 0

/-- The bytes of the UTF-8 encoding. -/
def bytes (t : Text) : List UInt8 := t.flatMap String.utf8EncodeChar

/-- The parts in order, with `separator` between neighbours. -/
def join (separator : Text) : List Text → Text
  | [] => []
  | [part] => part
  | part :: rest => part ++ separator ++ join separator rest

/-- The parts as lines; no line break follows the last. -/
def lines (parts : List Text) : Text := join ['\n'] parts

/-- The lines of several groups, one group after another. -/
def groupedLines (groups : List (List Text)) : Text := lines groups.flatten

/-- The rest of `t` after `start`, if `t` begins with it. -/
def after? : (start t : Text) → Option Text
  | [], t => some t
  | c :: start, d :: t => if c = d then after? start t else none
  | _ :: _, [] => none

/-- The rest of `t` after a spelling of `start` in any case; `start` is in lower case. -/
def afterFolded? : (start t : Text) → Option Text
  | [], t => some t
  | c :: start, d :: t => if c = fold d then afterFolded? start t else none
  | _ :: _, [] => none

/-- A natural number in decimal, without leading zeros. -/
def ofNat (n : Nat) : Text := Nat.toDigits 10 n

def ofInt : Int → Text
  | .ofNat n => ofNat n
  | .negSucc n => '-' :: ofNat (n + 1)

def ofBool (b : Bool) : Text := if b then "true" else "false"

/-- The number that a non-empty text of plain digits denotes. -/
def toNat? (t : Text) : Option Nat :=
  if t ≠ [] ∧ t.all isPlainDigit then some (Nat.ofDigitChars 10 t 0) else none

/-- Adds a text to an ascending list, unless it is there. -/
def insertAscending (t : Text) : List Text → List Text
  | [] => [t]
  | u :: rest =>
    if t < u then t :: u :: rest
    else if t = u then u :: rest
    else u :: insertAscending t rest

/-- The distinct texts of a list, in ascending order. -/
def ascending (ts : List Text) : List Text := ts.foldr insertAscending []

theorem mem_insertAscending {m t : Text} {ts : List Text} :
    m ∈ insertAscending t ts ↔ m = t ∨ m ∈ ts := by
  induction ts with
  | nil => simp [insertAscending]
  | cons u rest ih =>
    simp only [insertAscending]
    split
    · exact List.mem_cons
    · split
      · next heq => simp [heq]
      · simp [ih, or_left_comm]

theorem mem_ascending {m : Text} {ts : List Text} : m ∈ ascending ts ↔ m ∈ ts := by
  induction ts with
  | nil => simp [ascending]
  | cons t rest ih =>
    rw [List.mem_cons, ← ih]
    exact mem_insertAscending

theorem ascending_eq_nil {ts : List Text} : ascending ts = [] ↔ ts = [] := by
  simp only [List.eq_nil_iff_forall_not_mem, mem_ascending]

end Text
end AssessmentItems
