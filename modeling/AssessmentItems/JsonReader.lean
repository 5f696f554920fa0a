import AssessmentItems.JsonNumeral

/-!
Reading a JSON value from its text. A text is taken apart into tokens, and each token
moves a state that remembers the arrays and objects still open. A value that is only
passed over is read leniently: its numbers may be out of range, its strings may hold
lone surrogates, and it may be nested to any depth.
-/
namespace AssessmentItems.JsonReader

/-- Whether the value is wanted or only passed over. -/
inductive Mode where
  | strict
  | lenient
deriving Repr, DecidableEq

/-- A character of a string, or a code unit of UTF-16 that is written by its number. -/
inductive StringUnit where
  | character (c : Char)
  | codeUnit (n : Nat)
deriving Repr, DecidableEq

def hexDigit? (c : Char) : Option Nat :=
  if '0' ≤ c ∧ c ≤ '9' then some (c.toNat - 48)
  else if 'a' ≤ c ∧ c ≤ 'f' then some (c.toNat - 87)
  else if 'A' ≤ c ∧ c ≤ 'F' then some (c.toNat - 55)
  else none

def codeUnit? (a b c d : Char) : Option Nat := do
  some ((((← hexDigit? a) * 16 + (← hexDigit? b)) * 16 + (← hexDigit? c)) * 16 + (← hexDigit? d))

/-- The character that a letter stands for after a backslash. -/
def escape? : Char → Option Char
  | '"' => some '"'
  | '\\' => some '\\'
  | '/' => some '/'
  | 'b' => some '\x08'
  | 'f' => some '\x0c'
  | 'n' => some '\n'
  | 'r' => some '\r'
  | 't' => some '\t'
  | _ => none

/-- The units up to the closing quote, or to the first fault; then the text after the
quote, or the fault. -/
def units : Text → List StringUnit × Except JsonFault Text
  | [] => ([], .error .endOfText)
  | '"' :: t => ([], .ok t)
  | '\\' :: 'u' :: a :: b :: c :: d :: t =>
    match codeUnit? a b c d with
    | some n =>
      let (us, ending) := units t
      (.codeUnit n :: us, ending)
    | none => ([], .error .malformed)
  | '\\' :: 'u' :: t =>
    ([], .error (if Text.byteSize t < 4 then .endOfText else .malformed))
  | ['\\'] => ([], .error .endOfText)
  | '\\' :: c :: t =>
    match escape? c with
    | some e =>
      let (us, ending) := units t
      (.character e :: us, ending)
    | none => ([], .error .malformed)
  | c :: t =>
    if c.toNat < 32 then ([], .error .malformed)
    else
      let (us, ending) := units t
      (.character c :: us, ending)

def isLeading (n : Nat) : Bool := 0xD800 ≤ n && n ≤ 0xDBFF

def isTrailing (n : Nat) : Bool := 0xDC00 ≤ n && n ≤ 0xDFFF

/-- The fault of a leading surrogate that is the last unit before an ending. -/
def unpaired : Except JsonFault Text → JsonFault
  | .error .endOfText => .endOfText
  | _ => .malformed

/-- A result with one character more at its front. -/
def prepend (c : Char) (result : Except JsonFault (Text × Text)) : Except JsonFault (Text × Text) :=
  result.map fun (t, rest) => (c :: t, rest)

/-- The characters that units spell. A leading surrogate needs a trailing one after it,
and a trailing one a leading one before. -/
def assemble (ending : Except JsonFault Text) : List StringUnit → Except JsonFault (Text × Text)
  | [] => ending.map fun rest => ([], rest)
  | .character c :: us => prepend c (assemble ending us)
  | .codeUnit n :: us =>
    if isLeading n then
      match us with
      | .codeUnit m :: us =>
        if isTrailing m then
          prepend (Char.ofNat (0x10000 + (n - 0xD800) * 1024 + (m - 0xDC00))) (assemble ending us)
        else .error .malformed
      | .character _ :: _ => .error .malformed
      | [] => .error (unpaired ending)
    else if isTrailing n then .error .malformed
    else prepend (Char.ofNat n) (assemble ending us)

/-- Reads a string whose opening quote has been taken; one that is passed over counts as
empty. -/
def scanString (mode : Mode) (t : Text) : Except JsonFault (Text × Text) :=
  let (us, ending) := units t
  match mode with
  | .strict => assemble ending us
  | .lenient => ending.map fun rest => ([], rest)

inductive Token where
  | openArray
  | closeArray
  | openObject
  | closeObject
  | comma
  | colon
  | string (t : Text)
  | scalar (v : Json)
  | brokenString (fault : JsonFault)
  | brokenScalar (fault : JsonFault)
  | stray

/-- The rest of a text after the rest of a word. -/
def scanWord : (word t : Text) → Except JsonFault Text
  | [], t => .ok t
  | _ :: _, [] => .error .endOfText
  | c :: word, d :: t => if c = d then scanWord word t else .error .malformed

/-- Reads a number; one that is passed over counts as null. -/
def scanNumber (mode : Mode) (t : Text) : Except JsonFault (Json × Text) :=
  match mode, JsonNumeral.scan t with
  | .strict, .ok (numeral, rest) =>
    match numeral.value? with
    | some n => .ok (.number n, rest)
    | none => .error .malformed
  | .strict, .error fault => .error fault
  | .lenient, .ok (_, rest) => .ok (.null, rest)
  | .lenient, .error _ => .error .malformed

def wordToken (v : Json) : Except JsonFault Text → Token × Text
  | .ok rest => (.scalar v, rest)
  | .error fault => (.brokenScalar fault, [])

/-- The token that begins with `c` and goes on in `t`, and the text after it. -/
def token (mode : Mode) (c : Char) (t : Text) : Token × Text :=
  match c with
  | '[' => (.openArray, t)
  | ']' => (.closeArray, t)
  | '{' => (.openObject, t)
  | '}' => (.closeObject, t)
  | ',' => (.comma, t)
  | ':' => (.colon, t)
  | '"' =>
    match scanString mode t with
    | .ok (s, rest) => (.string s, rest)
    | .error fault => (.brokenString fault, [])
  | 'n' => wordToken .null (scanWord "ull" t)
  | 't' => wordToken (.bool true) (scanWord "rue" t)
  | 'f' => wordToken (.bool false) (scanWord "alse" t)
  | _ =>
    if c = '-' ∨ Text.isPlainDigit c then
      match scanNumber mode (c :: t) with
      | .ok (v, rest) => (.scalar v, rest)
      | .error fault => (.brokenScalar fault, [])
    else (.stray, [])

private theorem length_dropWhile_le_self (p : Char → Bool) (t : Text) :
    (t.dropWhile p).length ≤ t.length :=
  (List.dropWhile_sublist p).length_le

theorem units_length (t rest : Text) (h : (units t).2 = .ok rest) :
    rest.length < t.length := by
  fun_induction units t <;> simp_all <;> omega

private theorem of_prepend_eq_ok {c : Char} {r : Except JsonFault (Text × Text)} {s rest : Text}
    (h : prepend c r = .ok (s, rest)) : ∃ t, r = .ok (t, rest) := by
  cases r with
  | error e => simp [prepend, Except.map] at h
  | ok v =>
    simp only [prepend, Except.map, Except.ok.injEq, Prod.mk.injEq] at h
    exact ⟨v.1, by rw [← h.2]⟩

theorem assemble_ending (ending : Except JsonFault Text) (us : List StringUnit) (s rest : Text)
    (h : assemble ending us = .ok (s, rest)) : ending = .ok rest := by
  fun_induction assemble ending us generalizing s with
  | case1 => cases ending <;> simp_all [Except.map]
  | case2 c us ih =>
    obtain ⟨t, ht⟩ := of_prepend_eq_ok h
    exact ih t ht
  | case3 n hn m us hm ih =>
    obtain ⟨t, ht⟩ := of_prepend_eq_ok h
    exact ih t ht
  | case8 n us hn hm ih =>
    obtain ⟨t, ht⟩ := of_prepend_eq_ok h
    exact ih t ht
  | _ => contradiction

theorem scanString_length (mode : Mode) (t s rest : Text)
    (h : scanString mode t = .ok (s, rest)) : rest.length < t.length := by
  apply units_length
  cases mode with
  | strict => exact assemble_ending _ _ _ _ h
  | lenient =>
    simp only [scanString] at h
    cases he : (units t).2 with
    | error e => simp [he, Except.map] at h
    | ok r => simp_all [Except.map]

theorem scanWord_length (word t rest : Text) (h : scanWord word t = .ok rest) :
    rest.length ≤ t.length := by
  fun_induction scanWord word t with
  | case1 t => simp_all
  | case3 word d t ih => simpa using Nat.le_succ_of_le (ih h)
  | _ => contradiction

theorem scanNumber_length (mode : Mode) (t rest : Text) (v : Json)
    (h : scanNumber mode t = .ok (v, rest)) : rest.length < t.length := by
  unfold scanNumber at h
  cases hn : JsonNumeral.scan t with
  | error e => cases mode <;> simp [hn] at h
  | ok r =>
    obtain ⟨numeral, rest'⟩ := r
    have hlt := JsonNumeral.scan_length hn
    cases mode with
    | lenient => simp_all
    | strict => cases hv : numeral.value? <;> simp_all

private theorem wordToken_length (v : Json) (word t : Text) :
    (wordToken v (scanWord word t)).2.length ≤ t.length := by
  cases h : scanWord word t with
  | error e => simp [wordToken]
  | ok rest => exact scanWord_length word t rest h

/-- A token takes at least the character that it begins with. -/
theorem token_length (mode : Mode) (c : Char) (t : Text) :
    (token mode c t).2.length ≤ t.length := by
  unfold token
  split
  case h_7 =>
    cases h : scanString mode t with
    | error e => simp
    | ok r => exact Nat.le_of_lt (scanString_length mode t r.1 r.2 h)
  case h_8 => exact wordToken_length _ _ _
  case h_9 => exact wordToken_length _ _ _
  case h_10 => exact wordToken_length _ _ _
  case h_11 =>
    split
    · cases h : scanNumber mode (c :: t) with
      | error e => simp
      | ok r => exact Nat.le_of_lt_succ (scanNumber_length mode (c :: t) r.2 r.1 h)
    · simp
  all_goals exact Nat.le_refl _

/-- An array or object that is still open; what it holds so far comes latest first. -/
inductive Frame where
  | array (elements : List Json)
  | member (members : List (Text × Json)) (key : Text)

/-- What may follow, and the arrays and objects around it. -/
inductive State where
  | value (outer : List Frame)
  | firstElement (outer : List Frame)
  | key (first : Bool) (members : List (Text × Json)) (outer : List Frame)
  | colon (members : List (Text × Json)) (key : Text) (outer : List Frame)
  | afterElement (elements : List Json) (outer : List Frame)
  | afterMember (members : List (Text × Json)) (outer : List Frame)
  | finished (v : Json)

/-- The most arrays and objects that may be open at one time around a wanted value. -/
def deepest : Nat := 127

/-- Whether another array or object may be opened. -/
def mayOpen (mode : Mode) (outer : List Frame) : Bool :=
  mode = .lenient || outer.length < deepest

/-- Gives a complete value to the array or object that holds it. -/
def deliver (v : Json) : List Frame → State
  | [] => .finished v
  | .array elements :: outer => .afterElement (v :: elements) outer
  | .member members key :: outer => .afterMember ((key, v) :: members) outer

/-- The state after the first token of a value. -/
def startValue (mode : Mode) (outer : List Frame) : Token → Except JsonFault State
  | .string t => .ok (deliver (.string t) outer)
  | .scalar v => .ok (deliver v outer)
  | .openArray => if mayOpen mode outer then .ok (.firstElement outer) else .error .malformed
  | .openObject => if mayOpen mode outer then .ok (.key true [] outer) else .error .malformed
  | .brokenString fault => .error fault
  | .brokenScalar fault => .error fault
  | _ => .error .malformed

def step (mode : Mode) : State → Token → Except JsonFault State
  | .value outer, t => startValue mode outer t
  | .firstElement outer, .closeArray => .ok (deliver (.array []) outer)
  | .firstElement outer, t => startValue mode (.array [] :: outer) t
  | .key true [] outer, .closeObject => .ok (deliver (.object []) outer)
  | .key _ members outer, .string key => .ok (.colon members key outer)
  | .key _ _ _, .brokenString fault => .error fault
  | .colon members key outer, .colon => .ok (.value (.member members key :: outer))
  | .afterElement elements outer, .comma => .ok (.value (.array elements :: outer))
  | .afterElement elements outer, .closeArray => .ok (deliver (.array elements.reverse) outer)
  | .afterMember members outer, .comma => .ok (.key false members outer)
  | .afterMember members outer, .closeObject => .ok (deliver (.object members.reverse) outer)
  | _, _ => .error .malformed

/-- White space between tokens: blanks, tabs and line ends only. -/
def isGap (c : Char) : Bool := c = ' ' || c = '\t' || c = '\n' || c = '\r'

def skipGap (t : Text) : Text := t.dropWhile isGap

/-- Reads tokens until the value is finished; the value and the text after it. -/
def readFrom (mode : Mode) (state : State) (text : Text) : Except JsonFault (Json × Text) :=
  match _gap : skipGap text with
  | [] => .error .endOfText
  | c :: t =>
    match step mode state (token mode c t).1 with
    | .error fault => .error fault
    | .ok (.finished v) => .ok (v, (token mode c t).2)
    | .ok state => readFrom mode state (token mode c t).2
termination_by text.length
decreasing_by
  have htoken := token_length mode c t
  have hgap := length_dropWhile_le_self isGap text
  rw [← skipGap, _gap, List.length_cons] at hgap
  omega

theorem readFrom_length (mode : Mode) (state : State) (text rest : Text) (v : Json)
    (h : readFrom mode state text = .ok (v, rest)) : rest.length < text.length := by
  fun_induction readFrom mode state text with
  | case1 => contradiction
  | case2 => contradiction
  | case3 state text c t hgap v' hstep =>
    have htoken := token_length mode c t
    have hle := length_dropWhile_le_self isGap text
    rw [← skipGap, hgap, List.length_cons] at hle
    simp only [Except.ok.injEq, Prod.mk.injEq] at h
    rw [← h.2]
    omega
  | case4 state text c t hgap state' hne hstep ih =>
    have htoken := token_length mode c t
    have hle := length_dropWhile_le_self isGap text
    rw [← skipGap, hgap, List.length_cons] at hle
    have hlt := ih h
    omega

/-- Reads the value at the front of a text. -/
def readValue (mode : Mode) (t : Text) : Except JsonFault (Json × Text) :=
  readFrom mode (.value []) t

/-- A value takes at least one character. -/
theorem readValue_length {mode : Mode} {t rest : Text} {v : Json}
    (h : readValue mode t = .ok (v, rest)) : rest.length < t.length :=
  readFrom_length mode (.value []) t rest v h

/-- The value of a text that holds one value and nothing else but white space. -/
def parse (t : Text) : Except JsonFault Json := do
  let (v, rest) ← readValue .strict t
  if skipGap rest = [] then .ok v else .error .malformed

/-- The data that a text denotes: of members with one key the last counts. -/
def read (t : Text) : Except JsonFault Json := (parse t).map Json.ordered

end AssessmentItems.JsonReader
