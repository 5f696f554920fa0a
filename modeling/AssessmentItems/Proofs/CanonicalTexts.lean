import AssessmentItems.Digest
import AssessmentItems.Proofs.ByteOrder
import AssessmentItems.Proofs.DecimalNumerals
import AssessmentItems.Proofs.Denotations
import AssessmentItems.Proofs.JsonTokens
import AssessmentItems.Proofs.ReadDepth
import AssessmentItems.Proofs.WrittenValues

/-!
The canonical text as a normal form. It is read as the value in order, so two values have the
same canonical text exactly if they say the same. In it the keys of every object ascend, and no
white space stands outside a string. Numbers are taken to be integers of 64 bits, whose numerals
are read as the integers again.
-/
namespace AssessmentItems.CanonicalTexts

open Text TextClasses JsonReader JsonWriter JsonValues WrittenValues Denotations JsonTokens

section

open JsonNumeral DecimalNumerals

/-- A number is an integer, with or without a sign, that fits into 64 bits. No numeral with a
point or an exponent is read as one, nor is `-0`. -/
def IsInteger (n : JsonNumber) : Prop := ∃ i : ℤ, n = .integer i ∧ -2 ^ 63 ≤ i ∧ i < 2 ^ 64

theorem absorbDigits_eq {t : Text} {n : ℕ} (h : Nat.ofDigitChars 10 t n < 2 ^ 64) :
    absorbDigits n t = (Nat.ofDigitChars 10 t n, []) := by
  induction t generalizing n with
  | nil => rfl
  | cons c t ih =>
    rw [Nat.ofDigitChars_cons] at h ⊢
    have hnext : 10 * n + (c.toNat - '0'.toNat) < Nat.pow 2 64 := by
      refine Nat.lt_of_le_of_lt ?_ h
      rw [Nat.ofDigitChars_eq_ofDigitChars_zero]
      have hpos : 1 ≤ 10 ^ t.length := Nat.one_le_pow _ _ (by decide)
      exact Nat.le_add_right_of_le (Nat.le_mul_of_pos_left _ hpos)
    rw [absorbDigits, if_pos hnext, ih h]

/-- The digits of a number are a whole numeral. -/
theorem scanUnsigned_ofNat (negative : Bool) (n : ℕ) :
    scanUnsigned negative (ofNat n) = .ok (⟨negative, ofNat n, none, none⟩, []) := by
  have hrun : ∀ c ∈ ofNat n, isPlainDigit c = true := fun c hc => isPlainDigit_of_mem_ofNat hc
  have htake : (ofNat n).takeWhile isPlainDigit = ofNat n := List.takeWhile_eq_self_iff.2 hrun
  have hdrop : (ofNat n).dropWhile isPlainDigit = [] := List.dropWhile_eq_nil_iff.2 hrun
  have hdigits : scanDigits (ofNat n) = .ok (ofNat n, []) := by
    simp only [scanDigits, htake, hdrop, if_pos (ofNat_ne_nil n)]
  have hwhole : scanWhole (ofNat n) = .ok (ofNat n, []) := by
    refine Results.bind_eq_ok.2 ⟨_, hdigits, ?_⟩
    dsimp only
    split
    · next heq => exact absurd (ofNat_cons_zero heq).2 (List.cons_ne_nil _ _)
    · rfl
  exact Results.bind_eq_ok.2 ⟨_, hwhole, rfl⟩

theorem value?_ofNat {negative : Bool} {n : ℕ} (hn : n < 2 ^ 64)
    (hnegative : negative = true → 0 < n ∧ n ≤ 2 ^ 63) :
    (⟨negative, ofNat n, none, none⟩ : JsonNumeral).value? =
      some (.integer (if negative then -n else n)) := by
  have hvalue : Nat.ofDigitChars 10 (ofNat n) 0 = n := digitsValue_ofNat n
  have habsorb := absorbDigits_eq (hvalue.symm ▸ hn)
  rw [hvalue] at habsorb
  simp only [value?, habsorb]
  rw [if_pos ⟨trivial, trivial, trivial, hnegative⟩]

theorem scan_ofNat (n : ℕ) : scan (ofNat n) = scanUnsigned false (ofNat n) := by
  unfold scan
  split
  · next heq =>
    have hdigit := isPlainDigit_of_mem_ofNat (heq ▸ List.mem_cons_self)
    exact absurd hdigit (by decide)
  · rfl

theorem scanNumber_eq {t : Text} {numeral : JsonNumeral} {n : JsonNumber}
    (hscan : scan t = .ok (numeral, [])) (hvalue : numeral.value? = some n) :
    scanNumber .strict t = .ok (.number n, []) := by
  simp only [scanNumber, hscan, hvalue]

/-- The numeral of an integer is read as the integer. -/
theorem rereads_of_isInteger {n : JsonNumber} (h : IsInteger n) : Rereads n := by
  obtain ⟨i, rfl, hlow, hhigh⟩ := h
  cases i with
  | ofNat n =>
    have hn : n < 2 ^ 64 := by
      rw [Int.ofNat_eq_natCast] at hhigh
      exact_mod_cast hhigh
    exact scanNumber_eq ((scan_ofNat n).trans (scanUnsigned_ofNat false n)) (value?_ofNat hn nofun)
  | negSucc n =>
    have hn : n + 1 ≤ 2 ^ 63 := by
      rw [Int.negSucc_eq] at hlow
      omega
    exact scanNumber_eq (t := '-' :: ofNat (n + 1)) (scanUnsigned_ofNat true (n + 1))
      (value?_ofNat (by omega) fun _ => ⟨Nat.succ_pos n, hn⟩)

end

mutual

/-- The characters of a text that stand outside its strings, the quotes left out. -/
def unquoted : Text → Text
  | [] => []
  | '"' :: t => afterString t
  | c :: t => c :: unquoted t

def afterString : Text → Text
  | [] => []
  | '"' :: t => unquoted t
  | '\\' :: _ :: t => afterString t
  | _ :: t => afterString t

end

/-- No white space stands outside the strings of a text. -/
def Tight (t : Text) : Prop := ∀ c ∈ unquoted t, isSpace c = false

theorem afterString_cons {c : Char} (hquote : c ≠ '"') (hescape : c ≠ '\\') (t : Text) :
    afterString (c :: t) = afterString t := by
  rw [afterString.eq_def]
  split
  all_goals simp_all

/-- What is written for a character stays inside the string. -/
theorem afterString_writeCharacter (c : Char) (t : Text) :
    afterString (writeCharacter c ++ t) = afterString t := by
  have hdigit : ∀ n < 16, Nat.digitChar n ≠ '"' ∧ Nat.digitChar n ≠ '\\' := by decide
  unfold writeCharacter
  split
  case h_8 hquote hescape _ _ _ _ _ =>
    split_ifs with hcontrol
    · obtain ⟨hhigh, hhigh'⟩ := hdigit (c.toNat / 16) (by omega)
      obtain ⟨hlow, hlow'⟩ := hdigit (c.toNat % 16) (by omega)
      change afterString ('0' :: '0' :: Nat.digitChar (c.toNat / 16) ::
        Nat.digitChar (c.toNat % 16) :: t) = _
      rw [afterString_cons (by decide) (by decide), afterString_cons (by decide) (by decide),
        afterString_cons hhigh hhigh', afterString_cons hlow hlow']
    · exact afterString_cons hquote hescape t
  all_goals rfl

theorem unquoted_writeString (t rest : Text) :
    unquoted (writeString t ++ rest) = unquoted rest := by
  rw [writeString_append, unquoted]
  induction t with
  | nil => rfl
  | cons c t ih => rw [List.flatMap_cons, List.append_assoc, afterString_writeCharacter, ih]

theorem Tight.cons {c : Char} {t : Text} (hc : c ≠ '"' ∧ isSpace c = false) (h : Tight t) :
    Tight (c :: t) := by
  have htext : unquoted (c :: t) = c :: unquoted t := by
    rw [unquoted.eq_def]
    split
    all_goals simp_all
  rw [Tight, htext, List.forall_mem_cons]
  exact ⟨hc.2, h⟩

theorem Tight.append {front rest : Text} (hfront : ∀ c ∈ front, c ≠ '"' ∧ isSpace c = false)
    (h : Tight rest) : Tight (front ++ rest) := by
  induction front with
  | nil => exact h
  | cons c front ih =>
    obtain ⟨hc, hfront⟩ := List.forall_mem_cons.1 hfront
    exact (ih hfront).cons hc

theorem Tight.string {rest : Text} (h : Tight rest) (t : Text) : Tight (writeString t ++ rest) := by
  rw [Tight, unquoted_writeString]
  exact h

theorem tight_integer {n : JsonNumber} (h : IsInteger n) {rest : Text} (hrest : Tight rest) :
    Tight (writeNumber n ++ rest) := by
  have hdigit : ∀ k, ∀ c ∈ ofNat k, c ≠ '"' ∧ isSpace c = false := by
    intro k c hc
    have hdigit := DecimalNumerals.isPlainDigit_of_mem_ofNat hc
    refine ⟨?_, TextClasses.isSpace_of_isDigit (TextClasses.isDigit_of_isPlainDigit hdigit)⟩
    rintro rfl
    exact absurd hdigit (by decide)
  obtain ⟨i, rfl, -⟩ := h
  cases i with
  | ofNat k => exact Tight.append (hdigit k) hrest
  | negSucc k => exact (Tight.append (hdigit (k + 1)) hrest).cons (by decide)

theorem tight_writeElements {elements : List Json} {rest : Text}
    (h : ∀ v ∈ elements, ∀ rest, Tight rest → Tight (write v ++ rest)) (hrest : Tight rest) :
    Tight (writeElements elements ++ rest) := by
  induction elements with
  | nil => exact hrest
  | cons v elements ih =>
    obtain ⟨hv, helements⟩ := List.forall_mem_cons.1 h
    cases elements with
    | nil => exact hv rest hrest
    | cons w elements =>
      rw [writeElements, List.append_assoc]
      · exact hv _ (Tight.cons (by decide) (ih helements))
      · exact List.cons_ne_nil w elements

theorem tight_writeMembers {members : List (Text × Json)} {rest : Text}
    (h : ∀ m ∈ members, ∀ rest, Tight rest → Tight (write m.2 ++ rest)) (hrest : Tight rest) :
    Tight (writeMembers members ++ rest) := by
  induction members with
  | nil => exact hrest
  | cons m members ih =>
    obtain ⟨k, v⟩ := m
    obtain ⟨hv, hmembers⟩ := List.forall_mem_cons.1 h
    cases members with
    | nil =>
      rw [writeMembers, List.append_assoc]
      exact ((hv rest hrest).cons (by decide)).string k
    | cons m members =>
      rw [writeMembers, List.append_assoc, List.cons_append, List.append_assoc]
      · exact ((hv _ (Tight.cons (by decide) (ih hmembers))).cons (by decide)).string k
      · exact List.cons_ne_nil m members

/-- No white space is written outside strings. -/
theorem tight_write {v : Json} (h : ∀ n ∈ numbers v, IsInteger n) {rest : Text}
    (hrest : Tight rest) : Tight (write v ++ rest) := by
  induction v using parts_induction generalizing rest with
  | null => exact Tight.append (forall_mem_of_all (by decide)) hrest
  | bool b => cases b <;> exact Tight.append (forall_mem_of_all (by decide)) hrest
  | number n => exact tight_integer (h n (List.mem_singleton.2 rfl)) hrest
  | string t => exact hrest.string t
  | array elements ih =>
    have hparts : ∀ v ∈ elements, ∀ n ∈ numbers v, IsInteger n :=
      fun v hv n hn => h n (mem_numbers_array.2 ⟨v, hv, hn⟩)
    have htext :
        write (.array elements) ++ rest = '[' :: (writeElements elements ++ ']' :: rest) := by
      simp [write]
    rw [htext]
    refine Tight.cons (by decide) (tight_writeElements (fun v hv rest => ?_) ?_)
    · exact ih v hv (hparts v hv)
    · exact hrest.cons (by decide)
  | object members ih =>
    have hparts : ∀ m ∈ members, ∀ n ∈ numbers m.2, IsInteger n :=
      fun m hm n hn => h n (mem_numbers_object.2 ⟨m, hm, hn⟩)
    have htext :
        write (.object members) ++ rest = '{' :: (writeMembers members ++ '}' :: rest) := by
      simp [write]
    rw [htext]
    refine Tight.cons (by decide) (tight_writeMembers (fun m hm rest => ?_) ?_)
    · exact ih m hm (hparts m hm)
    · exact hrest.cons (by decide)

inductive PartOf : Json → Json → Prop where
  | whole (v : Json) : PartOf v v
  | element {part v : Json} {elements : List Json} (hmem : v ∈ elements) (h : PartOf part v) :
    PartOf part (.array elements)
  | member {part v : Json} {key : Text} {members : List (Text × Json)}
    (hmem : (key, v) ∈ members) (h : PartOf part v) : PartOf part (.object members)

theorem PartOf.ordered {part v : Json} (h : PartOf part v) (hv : Ordered v) : Ordered part := by
  induction h with
  | whole => exact hv
  | element hmem _ ih => exact ih (ordered_array_iff.1 hv _ hmem)
  | member hmem _ ih => exact ih ((ordered_object_iff.1 hv).2 _ hmem)

def KeysAscend (v : Json) : Prop :=
  ∀ members, PartOf (.object members) v →
    (Table.names members).Pairwise fun key key' => key.bytes < key'.bytes

theorem keysAscend_ordered (v : Json) : KeysAscend v.ordered := by
  intro members hpart
  have hascending := (ordered_object_iff.1 (hpart.ordered (ordered_ordered v))).1
  exact List.Pairwise.imp ByteOrder.bytes_lt_iff.2 hascending

/-- Two texts have the same canonical text exactly if they say the same. The canonical text is
read as what the text says and is its own canonical text; the keys of every object in it ascend
by their bytes, and no white space stands outside its strings. So the digest depends neither on
the order of keys nor on the white space between tokens. -/
theorem canonical_normal_form {s t : Text} {v w : Json} (hs : parse s = .ok v)
    (ht : parse t = .ok w) (hv : ∀ n ∈ numbers v, IsInteger n) (hw : ∀ n ∈ numbers w, IsInteger n) :
    (canonical v = canonical w ↔ denote v = denote w) ∧
    (∃ u, parse (canonical v) = .ok u ∧ denote u = denote v ∧ canonical u = canonical v ∧
      KeysAscend u) ∧
    Tight (canonical v) ∧
    (denote v = denote w ∨ tokens s = tokens t →
      Digest.sha256 (canonical v).bytes = Digest.sha256 (canonical w).bytes) := by
  have hread : ∀ {t : Text} {v : Json}, parse t = .ok v → (∀ n ∈ numbers v, IsInteger n) →
      parse (canonical v) = .ok v.ordered :=
    fun hparse hnumbers => parse_canonical (ReadDepth.depth_of_parse hparse)
      fun n hn => rereads_of_isInteger (hnumbers n hn)
  have hsame : denote v = denote w → canonical v = canonical w := by
    intro h
    rw [canonical, canonical, ordered_eq_iff.2 h]
  refine ⟨⟨fun h => ?_, hsame⟩, ⟨v.ordered, hread hs hv, denote_ordered v, ?_, ?_⟩, ?_, ?_⟩
  · have hordered := hread hs hv
    rw [h, hread ht hw] at hordered
    exact ordered_eq_iff.1 (Except.ok.inj hordered).symm
  · rw [canonical, canonical, ordered_ordered v]
  · exact keysAscend_ordered v
  · have hwrite : Tight (write v.ordered ++ []) :=
      tight_write (fun n hn => hv n (mem_numbers_of_ordered hn)) (List.forall_mem_nil _)
    rwa [List.append_nil] at hwrite
  · rintro (h | h)
    · rw [hsame h]
    · rw [parse_eq_run, h, ← parse_eq_run, ht] at hs
      rw [Except.ok.inj hs]

def repeating : Json :=
  .object [("b", .number (.integer 1)), ("a", .array [.string "é\n", .null]),
    ("b", .number (.integer (-2)))]

def ascending : Json :=
  .object [("a", .array [.string "é\n", .null]), ("b", .number (.integer (-2)))]

/-- The earlier of two members with one key, and the order of keys, do not count. -/
theorem canonical_normal_form_repeating :
    parse "\x7b\"b\":1,\"a\":[\"é\\n\",null],\"b\":-2\x7d" = .ok repeating ∧
      parse "\x7b\"a\":[\"é\\n\",null],\"b\":-2\x7d" = .ok ascending ∧
        canonical repeating = canonical ascending ∧ Tight (canonical repeating) ∧
          Digest.sha256 (canonical repeating).bytes =
            Digest.sha256 (canonical ascending).bytes := by
  have hrepeating : ∀ n ∈ numbers repeating, IsInteger n := by
    intro n hn
    rcases List.mem_pair.1 hn with rfl | rfl
    · exact ⟨1, rfl, by decide, by decide⟩
    · exact ⟨-2, rfl, by decide, by decide⟩
  have hascending : ∀ n ∈ numbers ascending, IsInteger n := by
    intro n hn
    obtain rfl := List.mem_singleton.1 hn
    exact ⟨-2, rfl, by decide, by decide⟩
  have hs := parse_write (v := repeating) (by decide)
    fun n hn => rereads_of_isInteger (hrepeating n hn)
  have ht := parse_write (v := ascending) (by decide)
    fun n hn => rereads_of_isInteger (hascending n hn)
  have hsame : denote repeating = denote ascending := ordered_eq_iff.1 rfl
  obtain ⟨hcanonical, -, htight, hdigest⟩ := canonical_normal_form hs ht hrepeating hascending
  exact ⟨hs, ht, hcanonical.2 hsame, htight, hdigest (.inl hsame)⟩

end AssessmentItems.CanonicalTexts
