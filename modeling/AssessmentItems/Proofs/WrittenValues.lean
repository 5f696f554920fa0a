import AssessmentItems.JsonReader
import AssessmentItems.Proofs.JsonValues
import AssessmentItems.Proofs.Readings
import AssessmentItems.Proofs.Results

/-!
Reading what was written. The text of a value is read as the value again: each scalar is taken
back from its characters up to the mark that follows, and an array or object is put together
from its parts, as deep as arrays and objects may be nested. Numbers are taken back if the
library reads their own text as the same number.
-/
namespace AssessmentItems.WrittenValues

open Text JsonReader JsonWriter JsonValues Readings Results

/-- A text at which a value ends: nothing more, or one of the marks that follow a value. -/
def Delimited (t : Text) : Prop := ∀ c ∈ t.head?, c = ',' ∨ c = ']' ∨ c = '}'

theorem delimited_nil : Delimited [] := nofun

theorem delimited_comma (t : Text) : Delimited (',' :: t) := by
  rintro c ⟨⟩
  exact .inl rfl

theorem delimited_bracket (t : Text) : Delimited (']' :: t) := by
  rintro c ⟨⟩
  exact .inr (.inl rfl)

theorem delimited_brace (t : Text) : Delimited ('}' :: t) := by
  rintro c ⟨⟩
  exact .inr (.inr rfl)

section

open JsonNumeral

variable {t digits r rest : Text}

theorem Delimited.not_digit (h : Delimited rest) :
    ∀ c ∈ rest.head?, isPlainDigit c = false := by
  intro c hc
  rcases h c hc with rfl | rfl | rfl <;> decide

theorem scanDigits_append (h : scanDigits t = .ok (digits, r)) (hrest : Delimited rest) :
    scanDigits (t ++ rest) = .ok (digits, r ++ rest) := by
  obtain ⟨-, hne⟩ := append_of_scanDigits h
  have hdigits : t.takeWhile isPlainDigit = digits ∧ t.dropWhile isPlainDigit = r := by
    simp only [scanDigits] at h
    split_ifs at h
    exact Prod.mk.inj (Except.ok.inj h)
  obtain ⟨rfl, rfl⟩ := hdigits
  have hrun : ∀ c ∈ t.takeWhile isPlainDigit, isPlainDigit c = true :=
    fun c hc => List.mem_takeWhile_imp hc
  have hend : ∀ c ∈ (t.dropWhile isPlainDigit ++ rest).head?, isPlainDigit c = false := by
    intro c hc
    cases hdrop : t.dropWhile isPlainDigit with
    | nil => exact hrest.not_digit c (by simpa [hdrop] using hc)
    | cons d u => exact head?_dropWhile_false (t := t) c (by simpa [hdrop] using hc)
  have htext : t ++ rest = t.takeWhile isPlainDigit ++ (t.dropWhile isPlainDigit ++ rest) := by
    rw [← List.append_assoc, List.takeWhile_append_dropWhile]
  simp only [scanDigits]
  rw [htext, takeWhile_run hrun hend, dropWhile_run hrun hend, if_pos hne]

theorem scanWhole_append (h : scanWhole t = .ok (digits, r)) (hrest : Delimited rest) :
    scanWhole (t ++ rest) = .ok (digits, r ++ rest) := by
  obtain ⟨⟨ds, r'⟩, hdigits, h⟩ := bind_eq_ok.1 h
  refine bind_eq_ok.2 ⟨(ds, r' ++ rest), scanDigits_append hdigits hrest, ?_⟩
  dsimp only at h ⊢
  split at h
  · contradiction
  · obtain ⟨rfl, rfl⟩ := Prod.mk.inj (Except.ok.inj h)
    rfl

theorem scanFraction_append {fraction : Option Text} (h : scanFraction t = .ok (fraction, r))
    (hrest : Delimited rest) : scanFraction (t ++ rest) = .ok (fraction, r ++ rest) := by
  unfold scanFraction at h
  split at h
  · next t =>
    obtain ⟨⟨ds, r'⟩, hdigits, h⟩ := bind_eq_ok.1 h
    obtain ⟨rfl, rfl⟩ := Prod.mk.inj (Except.ok.inj h)
    exact bind_eq_ok.2 ⟨_, scanDigits_append hdigits hrest, rfl⟩
  · next hpoint =>
    obtain ⟨rfl, rfl⟩ := Prod.mk.inj (Except.ok.inj h)
    unfold scanFraction
    split
    · next u heq =>
      exfalso
      cases t with
      | nil =>
        have hhead := hrest '.' (by simp only [List.nil_append] at heq; simp [heq])
        simp at hhead
      | cons c t =>
        obtain ⟨rfl, -⟩ := List.cons.inj heq
        exact hpoint t rfl
    · rfl

theorem scanExponentDigits_append {negative : Bool} {exponent : Option Int}
    (h : scanExponentDigits negative t = .ok (exponent, r)) (hrest : Delimited rest) :
    scanExponentDigits negative (t ++ rest) = .ok (exponent, r ++ rest) := by
  obtain ⟨⟨ds, r'⟩, hdigits, h⟩ := bind_eq_ok.1 h
  obtain ⟨rfl, rfl⟩ := Prod.mk.inj (Except.ok.inj h)
  exact bind_eq_ok.2 ⟨_, scanDigits_append hdigits hrest, rfl⟩

theorem scanExponent_append {exponent : Option Int} (h : scanExponent t = .ok (exponent, r))
    (hrest : Delimited rest) : scanExponent (t ++ rest) = .ok (exponent, r ++ rest) := by
  cases t with
  | nil =>
    obtain ⟨rfl, rfl⟩ := Prod.mk.inj (Except.ok.inj h)
    cases rest with
    | nil => rfl
    | cons d rest =>
      rcases hrest d rfl with rfl | rfl | rfl <;> rfl
  | cons c t =>
    simp only [scanExponent, List.cons_append] at h ⊢
    split_ifs at h ⊢ with hc
    · split at h
      · exact scanExponentDigits_append h hrest
      · exact scanExponentDigits_append h hrest
      · next hminus hplus =>
        have hdigits := scanExponentDigits_append h hrest
        cases t with
        | nil =>
          obtain ⟨_, hdigits, -⟩ := bind_eq_ok.1 h
          simp [scanDigits] at hdigits
        | cons d t =>
          split
          · next heq => exact absurd (by simp_all) (hminus t)
          · next heq => exact absurd (by simp_all) (hplus t)
          · exact hdigits
    · obtain ⟨rfl, rfl⟩ := Prod.mk.inj (Except.ok.inj h)
      rfl

theorem scanUnsigned_append {negative : Bool} {n : JsonNumeral}
    (h : scanUnsigned negative t = .ok (n, r)) (hrest : Delimited rest) :
    scanUnsigned negative (t ++ rest) = .ok (n, r ++ rest) := by
  obtain ⟨⟨whole, r₁⟩, hwhole, h⟩ := bind_eq_ok.1 h
  obtain ⟨⟨fraction, r₂⟩, hfraction, h⟩ := bind_eq_ok.1 h
  obtain ⟨⟨exponent, r₃⟩, hexponent, h⟩ := bind_eq_ok.1 h
  obtain ⟨rfl, rfl⟩ := Prod.mk.inj (Except.ok.inj h)
  refine bind_eq_ok.2 ⟨_, scanWhole_append hwhole hrest, ?_⟩
  refine bind_eq_ok.2 ⟨_, scanFraction_append hfraction hrest, ?_⟩
  exact bind_eq_ok.2 ⟨_, scanExponent_append hexponent hrest, rfl⟩

/-- A numeral begins with a minus or a digit. -/
theorem head_of_scan {n : JsonNumeral} (h : scan t = .ok (n, r)) :
    ∃ c u, t = c :: u ∧ (c = '-' ∨ isPlainDigit c = true) := by
  unfold scan at h
  split at h
  · exact ⟨_, _, rfl, .inl rfl⟩
  · obtain ⟨⟨whole, r₁⟩, hwhole, -⟩ := bind_eq_ok.1 h
    obtain ⟨⟨ds, r'⟩, hdigits, -⟩ := bind_eq_ok.1 hwhole
    have hrun : ∀ c ∈ ds, isPlainDigit c = true := by
      simp only [scanDigits] at hdigits
      split_ifs at hdigits
      obtain ⟨rfl, -⟩ := Prod.mk.inj (Except.ok.inj hdigits)
      exact fun c hc => List.mem_takeWhile_imp hc
    obtain ⟨rfl, hne⟩ := append_of_scanDigits hdigits
    cases ds with
    | nil => exact absurd rfl hne
    | cons c ds => exact ⟨c, ds ++ r', rfl, .inr (hrun c List.mem_cons_self)⟩

theorem scan_append {n : JsonNumeral} (h : scan t = .ok (n, r)) (hrest : Delimited rest) :
    scan (t ++ rest) = .ok (n, r ++ rest) := by
  obtain ⟨c, u, rfl, hc⟩ := head_of_scan h
  rw [List.cons_append]
  unfold scan at h ⊢
  split at h
  · next heq =>
    obtain ⟨rfl, rfl⟩ := List.cons.inj heq
    exact scanUnsigned_append h hrest
  · next hminus =>
    split
    · next heq =>
      obtain ⟨rfl, -⟩ := List.cons.inj heq
      exact absurd rfl (hminus u)
    · exact scanUnsigned_append h hrest

end

def Rereads (n : JsonNumber) : Prop :=
  scanNumber .strict (writeNumber n) = .ok (.number n, [])

/-- In a text that goes on, the text of a number is one token. -/
theorem Rereads.token {n : JsonNumber} (h : Rereads n) {rest : Text} (hrest : Delimited rest) :
    ∃ c t, writeNumber n = c :: t ∧ (c = '-' ∨ isPlainDigit c = true) ∧
      token .strict c (t ++ rest) = (.scalar (.number n), rest) := by
  unfold Rereads scanNumber at h
  split at h
  · next numeral r hscan =>
    obtain ⟨c, t, htext, hc⟩ := head_of_scan hscan
    split at h
    · next m hvalue =>
      obtain ⟨hm, rfl⟩ := Prod.mk.inj (Except.ok.inj h)
      obtain rfl := Json.number.inj hm
      refine ⟨c, t, htext, hc, ?_⟩
      have hnumber : scanNumber .strict (c :: (t ++ rest)) = .ok (.number m, rest) := by
        have happend := scan_append hscan hrest
        rw [htext, List.cons_append, List.nil_append] at happend
        simp only [scanNumber, happend, hvalue]
      unfold JsonReader.token
      split
      case h_11 => rw [if_pos hc, hnumber]
      all_goals exact absurd hc (by decide)
    · contradiction
  all_goals contradiction

theorem codeUnit?_control : ∀ n < 32,
    codeUnit? '0' '0' (Nat.digitChar (n / 16)) (Nat.digitChar (n % 16)) = some n := by decide

/-- A character is written as one unit, which stands for it. -/
theorem units_writeCharacter (c : Char) (t : Text) :
    ∃ u, units (writeCharacter c ++ t) = (u :: (units t).1, (units t).2) ∧
      ∀ ending us, assemble ending (u :: us) = prepend c (assemble ending us) := by
  unfold writeCharacter
  split
  case h_8 =>
    split_ifs with hcontrol
    · refine ⟨.codeUnit c.toNat, ?_, fun ending us => ?_⟩
      · simp only [List.cons_append, List.nil_append, units, codeUnit?_control _ hcontrol]
      · have hleading : isLeading c.toNat = false := by simp [isLeading]; omega
        have htrailing : isTrailing c.toNat = false := by simp [isTrailing]; omega
        rw [assemble.eq_def]
        simp only [hleading, htrailing, Bool.false_eq_true, if_false, Char.ofNat_toNat]
    · refine ⟨.character c, ?_, fun _ _ => rfl⟩
      rw [List.singleton_append, units.eq_def]
      split
      all_goals simp_all
  all_goals exact ⟨.character _, rfl, fun _ _ => rfl⟩

theorem scanString_written (t rest : Text) :
    scanString .strict (t.flatMap writeCharacter ++ '"' :: rest) = .ok (t, rest) := by
  simp only [scanString]
  induction t with
  | nil => rfl
  | cons c t ih =>
    obtain ⟨u, hunits, hassemble⟩ :=
      units_writeCharacter c (t.flatMap writeCharacter ++ '"' :: rest)
    rw [List.flatMap_cons, List.append_assoc, hunits]
    simp only [hassemble]
    rw [ih]
    rfl

theorem writeString_append (t rest : Text) :
    writeString t ++ rest = '"' :: (t.flatMap writeCharacter ++ '"' :: rest) := by
  simp [writeString]

theorem token_string (t rest : Text) :
    token .strict '"' (t.flatMap writeCharacter ++ '"' :: rest) = (.string t, rest) := by
  simp only [token, scanString_written]

def resume : State → Text → Except JsonFault (Json × Text)
  | .finished v, t => .ok (v, t)
  | state, t => readFrom .strict state t

theorem readFrom_step {c : Char} (hgap : isGap c = false) (state : State) (t : Text) :
    readFrom .strict state (c :: t) = (step .strict state (token .strict c t).1).bind fun state' =>
      resume state' (token .strict c t).2 := by
  have hskip : skipGap (c :: t) = c :: t := by rw [skipGap, List.dropWhile_cons, hgap]; rfl
  rw [readFrom.eq_def]
  split
  · next heq => simp [hskip] at heq
  · next d u heq =>
    obtain ⟨rfl, rfl⟩ := List.cons.inj (hskip.symm.trans heq)
    cases step .strict state (token .strict c t).1 with
    | error fault => rfl
    | ok state' => cases state' <;> rfl

theorem readFrom_cons (state : State) {state' : State} {tok : Token} {c : Char} {t rest : Text}
    (hgap : isGap c = false) (htoken : token .strict c t = (tok, rest))
    (hstep : step .strict state tok = .ok state') :
    readFrom .strict state (c :: t) = resume state' rest := by
  rw [readFrom_step hgap, htoken, hstep]
  rfl

theorem token_ne_closeArray {c : Char} (hc : c ≠ ']') (t : Text) :
    (token .strict c t).1 ≠ .closeArray := by
  have hword : ∀ v r, (wordToken v r).1 ≠ .closeArray := by
    intro v r
    cases r <;> nofun
  unfold token
  split
  case h_2 => exact absurd rfl hc
  case h_7 => split <;> nofun
  case h_8 => exact hword _ _
  case h_9 => exact hword _ _
  case h_10 => exact hword _ _
  case h_11 =>
    split
    · split <;> nofun
    · nofun
  all_goals nofun

/-- A value is taken back inside what is still open, up to the mark that follows it. -/
def TakenBack (v : Json) (outer : List Frame) : Prop :=
  ∀ rest, Delimited rest →
    readFrom .strict (.value outer) (write v ++ rest) = resume (deliver v outer) rest

/-- The text of a value begins neither with white space nor with a closing bracket. -/
theorem head_write {v : Json} (hnumbers : ∀ n ∈ numbers v, Rereads n) :
    ∃ c t, write v = c :: t ∧ isGap c = false ∧ c ≠ ']' := by
  cases v with
  | number n =>
    obtain ⟨c, t, htext, hc, -⟩ :=
      (hnumbers n (List.mem_singleton.2 rfl)).token delimited_nil
    refine ⟨c, t, htext, ?_, ?_⟩
    · rcases hc with rfl | hc
      · rfl
      · simp only [isGap, Bool.or_eq_false_iff, decide_eq_false_iff_not]
        refine ⟨⟨⟨?_, ?_⟩, ?_⟩, ?_⟩
        all_goals
          rintro rfl
          exact absurd hc (by decide)
    · rintro rfl
      exact absurd hc (by decide)
  | bool b => cases b <;> exact ⟨_, _, rfl, rfl, by decide⟩
  | _ => exact ⟨_, _, rfl, rfl, by decide⟩

/-- The first element of an array is read as the elements after a comma are. -/
theorem readFrom_firstElement {outer : List Frame} {c : Char} {t : Text} (hgap : isGap c = false)
    (hc : c ≠ ']') :
    readFrom .strict (.firstElement outer) (c :: t) =
      readFrom .strict (.value (.array [] :: outer)) (c :: t) := by
  have hne := token_ne_closeArray hc t
  rw [readFrom_step hgap, readFrom_step hgap]
  cases htoken : (token .strict c t).1 with
  | closeArray => exact absurd htoken hne
  | _ => rfl

theorem readFrom_elements {outer : List Frame} {v : Json} {elements : List Json}
    (h : ∀ w ∈ v :: elements, ∀ held, TakenBack w (.array held :: outer)) (held : List Json)
    (rest : Text) :
    readFrom .strict (.value (.array held :: outer))
        (writeElements (v :: elements) ++ ']' :: rest) =
      resume (deliver (.array (held.reverse ++ v :: elements)) outer) rest := by
  induction elements generalizing v held with
  | nil =>
    rw [writeElements, h v List.mem_cons_self held _ (delimited_bracket rest)]
    have hclose := readFrom_cons (.afterElement (v :: held) outer) (c := ']') (t := rest)
      rfl rfl rfl
    rw [List.reverse_cons] at hclose
    exact hclose
  | cons w elements ih =>
    rw [writeElements, List.append_assoc, List.cons_append,
      h v List.mem_cons_self held _ (delimited_comma _)]
    · have hcomma := readFrom_cons (.afterElement (v :: held) outer) (c := ',')
        (t := writeElements (w :: elements) ++ ']' :: rest) rfl rfl rfl
      have hrest := ih (fun x hx => h x (List.mem_cons_of_mem _ hx)) (v :: held)
      rw [List.reverse_cons, List.append_assoc, List.singleton_append] at hrest
      exact hcomma.trans hrest
    · nofun

/-- The key of a member, up to its value. -/
theorem readFrom_key {first : Bool} {held : List (Text × Json)} {outer : List Frame} (k t : Text) :
    readFrom .strict (.key first held outer) (writeString k ++ ':' :: t) =
      readFrom .strict (.value (.member held k :: outer)) t := by
  have hkey : step .strict (.key first held outer) (.string k) = .ok (.colon held k outer) := by
    cases first <;> cases held <;> rfl
  have hstring := readFrom_cons _ (c := '"') rfl (token_string k (':' :: t)) hkey
  have hcolon := readFrom_cons (.colon held k outer) (c := ':') (t := t) rfl rfl rfl
  rw [writeString_append]
  exact hstring.trans hcolon

theorem readFrom_members {outer : List Frame} {m : Text × Json} {members : List (Text × Json)}
    (h : ∀ m' ∈ m :: members, ∀ held k, TakenBack m'.2 (.member held k :: outer)) (first : Bool)
    (held : List (Text × Json)) (rest : Text) :
    readFrom .strict (.key first held outer) (writeMembers (m :: members) ++ '}' :: rest) =
      resume (deliver (.object (held.reverse ++ m :: members)) outer) rest := by
  induction members generalizing m first held with
  | nil =>
    obtain ⟨k, v⟩ := m
    rw [writeMembers, List.append_assoc, List.cons_append, readFrom_key,
      h (k, v) List.mem_cons_self held k _ (delimited_brace rest)]
    have hclose := readFrom_cons (.afterMember ((k, v) :: held) outer) (c := '}')
      (t := rest) rfl rfl rfl
    rw [List.reverse_cons] at hclose
    exact hclose
  | cons m' members ih =>
    obtain ⟨k, v⟩ := m
    rw [writeMembers, List.append_assoc, List.cons_append, List.append_assoc, List.cons_append,
      readFrom_key, h (k, v) List.mem_cons_self held k _ (delimited_comma _)]
    · have hcomma := readFrom_cons (.afterMember ((k, v) :: held) outer) (c := ',')
        (t := writeMembers (m' :: members) ++ '}' :: rest) rfl rfl rfl
      have hrest := ih (fun x hx => h x (List.mem_cons_of_mem _ hx)) false ((k, v) :: held)
      rw [List.reverse_cons, List.append_assoc, List.singleton_append] at hrest
      exact hcomma.trans hrest
    · nofun

theorem takenBack_array {elements : List Json} {outer : List Frame}
    (hopen : outer.length < deepest)
    (hhead : ∀ v ∈ elements, ∃ c t, write v = c :: t ∧ isGap c = false ∧ c ≠ ']')
    (h : ∀ v ∈ elements, ∀ held, TakenBack v (.array held :: outer)) :
    TakenBack (.array elements) outer := by
  intro rest _
  have hstep : step .strict (.value outer) .openArray = .ok (.firstElement outer) :=
    if_pos (by simpa [mayOpen] using hopen)
  have hstart :=
    readFrom_cons _ (c := '[') (t := writeElements elements ++ ']' :: rest) rfl rfl hstep
  have htext :
      write (.array elements) ++ rest = '[' :: (writeElements elements ++ ']' :: rest) := by
    simp [write]
  rw [htext, hstart]
  cases elements with
  | nil => exact readFrom_cons _ (c := ']') (t := rest) rfl rfl rfl
  | cons v elements =>
    obtain ⟨c, t, hv, hgap, hc⟩ := hhead v List.mem_cons_self
    obtain ⟨u, hu⟩ : ∃ u, writeElements (v :: elements) ++ ']' :: rest = c :: u := by
      cases elements with
      | nil => exact ⟨_, by rw [writeElements, hv, List.cons_append]⟩
      | cons w elements => exact ⟨_, by simp only [writeElements, hv, List.cons_append]; rfl⟩
    have hfirst : readFrom .strict (.firstElement outer) (c :: u) = _ :=
      readFrom_firstElement hgap hc
    rw [hu]
    refine hfirst.trans ?_
    rw [← hu]
    exact readFrom_elements h [] rest

theorem takenBack_object {members : List (Text × Json)} {outer : List Frame}
    (hopen : outer.length < deepest)
    (h : ∀ m ∈ members, ∀ held k, TakenBack m.2 (.member held k :: outer)) :
    TakenBack (.object members) outer := by
  intro rest _
  have hstep : step .strict (.value outer) .openObject = .ok (.key true [] outer) :=
    if_pos (by simpa [mayOpen] using hopen)
  have hstart := readFrom_cons _ (c := '{') (t := writeMembers members ++ '}' :: rest) rfl rfl hstep
  have htext : write (.object members) ++ rest = '{' :: (writeMembers members ++ '}' :: rest) := by
    simp [write]
  rw [htext, hstart]
  cases members with
  | nil => exact readFrom_cons _ (c := '}') (t := rest) rfl rfl rfl
  | cons m members => exact readFrom_members h true [] rest

/-- Every value is taken back where it fits into the depth that is left. -/
theorem takenBack (v : Json) {outer : List Frame} (hdepth : outer.length + depth v ≤ deepest)
    (hnumbers : ∀ n ∈ numbers v, Rereads n) : TakenBack v outer := by
  induction v using parts_induction generalizing outer with
  | null => exact fun rest _ => readFrom_cons _ rfl rfl rfl
  | bool b => cases b <;> exact fun rest _ => readFrom_cons _ rfl rfl rfl
  | number n =>
    intro rest hrest
    obtain ⟨c, t, htext, hc, htoken⟩ := (hnumbers n (List.mem_singleton.2 rfl)).token hrest
    obtain ⟨c', t', htext', hgap, -⟩ := head_write hnumbers
    obtain ⟨rfl, rfl⟩ := List.cons.inj (htext.symm.trans htext')
    rw [write, htext]
    exact readFrom_cons _ hgap htoken rfl
  | string t =>
    intro rest _
    rw [write, writeString_append]
    exact readFrom_cons _ rfl (token_string t rest) rfl
  | array elements ih =>
    have hparts : ∀ v ∈ elements, ∀ n ∈ numbers v, Rereads n :=
      fun v hv n hn => hnumbers n (mem_numbers_array.2 ⟨v, hv, hn⟩)
    refine takenBack_array ?_ (fun v hv => head_write (hparts v hv)) fun v hv held => ?_
    · rw [depth] at hdepth
      omega
    · have hlt := depth_lt_of_element hv
      refine ih v hv ?_ (hparts v hv)
      rw [List.length_cons]
      omega
  | object members ih =>
    refine takenBack_object ?_ fun m hm held k => ?_
    · rw [depth] at hdepth
      omega
    · have hlt := depth_lt_of_member hm
      refine ih m hm ?_ fun n hn => hnumbers n (mem_numbers_object.2 ⟨m, hm, hn⟩)
      rw [List.length_cons]
      omega

/-- What is written is read as the value, with its members in their order. -/
theorem parse_write {v : Json} (hdepth : depth v ≤ deepest)
    (hnumbers : ∀ n ∈ numbers v, Rereads n) : parse (write v) = .ok v := by
  have hvalue : TakenBack v [] := takenBack v (by simpa using hdepth) hnumbers
  have htaken := hvalue [] delimited_nil
  rw [List.append_nil] at htaken
  exact bind_eq_ok.2 ⟨_, htaken, rfl⟩

theorem parse_canonical {v : Json} (hdepth : depth v ≤ deepest)
    (hnumbers : ∀ n ∈ numbers v, Rereads n) : parse (canonical v) = .ok v.ordered :=
  parse_write (Nat.le_trans (depth_ordered_le v) hdepth)
    fun n hn => hnumbers n (mem_numbers_of_ordered hn)

/-- What is written is read as the data that the value denotes. -/
theorem read_write {v : Json} (hdepth : depth v ≤ deepest) (hnumbers : ∀ n ∈ numbers v, Rereads n) :
    JsonReader.read (write v) = .ok v.ordered := by
  rw [JsonReader.read, parse_write hdepth hnumbers]
  rfl

theorem read_canonical {v : Json} (hdepth : depth v ≤ deepest)
    (hnumbers : ∀ n ∈ numbers v, Rereads n) : JsonReader.read (canonical v) = .ok v.ordered := by
  rw [canonical, read_write (Nat.le_trans (depth_ordered_le v) hdepth)
    fun n hn => hnumbers n (mem_numbers_of_ordered hn), ordered_ordered v]

end AssessmentItems.WrittenValues
