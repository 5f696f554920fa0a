import AssessmentItems.Proofs.AcceptedValues
import AssessmentItems.Proofs.ByteOrder
import AssessmentItems.Proofs.Constructs
import AssessmentItems.Proofs.Substitution
import AssessmentItems.Proofs.Tags

/-!
The texts that are resolved, and those that are refused for a tag that looks like a slot. What is
left is reported tag by tag, where a tag reaches from where it opens up to the first `>`, and
nothing that opens inside a tag counts. A tag is reported by the first text of the form
`name="…"` in it, which may be another attribute that ends in these letters or a part of a value;
this is the name of the tag exactly if the attribute of the tag has the same value.
-/
namespace AssessmentItems.FinalTexts

open Text Scanning Slots Pieces Placeholders Tags OuterTags Constructs Readings TextClasses
  Substitution

def IsSlot (tag : Text) : Prop := looseTag? tag = some tag

/-- A tag of a text that looks like a slot and opens inside no other. -/
def SlotTag (t tag : Text) : Prop :=
  IsSlot tag ∧ ∃ before after, t = before ++ (tag ++ after) ∧
    ∀ s, s <:+ before → s ≠ [] → ¬ IsSlot (s ++ tag)

/-- The tags that are found in a text are those that open inside no other. -/
theorem mem_looseTags {t tag : Text} : tag ∈ looseTags t ↔ SlotTag t tag := by
  have hslot : '>' ∉ ("<slot" : Text) := by decide
  refine (mem_occurrences hslot).trans ?_
  constructor
  · rintro ⟨before, after, ht, htag, hopen⟩
    exact ⟨htag, before, after, ht, hopen⟩
  · rintro ⟨htag, before, after, ht, hopen⟩
    exact ⟨before, after, ht, htag, hopen⟩

def quotedName? (t : Text) : Option Text := do
  let t ← after? "name" t
  let t ← after? "=" (t.dropWhile isSpace)
  match t.dropWhile isSpace with
  | [] => none
  | quote :: t => if isQuote quote ∧ quote ∈ t then some (t.takeWhile (· ≠ quote)) else none

/-- The value of the name attribute in what follows of a tag. An attribute stands behind white
space and outside of all values; `quote` ends the value in which the text begins, if it does. -/
def nameValue? : (quote : Option Char) → Text → Option Text
  | _, [] => none
  | some quote, c :: t => nameValue? (if c = quote then none else some quote) t
  | none, c :: t =>
    if isQuote c then nameValue? (some c) t
    else if isSpace c then quotedName? t <|> nameValue? none t
    else nameValue? none t

/-- The name attribute of a tag, or the whole tag if it has none. -/
def properName (tag : Text) : Text := (nameValue? none tag).getD tag

def OpensName (t rest : Text) : Prop :=
  ∃ gap gap', t = "name" ++ (gap ++ '=' :: (gap' ++ rest)) ∧ (∀ c ∈ gap, isSpace c = true) ∧
    ∀ c ∈ gap', isSpace c = true

/-- A text begins like a name attribute, with a value between two quotes of either kind. -/
def LooksNamed (value t : Text) : Prop :=
  ∃ quote quote' rest, OpensName t (quote :: (value ++ quote' :: rest)) ∧ isQuote quote = true ∧
    isQuote quote' = true ∧ ∀ c ∈ value, isQuote c = false

/-- A text begins with a name attribute, whose value stands between two quotes of one kind. -/
def NameAttribute (value t : Text) : Prop :=
  ∃ quote rest, OpensName t (quote :: (value ++ quote :: rest)) ∧ isQuote quote = true ∧
    quote ∉ value

def FirstName (tag value : Text) : Prop :=
  ∃ before rest, tag = before ++ rest ∧ LooksNamed value rest ∧
    ∀ s, s <:+ before → s ≠ [] → ∀ other, ¬ LooksNamed other (s ++ rest)

/-- The value of the name attribute of a tag: the first that stands behind white space and outside
of all values. -/
inductive Named : (tag value : Text) → Prop
  | front {c : Char} {t value : Text} (hspace : isSpace c = true) (h : NameAttribute value t) :
      Named (c :: t) value
  | character {c : Char} {t value : Text} (hquote : isQuote c = false)
      (hno : isSpace c = true → ∀ other, ¬ NameAttribute other t) (h : Named t value) :
      Named (c :: t) value
  | value {quote : Char} {inside t value : Text} (hquote : isQuote quote = true)
      (hinside : quote ∉ inside) (h : Named t value) :
      Named (quote :: (inside ++ quote :: t)) value

/-- What first looks like a name attribute in a tag has the value of its name attribute. -/
def PlainlyNamed (tag : Text) : Prop := ∀ value, FirstName tag value → Named tag value

section

variable {t value rest : Text}

theorem isSpace_of_isQuote {c : Char} (h : isQuote c = true) : isSpace c = false := by
  have hc : c = '"' ∨ c = '\'' := by simpa [isQuote] using h
  rcases hc with rfl | rfl
  · decide
  · decide

theorem opensName_iff {quote : Char} (hquote : isQuote quote = true) :
    OpensName t (quote :: rest) ↔
      ∃ afterName, after? "name" t = some afterName ∧
        ∃ afterSign, after? "=" (afterName.dropWhile isSpace) = some afterSign ∧
          afterSign.dropWhile isSpace = quote :: rest := by
  have hhead : ∀ c ∈ (quote :: rest).head?, isSpace c = false := by
    rintro _ ⟨⟩
    exact isSpace_of_isQuote hquote
  constructor
  · rintro ⟨gap, gap', rfl, hgap, hgap'⟩
    exact ⟨_, after?_eq_some.2 rfl, _, after?_equals.2 ⟨gap, rfl, hgap⟩, dropWhile_gap hgap' hhead⟩
  · rintro ⟨afterName, hname, afterSign, hsign, hdrop⟩
    obtain ⟨gap, rfl, hgap⟩ := after?_equals.1 hsign
    obtain ⟨gap', hgap', hvalue⟩ := exists_dropWhile afterSign
    rw [hdrop] at hvalue
    exact ⟨gap, gap', by rw [after?_eq_some.1 hname, hvalue], hgap, hgap'⟩

theorem takeWhile_not_isQuote :
    t.any isQuote = true ∧ t.takeWhile (!isQuote ·) = value ↔
      ∃ quote rest, t = value ++ quote :: rest ∧ isQuote quote = true ∧
        ∀ c ∈ value, isQuote c = false := by
  have hsplit := List.takeWhile_append_dropWhile (p := (!isQuote ·)) (l := t)
  constructor
  · rintro ⟨hany, rfl⟩
    have hvalue : ∀ c ∈ t.takeWhile (!isQuote ·), isQuote c = false := fun c hc => by
      simpa using List.mem_takeWhile_imp hc
    cases hdrop : t.dropWhile (!isQuote ·) with
    | nil =>
      obtain ⟨c, hc, hquote⟩ := List.any_eq_true.1 hany
      have hno := List.dropWhile_eq_nil_iff.1 hdrop c hc
      simp [hquote] at hno
    | cons quote rest =>
      have hne : t.dropWhile (!isQuote ·) ≠ [] := hdrop ▸ List.cons_ne_nil _ _
      have hquote := List.head_dropWhile_not _ hne
      simp only [hdrop, List.head_cons] at hquote
      rw [hdrop] at hsplit
      exact ⟨quote, rest, hsplit.symm, by simpa using hquote, hvalue⟩
  · rintro ⟨quote, rest, rfl, hquote, hvalue⟩
    refine ⟨List.any_eq_true.2 ⟨quote, by simp, hquote⟩, takeWhile_run ?_ ?_⟩
    · exact fun c hc => by simp [hvalue c hc]
    · rintro _ ⟨⟩
      simp [hquote]

/-- A name attribute is opened, and what follows of it is closed and read. -/
theorem quoted_eq_some {P : Char → Text → Prop} [∀ c u, Decidable (P c u)]
    {Q : Char → Text → Text} :
    (∃ afterName, after? "name" t = some afterName ∧
      ∃ afterSign, after? "=" (afterName.dropWhile isSpace) = some afterSign ∧
        (match afterSign.dropWhile isSpace with
          | [] => none
          | quote :: rest => if isQuote quote ∧ P quote rest then some (Q quote rest) else none) =
          some value) ↔
      ∃ quote rest, OpensName t (quote :: rest) ∧ isQuote quote = true ∧ P quote rest ∧
        Q quote rest = value := by
  constructor
  · rintro ⟨afterName, hname, afterSign, hsign, hvalue⟩
    split at hvalue
    · contradiction
    · next quote rest hdrop =>
      rw [Option.ite_none_right_eq_some, Option.some.injEq] at hvalue
      obtain ⟨⟨hquote, hclosed⟩, hread⟩ := hvalue
      exact ⟨quote, rest, (opensName_iff hquote).2 ⟨afterName, hname, afterSign, hsign, hdrop⟩,
        hquote, hclosed, hread⟩
  · rintro ⟨quote, rest, hopens, hquote, hclosed, hread⟩
    obtain ⟨afterName, hname, afterSign, hsign, hdrop⟩ := (opensName_iff hquote).1 hopens
    refine ⟨afterName, hname, afterSign, hsign, ?_⟩
    rw [hdrop]
    dsimp only
    rw [if_pos ⟨hquote, hclosed⟩, hread]

theorem nameAttribute?_eq_some : nameAttribute? t = some value ↔ LooksNamed value t := by
  simp only [nameAttribute?, Option.bind_eq_bind, Option.bind_eq_some_iff]
  refine (quoted_eq_some (P := fun _ rest => rest.any isQuote = true)
    (Q := fun _ rest => rest.takeWhile (!isQuote ·))).trans ?_
  simp only [takeWhile_not_isQuote]
  constructor
  · rintro ⟨quote, _, hopens, hquote, quote', rest, rfl, hquote', hvalue⟩
    exact ⟨quote, quote', rest, hopens, hquote, hquote', hvalue⟩
  · rintro ⟨quote, quote', rest, hopens, hquote, hquote', hvalue⟩
    exact ⟨quote, _, hopens, hquote, quote', rest, rfl, hquote', hvalue⟩

theorem quotedName?_eq_some : quotedName? t = some value ↔ NameAttribute value t := by
  simp only [quotedName?, Option.bind_eq_bind, Option.bind_eq_some_iff]
  refine (quoted_eq_some (P := fun quote rest => quote ∈ rest)
    (Q := fun quote rest => rest.takeWhile (· ≠ quote))).trans ?_
  simp only [takeWhile_quote]
  constructor
  · rintro ⟨quote, _, hopens, hquote, hvalue, rest, rfl⟩
    exact ⟨quote, rest, hopens, hquote, hvalue⟩
  · rintro ⟨quote, rest, hopens, hquote, hvalue⟩
    exact ⟨quote, _, hopens, hquote, hvalue, rest, rfl⟩

theorem firstMatch_nameAttribute? {tag : Text} :
    firstMatch nameAttribute? tag = some value ↔ FirstName tag value := by
  have hnone : ∀ u : Text, nameAttribute? u = none ↔ ∀ other, ¬ LooksNamed other u := by
    intro u
    simp only [Option.eq_none_iff_forall_ne_some, ne_eq, nameAttribute?_eq_some]
  rw [firstMatch_eq_some]
  simp only [nameAttribute?_eq_some, hnone]
  constructor
  · rintro ⟨before, rest, htag, -, hvalue, hfirst⟩
    exact ⟨before, rest, htag, hvalue, hfirst⟩
  · rintro ⟨before, rest, htag, hvalue, hfirst⟩
    refine ⟨before, rest, htag, ?_, hvalue, hfirst⟩
    rintro rfl
    obtain ⟨_, _, _, ⟨_, _, heq, -⟩, -⟩ := hvalue
    contradiction

theorem nameValue?_close {quote : Char} {inside : Text} (h : quote ∉ inside) :
    nameValue? (some quote) (inside ++ quote :: t) = nameValue? none t := by
  induction inside with
  | nil => simp [nameValue?]
  | cons c inside ih =>
    rw [List.mem_cons, not_or] at h
    rw [List.cons_append, nameValue?, if_neg (Ne.symm h.1), ih h.2]

theorem nameValue?_open {quote : Char} (h : quote ∉ t) : nameValue? (some quote) t = none := by
  induction t with
  | nil => rfl
  | cons c t ih =>
    rw [List.mem_cons, not_or] at h
    rw [nameValue?, if_neg (Ne.symm h.1), ih h.2]

theorem named_of_nameValue? (h : nameValue? none t = some value) : Named t value := by
  induction hlength : t.length using Nat.strong_induction_on generalizing t with
  | _ n ih =>
    subst hlength
    cases t with
    | nil => contradiction
    | cons c t =>
      rw [nameValue?] at h
      split_ifs at h with hquote hspace
      · by_cases hclosed : c ∈ t
        · obtain ⟨inside, rest, rfl, hinside⟩ := List.eq_append_cons_of_mem hclosed
          rw [nameValue?_close hinside] at h
          exact .value hquote hinside (ih _ (by simp; omega) h rfl)
        · rw [nameValue?_open hclosed] at h
          contradiction
      · have hplain : isQuote c = false := by simpa using hquote
        cases hread : quotedName? t with
        | some v =>
          rw [hread] at h
          obtain rfl := Option.some.inj h
          exact .front hspace (quotedName?_eq_some.1 hread)
        | none =>
          rw [hread] at h
          refine .character hplain (fun _ other hother => ?_) (ih _ (Nat.lt_succ_self _) h rfl)
          exact nomatch hread.symm.trans (quotedName?_eq_some.2 hother)
      · exact .character (by simpa using hquote) (fun hc => absurd hc hspace)
          (ih _ (Nat.lt_succ_self _) h rfl)

theorem Named.nameValue?_eq (h : Named t value) : nameValue? none t = some value := by
  induction h with
  | front hspace h =>
    have hquote : ¬ isQuote _ = true := fun hquote =>
      Bool.noConfusion (hspace.symm.trans (isSpace_of_isQuote hquote))
    rw [nameValue?, if_neg hquote, if_pos hspace, quotedName?_eq_some.2 h]
    rfl
  | @character c t value hquote hno h ih =>
    rw [nameValue?, hquote, ih]
    cases hspace : isSpace c with
    | false => rfl
    | true =>
      have hnone : quotedName? t = none := Option.eq_none_iff_forall_ne_some.2 fun v hv =>
        hno hspace v (quotedName?_eq_some.1 hv)
      rw [hnone]
      rfl
  | value hquote hinside h ih => rw [nameValue?, if_pos hquote, nameValue?_close hinside, ih]

theorem nameValue?_eq_some : nameValue? none t = some value ↔ Named t value :=
  ⟨named_of_nameValue?, Named.nameValue?_eq⟩

/-- A value is shorter than the tag around it. -/
theorem FirstName.length_lt {tag : Text} (h : FirstName tag value) :
    value.length < tag.length := by
  obtain ⟨before, _, rfl, ⟨_, _, _, ⟨gap, gap', rfl, -⟩, -⟩, -⟩ := h
  simp only [List.length_append, List.length_cons]
  omega

end

theorem firstMatch_cons_eq_none {α : Type} {recognise : Text → Option α} {c : Char} {t : Text} :
    firstMatch recognise (c :: t) = none ↔
      recognise (c :: t) = none ∧ firstMatch recognise t = none := by
  rw [firstMatch]
  cases recognise (c :: t) <;> simp

theorem quotedName?_eq_none {t : Text} (h : nameAttribute? t = none) : quotedName? t = none := by
  simp only [nameAttribute?, quotedName?, Option.bind_eq_bind, Option.bind_eq_none_iff] at h ⊢
  intro afterName hname afterSign hsign
  have hvalue := h afterName hname afterSign hsign
  cases hdrop : afterSign.dropWhile isSpace with
  | nil => rfl
  | cons quote t =>
    simp only [hdrop, ite_eq_right_iff, reduceCtorEq, imp_false, not_and] at hvalue ⊢
    exact fun hquote hmem => hvalue hquote (List.any_eq_true.2 ⟨quote, hmem, hquote⟩)

/-- A tag without a text of the form of a name attribute has no name attribute. -/
theorem nameValue?_eq_none {t : Text} (h : firstMatch nameAttribute? t = none)
    (quote : Option Char) : nameValue? quote t = none := by
  induction t generalizing quote with
  | nil => cases quote <;> rfl
  | cons c t ih =>
    have hrest := (firstMatch_cons_eq_none.1 h).2
    have hquoted : quotedName? t = none := by
      cases t with
      | nil => rfl
      | cons d t => exact quotedName?_eq_none (firstMatch_cons_eq_none.1 hrest).1
    cases quote with
    | some quote => exact ih hrest _
    | none =>
      unfold nameValue?
      rw [hquoted, ih hrest, ih hrest]
      simp

/-- A tag is reported by its name attribute exactly if nothing before it looks like one with
another value. -/
theorem tagName_eq_properName {tag : Text} : tagName tag = properName tag ↔ PlainlyNamed tag := by
  unfold tagName properName PlainlyNamed
  simp only [← firstMatch_nameAttribute?, ← nameValue?_eq_some]
  cases hfirst : firstMatch nameAttribute? tag with
  | none => simp [nameValue?_eq_none hfirst]
  | some v =>
    cases nameValue? none tag with
    | some w => simp [eq_comm]
    | none =>
      have hlt := (firstMatch_nameAttribute?.1 hfirst).length_lt
      refine iff_of_false (fun htag => ?_) fun h => nomatch h v rfl
      exact absurd (congrArg List.length htag) hlt.ne

/-- In a text with nothing left over, no placeholder is spelled and nowhere a tag opens that
looks like a slot. -/
theorem final_of_leftover {r : Text} (h : leftover r = []) :
    (∀ p : Placeholder, WellFormed p → ¬ p.spelling <:+: r) ∧ (∀ tag, IsSlot tag → ¬ tag <:+: r) ∧
      ∀ slots, resolve slots r = .ok r := by
  refine ⟨fun p hp => not_spelled_within h hp, fun tag htag hpart => ?_, fun slots => ?_⟩
  · have hne : tag ≠ [] := IsTag.ne_nil htag
    have hnowhere := leftover_eq_nil.1 (leftover_of_part h hpart) tag List.suffix_rfl hne
    have hread : looseTag? tag = some tag := htag
    simp [hread] at hnowhere
  · exact resolve_eq_ok.2 ⟨(substitute_literal (referenced_of_leftover h)).2 rfl, h⟩

/-- What is reported for a text are the names of its tags. -/
theorem mem_leftover {r name : Text} :
    name ∈ leftover r ↔ ∃ tag, SlotTag r tag ∧ tagName tag = name := by
  rw [leftover, mem_ascending, List.mem_map]
  simp only [mem_looseTags]

/-- Each name is reported once, in the order of the bytes. -/
theorem pairwise_leftover (r : Text) :
    (leftover r).Pairwise fun s t => s.bytes < t.bytes :=
  List.Pairwise.imp ByteOrder.bytes_lt (AcceptedValues.ascends_ascending _)

theorem resolve_eq_error {slots : SlotTable} {content r : Text} {e : SlotError}
    (hr : substitute slots maxDepth [] content = .ok r) (he : resolve slots content = .error e) :
    leftover r ≠ [] ∧ e = .unresolved (leftover r) := by
  rcases Results.bind_eq_error.1 he with hsubstitute | ⟨_, hr', hleft⟩
  · rw [hr] at hsubstitute
    contradiction
  · obtain rfl := Except.ok.inj (hr.symm.trans hr')
    cases hnames : leftover r with
    | nil =>
      rw [hnames] at hleft
      contradiction
    | cons name names =>
      rw [hnames] at hleft
      exact ⟨List.cons_ne_nil _ _, (Except.error.inj hleft).symm⟩

/-- A text that is resolved is final, whatever slots there are. Where everything can be substituted
and the result is refused, the tags in it that look like slots are reported; a tag is reported by
its name attribute, or as a whole if it has none, exactly if it is plainly named. -/
theorem resolve_final (slots : SlotTable) (content : Text) :
    (∀ r, resolve slots content = .ok r →
      (∀ p : Placeholder, WellFormed p → ¬ p.spelling <:+: r) ∧
        (∀ tag, IsSlot tag → ¬ tag <:+: r) ∧ ∀ slots', resolve slots' r = .ok r) ∧
    ∀ r e, substitute slots maxDepth [] content = .ok r → resolve slots content = .error e →
      ∃ names, e = .unresolved names ∧ names ≠ [] ∧
        names.Pairwise (fun s t => s.bytes < t.bytes) ∧
          (∀ name, name ∈ names ↔ ∃ tag, SlotTag r tag ∧ tagName tag = name) ∧
            ∀ tag, SlotTag r tag → (tagName tag = properName tag ↔ PlainlyNamed tag) := by
  constructor
  · intro r hr
    exact final_of_leftover (resolve_eq_ok.1 hr).2
  · intro r e hr he
    obtain ⟨hne, rfl⟩ := resolve_eq_error hr he
    exact ⟨leftover r, rfl, hne, pairwise_leftover r, fun _ => mem_leftover,
      fun _ _ => tagName_eq_properName⟩

/-- A placeholder that two slots make where they meet is reported, though its slot is defined. -/
theorem resolve_final_seam :
    let slots : SlotTable := [("a", "<slot na"), ("b", "me=\"c\"/>"), ("c", "1")]
    let content : Text := placeholder "a" ++ placeholder "b"
    substitute slots maxDepth [] content = .ok (placeholder "c") ∧
      (∃ names, resolve slots content = .error (.unresolved names) ∧ ("c" : Text) ∈ names) ∧
        resolve slots (placeholder "c") = .ok "1" ∧ ∀ slots', resolve slots' "1" = .ok "1" := by
  intro slots content
  have hsubstituted : substitute slots maxDepth [] content = .ok (placeholder "c") := by
    decide +kernel
  have hrefused : resolve slots content = .error (.unresolved ["c"]) := by decide +kernel
  have hresolved : resolve slots (placeholder "c") = .ok "1" := by decide +kernel
  obtain ⟨names, hnames, -, -, hmem, -⟩ := (resolve_final slots content).2 _ _ hsubstituted hrefused
  have htag : SlotTag (placeholder "c") (placeholder "c") :=
    mem_looseTags.1 (by decide +kernel)
  refine ⟨hsubstituted, ⟨names, hrefused.trans (congrArg _ hnames), ?_⟩, hresolved, ?_⟩
  · exact (hmem "c").2 ⟨_, htag, by decide +kernel⟩
  · exact ((resolve_final slots (placeholder "c")).1 _ hresolved).2.2

/-- A tag without a name is reported by an attribute whose own name ends in these letters. -/
theorem unresolved_misnamed :
    ¬ ∀ (slots : SlotTable) (content r : Text) (names : List Text),
      substitute slots maxDepth [] content = .ok r →
        resolve slots content = .error (.unresolved names) →
          ∀ name, name ∈ names ↔ ∃ tag, SlotTag r tag ∧ properName tag = name := by
  intro h
  let tag : Text := "<slot data-name=\"x\"/>"
  have hname := (h [] tag tag ["x"] (by decide +kernel) (by decide +kernel) "x").1 (by decide)
  obtain ⟨tag', htag, hx⟩ := hname
  have hall : ∀ u ∈ looseTags tag, properName u ≠ "x" := by decide +kernel
  exact hall tag' (mem_looseTags.2 htag) hx

end AssessmentItems.FinalTexts
