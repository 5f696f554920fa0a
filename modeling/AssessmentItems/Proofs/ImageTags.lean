import AssessmentItems.Proofs.Verdicts

/-!
Images as a reader of XML finds them in a fragment. The rule on images takes any text in a tag
that reads like an attribute `alt` for one. Such a text is an attribute `alt` of the image, or it
begins at white space in the value of another attribute or in its name. So every image of an
accepted fragment is described, unless one of its attributes misleads the rule.
-/
namespace AssessmentItems.ImageTags

open Text TextClasses Scanning ContentRules OuterTags Constructs Verdicts

def IsGap (t : Text) : Prop := ∀ c ∈ t, c ∈ [' ', '\t', '\n', '\r']

instance (t : Text) : Decidable (IsGap t) :=
  List.decidableBAll (· ∈ [' ', '\t', '\n', '\r']) t

def delimiters : List Char := [' ', '\t', '\n', '\r', '<', '>', '/', '=', '"', '\'']

structure Attribute where
  gap : Text
  name : Text
  left : Text
  right : Text
  quote : Char
  value : Text
  gap_ne_nil : gap ≠ []
  isGap : IsGap gap
  name_ne_nil : name ≠ []
  name_clean : ∀ c ∈ name, c ∉ delimiters
  isGap_left : IsGap left
  isGap_right : IsGap right
  isQuote : quote = '"' ∨ quote = '\''
  quote_not_mem : quote ∉ value
  open_not_mem : '<' ∉ value

def Attribute.text (a : Attribute) : Text :=
  a.gap ++ (a.name ++ (a.left ++ '=' :: (a.right ++ a.quote :: (a.value ++ [a.quote]))))

structure Image where
  attributes : List Attribute
  gap : Text
  close : Text
  isGap : IsGap gap
  isClose : close = ['>'] ∨ close = ['/', '>']

namespace Image

def body (image : Image) : Text :=
  image.attributes.flatMap Attribute.text ++ (image.gap ++ image.close)

def text (image : Image) : Text := ("<img" : Text) ++ image.body

def Described (image : Image) : Prop :=
  ∃ a ∈ image.attributes, Spells "alt" a.name ∧ isBlank a.value = false

/-- The tag stands in a fragment where all tags before it have ended. -/
def StandsIn (image : Image) (fragment : Text) : Prop :=
  ∃ before after, fragment = before ++ (image.text ++ after) ∧
    ∀ a b, before = a ++ '<' :: b → '>' ∈ b

end Image

/-- An attribute with white space in its name, or with a value in which white space, `alt` and an
equals sign follow each other. -/
def Attribute.Misleads (a : Attribute) : Prop :=
  (∃ c ∈ a.name, isSpace c = true) ∨
    ∃ front c s gap rest, a.value = front ++ c :: (s ++ (gap ++ '=' :: rest)) ∧
      isSpace c = true ∧ Spells "alt" s ∧ ∀ d ∈ gap, isSpace d = true

theorem IsGap.isSpace {t : Text} (h : IsGap t) : ∀ c ∈ t, isSpace c = true := by
  have hall : ∀ c ∈ [' ', '\t', '\n', '\r'], Text.isSpace c = true :=
    forall_mem_of_all (by decide)
  exact fun c hc => hall c (h c hc)

theorem isSpace_quote {quote : Char} (h : quote = '"' ∨ quote = '\'') : isSpace quote = false := by
  rcases h with rfl | rfl <;> decide

/-- A text holds one that reads like an attribute `alt` with the value. -/
def AltIn (t value : Text) : Prop := ∃ before rest, t = before ++ rest ∧ AltAttribute value rest

section

variable {t value : Text} {c : Char}

theorem space_of_altAttribute (h : AltAttribute value (c :: t)) : isSpace c = true := by
  obtain ⟨_, _, _, _, _, _, heq, hc, -⟩ := h
  rwa [(List.cons.inj heq).1]

theorem next_of_altAttribute (h : AltAttribute value (c :: t)) : ∃ d ∈ t.head?, fold d = 'a' := by
  obtain ⟨_, s, _, _, _, _, heq, -, hs, -⟩ := h
  cases s with
  | nil => cases hs
  | cons d s =>
    rw [(List.cons.inj heq).2]
    exact ⟨d, rfl, (List.cons.inj hs).1⟩

theorem not_altIn_nil : ¬ AltIn [] value := by
  rintro ⟨before, rest, heq, hrest⟩
  rw [(List.append_eq_nil_iff.1 heq.symm).2] at hrest
  obtain ⟨_, _, _, _, _, _, heq', -⟩ := hrest
  contradiction

theorem altIn_cons : AltIn (c :: t) value ↔ AltAttribute value (c :: t) ∨ AltIn t value := by
  constructor
  · rintro ⟨before, rest, heq, hrest⟩
    cases before with
    | nil => exact .inl (heq ▸ hrest)
    | cons d before => exact .inr ⟨before, rest, (List.cons.inj heq).2, hrest⟩
  · rintro (h | ⟨before, rest, rfl, hrest⟩)
    · exact ⟨[], _, rfl, h⟩
    · exact ⟨c :: before, rest, rfl, hrest⟩

theorem AltIn.append (h : AltIn t value) (more : Text) : AltIn (t ++ more) value := by
  obtain ⟨before, rest, rfl, c, s, gap, gap', quote, rest', rfl, hparts⟩ := h
  exact ⟨before, _, List.append_assoc .., c, s, gap, gap', quote, rest' ++ more, by simp, hparts⟩

theorem altIn_plain {front : Text} (h : ∀ c ∈ front, isSpace c = false) :
    AltIn (front ++ t) value ↔ AltIn t value := by
  induction front with
  | nil => rfl
  | cons c front ih =>
    rw [List.forall_mem_cons] at h
    have hnot : ¬ AltAttribute value (c :: (front ++ t)) := by
      intro halt
      rw [space_of_altAttribute halt] at h
      exact Bool.noConfusion h.1
    rw [List.cons_append, altIn_cons, or_iff_right hnot, ih h.2]

theorem altIn_gap {gap : Text} (hgap : IsGap gap) (ht : ∀ d ∈ t.head?, fold d ≠ 'a') :
    AltIn (gap ++ t) value ↔ AltIn t value := by
  have hfold : ∀ c ∈ [' ', '\t', '\n', '\r'], fold c ≠ 'a' := forall_mem_of_all (by decide)
  induction gap with
  | nil => rfl
  | cons c gap ih =>
    obtain ⟨-, hrest⟩ := List.forall_mem_cons.1 hgap
    have hnot : ¬ AltAttribute value (c :: (gap ++ t)) := by
      intro halt
      obtain ⟨d, hd, hfold'⟩ := next_of_altAttribute halt
      cases gap with
      | nil => exact ht d hd hfold'
      | cons e gap =>
        obtain rfl := Option.mem_some_iff.1 hd
        exact hfold _ (hrest _ List.mem_cons_self) hfold'
    rw [List.cons_append, altIn_cons, or_iff_right hnot]
    exact ih hrest

/-- A text without a character, at the front of one that is cut at that character, stands before
the cut. -/
theorem exists_append_of_not_mem {d : Char} {front inside rest rest' : Text} (hd : d ∉ front)
    (h : inside ++ d :: rest = front ++ rest') : ∃ more, inside = front ++ more := by
  rcases List.append_eq_append_iff.1 h with ⟨more, hfront, hmore⟩ | ⟨more, hinside, -⟩
  · cases more with
    | nil => exact ⟨[], by simpa using hfront.symm⟩
    | cons e more =>
      obtain ⟨rfl, -⟩ := List.cons.inj hmore
      exact absurd (hfront ▸ by simp) hd
  · exact ⟨more, hinside⟩

/-- What reads like an attribute `alt` from white space in a value on has its equals sign in the
value too. -/
theorem exists_equals_of_altAttribute {quote : Char} (hquote : quote = '"' ∨ quote = '\'')
    {inside : Text} (h : AltAttribute value (c :: (inside ++ quote :: t))) :
    ∃ s gap rest, inside = s ++ (gap ++ '=' :: rest) ∧ Spells "alt" s ∧
      ∀ d ∈ gap, isSpace d = true := by
  obtain ⟨_, s, gap, gap', _, _, heq, -, hs, hgap, -⟩ := h
  have hclean : quote ∉ s ++ (gap ++ ['=']) := by
    simp only [List.mem_append, List.mem_singleton, not_or]
    refine ⟨hs.not_mem ?_, fun hmem => ?_, ?_⟩
    · rcases hquote with rfl | rfl <;> decide
    · have hspace := hgap quote hmem
      rw [isSpace_quote hquote] at hspace
      contradiction
    · rintro rfl
      exact absurd hquote (by decide)
  obtain ⟨-, heq⟩ := List.cons.inj heq
  rw [List.append_cons gap, ← List.append_assoc s] at heq
  obtain ⟨rest, hrest⟩ := exists_append_of_not_mem hclean heq
  exact ⟨s, gap, rest, by simpa using hrest, hs, hgap⟩

def isPlain (c : Char) : Bool := !isSpace c && c ≠ '='

theorem not_isPlain_equals {gap rest : Text} (hgap : ∀ d ∈ gap, isSpace d = true) :
    ∀ d ∈ (gap ++ '=' :: rest).head?, isPlain d = false := by
  cases gap with
  | nil =>
    rintro _ ⟨⟩
    decide
  | cons d gap =>
    rintro _ ⟨⟩
    simp [isPlain, hgap d List.mem_cons_self]

/-- An attribute whose name holds no white space reads like `alt` if it is that attribute. -/
theorem altAttribute_iff {a : Attribute} (hname : ∀ d ∈ a.name, isSpace d = false)
    (hc : isSpace c = true) :
    AltAttribute value
        (c :: (a.name ++ (a.left ++ '=' :: (a.right ++ a.quote :: (a.value ++ a.quote :: t))))) ↔
      Spells "alt" a.name ∧ value = a.value := by
  constructor
  · rintro ⟨_, s, gap, gap', quote, rest, heq, -, hs, hgap, hgap', hquote, hvalue⟩
    have hplain : ∀ d ∈ a.name, isPlain d = true := by
      intro d hd
      have hne : d ≠ '=' := by
        rintro rfl
        exact a.name_clean _ hd (by decide)
      simp [isPlain, hname d hd, hne]
    have hplain' : ∀ d ∈ s, isPlain d = true := by
      intro d hd
      have hne : d ≠ '=' := by
        rintro rfl
        exact hs.not_mem (by decide) hd
      simp [isPlain, hs.not_isSpace (forall_mem_of_all (by decide)) d hd, hne]
    have hequals : isSpace '=' = false := by decide
    obtain ⟨rfl, hbehind⟩ := run_unique hplain hplain' (not_isPlain_equals a.isGap_left.isSpace)
      (not_isPlain_equals hgap) (List.cons.inj heq).2
    obtain ⟨-, hequal⟩ := run_unique a.isGap_left.isSpace hgap (by simpa) (by simpa) hbehind
    obtain ⟨-, hquoted⟩ := run_unique a.isGap_right.isSpace hgap'
      (by simpa using isSpace_quote a.isQuote) (by simpa using isSpace_quote hquote)
      (List.cons.inj hequal).2
    obtain ⟨rfl, hvalues⟩ := List.cons.inj hquoted
    obtain ⟨rfl, -⟩ := cut_unique a.quote_not_mem hvalue hvalues
    exact ⟨hs, rfl⟩
  · rintro ⟨hspells, rfl⟩
    exact ⟨c, a.name, a.left, a.right, a.quote, t, rfl, hc, hspells, a.isGap_left.isSpace,
      a.isGap_right.isSpace, a.isQuote, a.quote_not_mem⟩

/-- In a value that does not mislead the rule nothing reads like an attribute `alt`. -/
theorem altIn_value {a : Attribute} (h : ¬ a.Misleads) :
    AltIn (a.value ++ a.quote :: t) value ↔ AltIn (a.quote :: t) value := by
  have hvalue : ∀ inside, inside <:+ a.value →
      (AltIn (inside ++ a.quote :: t) value ↔ AltIn (a.quote :: t) value) := by
    intro inside hsuffix
    induction inside with
    | nil => rfl
    | cons c inside ih =>
      have hnot : ¬ AltAttribute value (c :: (inside ++ a.quote :: t)) := by
        intro halt
        obtain ⟨s, gap, rest, rfl, hs, hgap⟩ := exists_equals_of_altAttribute a.isQuote halt
        obtain ⟨front, hfront⟩ := hsuffix
        exact h (.inr ⟨front, c, s, gap, rest, hfront.symm, space_of_altAttribute halt, hs, hgap⟩)
      rw [List.cons_append, altIn_cons, or_iff_right hnot]
      exact ih ((List.suffix_cons c inside).trans hsuffix)
  exact hvalue a.value List.suffix_rfl

/-- An attribute that does not mislead the rule reads like `alt` if it is that attribute. -/
theorem altIn_attribute {a : Attribute} (h : ¬ a.Misleads) :
    AltIn (a.text ++ t) value ↔ (Spells "alt" a.name ∧ value = a.value) ∨ AltIn t value := by
  obtain ⟨gap, c, hgap⟩ := List.eq_nil_or_concat a.gap |>.resolve_left a.gap_ne_nil
  have hspaces : IsGap (gap ++ [c]) := by
    rw [← List.concat_eq_append, ← hgap]
    exact a.isGap
  have hc : isSpace c = true := hspaces.isSpace c (by simp)
  have hname : ∀ d ∈ a.name, isSpace d = false := by
    intro d hd
    by_contra hnot
    exact h (.inl ⟨d, hd, by simpa using hnot⟩)
  have hnext : ∀ d : Char, isSpace d = true → fold d ≠ 'a' := by
    intro d hd hfold
    rw [fold_of_isSpace hd] at hfold
    rw [hfold] at hd
    exact absurd hd (by decide)
  have hquote : fold a.quote ≠ 'a' := by
    rcases a.isQuote with heq | heq <;> rw [heq] <;> decide
  have hmark : ∀ d ∈ [a.quote], isSpace d = false := by
    simpa using isSpace_quote a.isQuote
  have hparts : a.text ++ t = gap ++ c :: (a.name ++ (a.left ++ '=' :: (a.right ++ a.quote ::
      (a.value ++ a.quote :: t)))) := by
    simp [Attribute.text, hgap]
  have hquoted : AltIn (a.quote :: (a.value ++ a.quote :: t)) value ↔ AltIn t value := by
    rw [← List.singleton_append, altIn_plain hmark, altIn_value h, ← List.singleton_append,
      altIn_plain hmark]
  have hassigned :
      AltIn (a.left ++ '=' :: (a.right ++ a.quote :: (a.value ++ a.quote :: t))) value ↔
        AltIn t value := by
    have hequals : ∀ d ∈ ['='], isSpace d = false := forall_mem_of_all (by decide)
    rw [altIn_gap a.isGap_left (by simp; decide), ← List.singleton_append, altIn_plain hequals,
      altIn_gap a.isGap_right (by simpa using hquote), hquoted]
  have hbefore : IsGap gap := fun d hd => hspaces d (List.mem_append_left _ hd)
  rw [hparts, altIn_gap hbefore (by simpa using hnext c hc), altIn_cons, altAttribute_iff hname hc,
    altIn_plain hname, hassigned]

end

/-- Where no attribute misleads the rule, what reads like an attribute `alt` is one. -/
theorem altIn_text {image : Image} {value : Text} (h : ∀ a ∈ image.attributes, ¬ a.Misleads) :
    AltIn image.text value ↔ ∃ a ∈ image.attributes, Spells "alt" a.name ∧ value = a.value := by
  have hclose : ¬ AltIn (image.gap ++ image.close) value := by
    have hplain : ∀ c ∈ image.close, isSpace c = false ∧ fold c ≠ 'a' := by
      rcases image.isClose with heq | heq <;> rw [heq] <;> exact forall_mem_of_all (by decide)
    rw [altIn_gap image.isGap fun c hc => (hplain c (List.mem_of_mem_head? hc)).2,
      ← List.append_nil image.close, altIn_plain fun c hc => (hplain c hc).1]
    exact not_altIn_nil
  have hattributes : ∀ attributes : List Attribute, (∀ a ∈ attributes, ¬ a.Misleads) →
      (AltIn (attributes.flatMap Attribute.text ++ (image.gap ++ image.close)) value ↔
        ∃ a ∈ attributes, Spells "alt" a.name ∧ value = a.value) := by
    intro attributes hattributes
    induction attributes with
    | nil => simpa using hclose
    | cons a attributes ih =>
      rw [List.forall_mem_cons] at hattributes
      rw [List.flatMap_cons, List.append_assoc, altIn_attribute hattributes.1, ih hattributes.2,
        List.exists_mem_cons_iff]
  have hname : ∀ c ∈ ("<img" : Text), isSpace c = false := forall_mem_of_all (by decide)
  rw [Image.text, altIn_plain hname, Image.body, hattributes image.attributes h]

namespace Image

variable {image : Image}

theorem close_mem_body (image : Image) : '>' ∈ image.body := by
  have hclose : '>' ∈ image.close := by
    rcases image.isClose with heq | heq <;> simp [heq]
  simp [body, hclose]

theorem open_not_mem_body (image : Image) : '<' ∉ image.body := by
  have hgap : ∀ t, IsGap t → '<' ∉ t := fun t h hmem => absurd (h _ hmem) (by decide)
  have hclose : '<' ∉ image.close := by
    rcases image.isClose with heq | heq <;> simp [heq]
  have hattribute : ∀ a : Attribute, '<' ∉ a.text := by
    intro a
    have hname : '<' ∉ a.name := fun hmem => a.name_clean _ hmem (by decide)
    have hquote : '<' ≠ a.quote := by
      rcases a.isQuote with heq | heq <;> rw [heq] <;> decide
    simp [Attribute.text, hname, hquote, a.open_not_mem, hgap _ a.isGap, hgap _ a.isGap_left,
      hgap _ a.isGap_right]
  simp [body, hclose, hattribute, hgap _ image.isGap]

/-- The name of the tag ends where its attributes begin. -/
theorem wordEnds_body (image : Image) : WordEnds image.body := by
  have hgap : ∀ t, IsGap t → t ≠ [] → ∀ more, WordEnds (t ++ more) := by
    have hword : ∀ c ∈ [' ', '\t', '\n', '\r'], isWord c = false :=
      forall_mem_of_all (by decide)
    intro t ht hne more
    obtain ⟨c, t, rfl⟩ := List.exists_cons_of_ne_nil hne
    rintro _ ⟨⟩
    exact hword c (ht c List.mem_cons_self)
  unfold body
  cases image.attributes with
  | cons a attributes =>
    rw [List.flatMap_cons, Attribute.text, List.append_assoc, List.append_assoc]
    exact hgap a.gap a.isGap a.gap_ne_nil _
  | nil =>
    by_cases hnil : image.gap = []
    · rw [hnil]
      rcases image.isClose with heq | heq <;> rw [heq] <;> rintro _ ⟨⟩ <;> decide
    · exact hgap image.gap image.isGap hnil _

/-- The part of the tag that the rule looks at. -/
theorem exists_cut (image : Image) :
    ∃ cut rest, image.text = cut ++ rest ∧ ImageTag cut ∧ '<' ∉ rest := by
  obtain ⟨inside, rest, hbody, hinside⟩ := List.eq_append_cons_of_mem image.close_mem_body
  have hends := image.wordEnds_body
  have hopen := image.open_not_mem_body
  rw [hbody] at hends hopen
  refine ⟨("<img" : Text) ++ (inside ++ ['>']), rest, by simp [text, hbody], ?_, ?_⟩
  · have hname : Spells "<img" "<img" := by
      unfold Spells
      decide
    refine ⟨"<img", inside, rfl, hname, ?_, hinside⟩
    cases inside <;> exact hends
  · exact fun hmem => hopen (by simp [hmem])

/-- A tag that stands in a fragment stands inside the tag of no other image. -/
theorem StandsIn.exists_before {fragment : Text} (h : image.StandsIn fragment) :
    ∃ before after, fragment = before ++ (image.text ++ after) ∧ ¬ EndsInImage before := by
  obtain ⟨before, after, hfragment, hended⟩ := h
  refine ⟨before, after, hfragment, ?_⟩
  rintro ⟨front, s, inside, rfl, hs, -, hinside⟩
  obtain ⟨name, rfl, hname⟩ := hs.exists_open
  have hclose := hended front (name ++ inside) rfl
  refine (List.mem_append.1 hclose).elim (fun hmem => ?_) hinside
  exact hname.not_mem (by decide) hmem

end Image

/-- An image by itself is accepted if the first text that reads like an attribute `alt`, up to the
first `>` of its tag, has a value that is not blank. -/
theorem find?_image (image : Image) : ∃ cut rest, image.text = cut ++ rest ∧ ImageTag cut ∧
    (Rule.imageMissingAlt.find? image.text = none ↔ Described cut) := by
  obtain ⟨cut, rest, htext, hcut, -⟩ := image.exists_cut
  refine ⟨cut, rest, htext, hcut, ?_⟩
  rw [find?_eq_none]
  constructor
  · intro habsent
    by_contra hnot
    have hempty : ¬ EndsInImage [] := by
      rintro ⟨front, s, inside, heq, hs, -⟩
      obtain ⟨-, hrest⟩ := List.append_eq_nil_iff.1 heq.symm
      rw [(List.append_eq_nil_iff.1 hrest).1] at hs
      cases hs
    exact habsent [] _ rfl ⟨hempty, cut, rest, htext, hcut, hnot⟩
  · rintro hdescribed a b heq ⟨-, tag, rest', rfl, htag, hnot⟩
    have htag' : IsTag "<img" tag := isTag_iff.2 htag
    cases a with
    | nil =>
      obtain ⟨rfl, -⟩ := (isTag_iff.2 hcut).unique htag' (htext.symm.trans heq)
      exact hnot hdescribed
    | cons c a =>
      obtain ⟨s, inside, rfl, hs, -⟩ := htag
      obtain ⟨name, rfl, -⟩ := hs.exists_open
      have hmem : '<' ∈ ("img" : Text) ++ image.body := by
        rw [show ("img" : Text) ++ image.body = _ from (List.cons.inj heq).2]
        simp
      have hopen := image.open_not_mem_body
      simp only [List.mem_append, hopen, or_false] at hmem
      exact absurd hmem (by decide)

/-- Every image that stands in an accepted fragment has an attribute `alt` with a value that is
not blank, unless one of its attributes misleads the rule. By itself it is accepted exactly if the
first text that reads like an attribute `alt`, up to the first `>` of its tag, has such a value. -/
theorem image_described (image : Image) :
    (∀ placement path fragment, Fragment.check ⟨placement, path, fragment⟩ = .ok () →
      image.StandsIn fragment → image.Described ∨ ∃ a ∈ image.attributes, a.Misleads) ∧
    ∃ cut rest, image.text = cut ++ rest ∧ ImageTag cut ∧
      (Rule.imageMissingAlt.find? image.text = none ↔ Described cut) := by
  refine ⟨fun placement path fragment haccepted himage => ?_, find?_image image⟩
  rw [Results.check_eq_ok, check_eq_none] at haccepted
  have habsent := haccepted .imageMissingAlt rfl
  obtain ⟨before, after, rfl, hbefore⟩ := himage.exists_before
  obtain ⟨cut, rest, htext, htag, -⟩ := image.exists_cut
  by_cases hmisleads : ∃ a ∈ image.attributes, a.Misleads
  · exact .inr hmisleads
  · have hcut : Described cut := by
      by_contra hnot
      refine habsent before _ rfl ⟨hbefore, cut, rest ++ after, ?_, htag, hnot⟩
      rw [htext, List.append_assoc]
    obtain ⟨value, ⟨front, rest', rfl, halt, -⟩, hblank⟩ := hcut
    have hin : AltIn image.text value := by
      rw [htext]
      exact AltIn.append ⟨front, rest', rfl, halt⟩ rest
    obtain ⟨a, ha, hname, rfl⟩ := (altIn_text (by simpa using hmisleads)).1 hin
    exact .inl ⟨a, ha, hname, hblank⟩

def Attribute.plain (name value : Text) (hname : name ≠ [] ∧ ∀ c ∈ name, c ∉ delimiters)
    (hvalue : '"' ∉ value ∧ '<' ∉ value) : Attribute where
  gap := " "
  name := name
  left := []
  right := []
  quote := '"'
  value := value
  gap_ne_nil := by decide
  isGap := by decide
  name_ne_nil := hname.1
  name_clean := hname.2
  isGap_left := by decide
  isGap_right := by decide
  isQuote := .inl rfl
  quote_not_mem := hvalue.1
  open_not_mem := hvalue.2

def cat : Image where
  attributes := [.plain "src" "cat.png" ⟨by decide, forall_mem_of_all (by decide)⟩ (by decide),
    .plain "ALT" "a cat" ⟨by decide, forall_mem_of_all (by decide)⟩ (by decide),
    .plain "title" "cats > dogs" ⟨by decide, forall_mem_of_all (by decide)⟩ (by decide)]
  gap := " "
  close := "/>"
  isGap := by decide
  isClose := .inr rfl

def titled : Image where
  attributes := [.plain "title" " alt='x'" ⟨by decide, forall_mem_of_all (by decide)⟩ (by decide)]
  gap := []
  close := "/>"
  isGap := by decide
  isClose := .inr rfl

theorem standsIn_paragraph (image : Image) :
    image.StandsIn (("<p>" : Text) ++ (image.text ++ "</p>")) := by
  refine ⟨"<p>", "</p>", rfl, fun a b heq => ?_⟩
  cases a with
  | nil =>
    rw [← (List.cons.inj heq).2]
    decide
  | cons c a =>
    have hmem : '<' ∈ ("p>" : Text) := by
      rw [show ("p>" : Text) = a ++ '<' :: b from (List.cons.inj heq).2]
      simp
    exact absurd hmem (by decide)

theorem image_described_cat :
    Fragment.check ⟨.block, "body", ("<p>" : Text) ++ (cat.text ++ "</p>")⟩ = .ok () ∧
      (cat.Described ∨ ∃ a ∈ cat.attributes, a.Misleads) := by
  have haccepted : Fragment.check ⟨.block, "body", ("<p>" : Text) ++ (cat.text ++ "</p>")⟩ =
      .ok () := by
    decide
  obtain ⟨hsound, -⟩ := image_described cat
  exact ⟨haccepted, hsound .block "body" _ haccepted (standsIn_paragraph cat)⟩

/-- The text in the title is taken for the description that the picture lacks. -/
theorem image_undescribed_titled :
    ¬ ∀ placement path fragment (image : Image),
      Fragment.check ⟨placement, path, fragment⟩ = .ok () → image.StandsIn fragment →
        image.Described := by
  intro h
  have haccepted : Fragment.check ⟨.block, "body", ("<p>" : Text) ++ (titled.text ++ "</p>")⟩ =
      .ok () := by
    decide
  obtain ⟨a, ha, hname, -⟩ := h _ _ _ titled haccepted (standsIn_paragraph titled)
  obtain rfl := List.mem_singleton.1 ha
  exact absurd hname (by unfold Spells; decide)

end AssessmentItems.ImageTags
