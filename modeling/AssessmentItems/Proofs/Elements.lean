import AssessmentItems.Escaping
import AssessmentItems.Table
import Mathlib.Data.List.Basic

/-!
Elements read from markup. The reader goes through a text character by character, with the
elements that are open on a stack: a start tag opens an element, an end tag of the same name
puts what was read since into it. So a text that is read from one state to another is followed
part by part, and escaped values come out as they were.
-/
namespace AssessmentItems.Elements

open Text Escaping

structure Tag where
  name : Text
  attributes : Table Text
deriving DecidableEq

def Tag.attribute? (tag : Tag) (name : Text) : Option Text := Table.find? name tag.attributes

theorem attribute?_first (name key value : Text) (rest : Table Text) :
    Tag.attribute? ⟨name, (key, value) :: rest⟩ key = some value := if_pos rfl

inductive Tree where
  | character (c : Char)
  | element (tag : Tag) (content : List Tree)

def characters (content : List Tree) : Text :=
  content.filterMap fun
    | .character c => some c
    | .element _ _ => none

def elements (content : List Tree) : List (Tag × List Tree) :=
  content.filterMap fun
    | .character _ => none
    | .element tag inner => some (tag, inner)

def innerText (content : List Tree) : Text := unescape (characters content)

/-- Where the reader stands: in a content, or in a tag after what it has read of the tag. -/
inductive Place where
  | content
  | opening
  | closing (name : Text)
  | name (name : Text)
  | tag (tag : Tag)
  | key (tag : Tag) (name : Text)
  | assigned (tag : Tag) (name : Text)
  | value (tag : Tag) (name : Text) (quote : Char) (value : Text)
  | slash (tag : Tag)

/-- The elements that are open, each with what stands before it, the content of the innermost
one, and the place in it. -/
structure State where
  outer : List (Tag × List Tree)
  content : List Tree
  place : Place

def isDelimiter (c : Char) : Bool := isSpace c || ("<>/=\"'" : Text).contains c

namespace State

def openElement (s : State) (tag : Tag) : State := ⟨(tag, s.content) :: s.outer, [], .content⟩

def add (s : State) (tag : Tag) (inner : List Tree) : State :=
  ⟨s.outer, s.content ++ [.element tag inner], .content⟩

def closeElement (s : State) (name : Text) : Option State :=
  match s.outer with
  | [] => none
  | (tag, before) :: outer =>
    if tag.name = name then some (add ⟨outer, before, .content⟩ tag s.content) else none

def step (s : State) (c : Char) : Option State :=
  match s.place with
  | .content =>
    if c = '<' then some { s with place := .opening }
    else some { s with content := s.content ++ [.character c] }
  | .opening =>
    if c = '/' then some { s with place := .closing [] }
    else if isDelimiter c then none
    else some { s with place := .name [c] }
  | .closing name =>
    if c = '>' then s.closeElement name
    else if isDelimiter c then none
    else some { s with place := .closing (name ++ [c]) }
  | .name name =>
    if c = '>' then some (s.openElement ⟨name, []⟩)
    else if c = '/' then some { s with place := .slash ⟨name, []⟩ }
    else if isSpace c then some { s with place := .tag ⟨name, []⟩ }
    else if isDelimiter c then none
    else some { s with place := .name (name ++ [c]) }
  | .tag tag =>
    if c = '>' then some (s.openElement tag)
    else if c = '/' then some { s with place := .slash tag }
    else if isSpace c then some s
    else if isDelimiter c then none
    else some { s with place := .key tag [c] }
  | .key tag name =>
    if c = '=' then some { s with place := .assigned tag name }
    else if isDelimiter c then none
    else some { s with place := .key tag (name ++ [c]) }
  | .assigned tag name =>
    if c = '"' ∨ c = '\'' then some { s with place := .value tag name c [] } else none
  | .value tag name quote value =>
    if c = quote then
      some { s with
        place := .tag { tag with attributes := tag.attributes ++ [(name, unescape value)] } }
    else if c = '<' then none
    else some { s with place := .value tag name quote (value ++ [c]) }
  | .slash tag => if c = '>' then some (s.add tag []) else none

def run (s : State) (t : Text) : Option State := t.foldlM step s

end State

def read? (t : Text) : Option (List Tree) :=
  match State.run ⟨[], [], .content⟩ t with
  | some ⟨[], content, .content⟩ => some content
  | _ => none

theorem unescape_cons {c : Char} (h : c ≠ '&') (t : Text) :
    unescape (c :: t) = c :: unescape t := by
  rw [unescape]
  all_goals simp [h]

theorem unescape_textEntity (c : Char) (t : Text) :
    unescape (textEntity c ++ t) = c :: unescape t := by
  unfold textEntity
  split
  · rfl
  · rfl
  · rfl
  · next h _ _ => exact unescape_cons h t

theorem unescape_attributeEntity (c : Char) (t : Text) :
    unescape (attributeEntity c ++ t) = c :: unescape t := by
  unfold attributeEntity
  split
  · rfl
  · rfl
  · exact unescape_textEntity c t

theorem unescape_escapeText (t : Text) : unescape (escapeText t) = t := by
  induction t with
  | nil => rfl
  | cons c t ih => rw [escapeText, List.flatMap_cons, unescape_textEntity, ← escapeText, ih]

theorem unescape_escapeAttribute (t : Text) : unescape (escapeAttribute t) = t := by
  induction t with
  | nil => rfl
  | cons c t ih =>
    rw [escapeAttribute, List.flatMap_cons, unescape_attributeEntity, ← escapeAttribute, ih]

/-- No attribute value ends in an escaped text. -/
theorem quote_not_mem_escapeAttribute (t : Text) : '"' ∉ escapeAttribute t := by
  intro h
  obtain ⟨c, -, hc⟩ := List.mem_flatMap.1 h
  unfold attributeEntity at hc
  split at hc
  · simp at hc
  · simp at hc
  · next hquote _ =>
    unfold textEntity at hc
    split at hc
    · simp at hc
    · simp at hc
    · simp at hc
    · exact hquote (List.mem_singleton.1 hc).symm

def IsName (name : Text) : Prop := name ≠ [] ∧ ∀ c ∈ name, isDelimiter c = false

instance (name : Text) : Decidable (IsName name) :=
  decidable_of_iff (name ≠ [] ∧ name.all (!isDelimiter ·) = true)
    (and_congr_right' (by simp only [List.all_eq_true, Bool.not_eq_true']))

def attributeText (entry : Text × Text) : Text :=
  ' ' :: (entry.1 ++ '=' :: '"' :: (escapeAttribute entry.2 ++ ['"']))

def openText (tag : Tag) : Text := '<' :: (tag.name ++ tag.attributes.flatMap attributeText)

def startTag (tag : Tag) : Text := openText tag ++ ['>']

def emptyTag (tag : Tag) : Text := openText tag ++ ['/', '>']

def endTag (name : Text) : Text := '<' :: '/' :: (name ++ ['>'])

structure Tag.WellNamed (tag : Tag) : Prop where
  name : IsName tag.name
  keys : ∀ entry ∈ tag.attributes, IsName entry.1

namespace State

theorem run_append (s : State) (a b : Text) : run s (a ++ b) = (run s a).bind (run · b) :=
  List.foldlM_append

theorem run_cons {s s' : State} {c : Char} (h : step s c = some s') (t : Text) :
    run s (c :: t) = run s' t := by
  rw [run, List.foldlM_cons, h]
  rfl

theorem run_cons_append {s s' s'' : State} {a : Text} (h : run s a = some s') (b : Text)
    (hb : run s' b = some s'') : run s (a ++ b) = some s'' := by
  rw [run_append, h]
  exact hb

/-- Characters that are collected one by one are collected as a text. -/
theorem run_collect {place : Text → Place} {p : Char → Prop}
    (hstep : ∀ outer content t c, p c →
      step ⟨outer, content, place t⟩ c = some ⟨outer, content, place (t ++ [c])⟩)
    (outer : List (Tag × List Tree)) (content : List Tree) (t : Text) {more : Text}
    (hmore : ∀ c ∈ more, p c) :
    run ⟨outer, content, place t⟩ more = some ⟨outer, content, place (t ++ more)⟩ := by
  induction more generalizing t with
  | nil =>
    rw [List.append_nil]
    rfl
  | cons c more ih =>
    rw [List.forall_mem_cons] at hmore
    rw [run_cons (hstep _ _ _ _ hmore.1), ih _ hmore.2, List.append_assoc, List.singleton_append]

/-- A character of a name is none of those that end names. -/
theorem ne_of_not_delimiter {c d : Char} (hc : isDelimiter c = false) (hd : isDelimiter d = true) :
    c ≠ d := by
  rintro rfl
  rw [hc] at hd
  contradiction

theorem not_space_of_not_delimiter {c : Char} (hc : isDelimiter c = false) : isSpace c = false :=
  (Bool.or_eq_false_iff.1 hc).1

variable (outer : List (Tag × List Tree)) (content : List Tree)

theorem run_characters {t : Text} (h : '<' ∉ t) :
    run ⟨outer, content, .content⟩ t =
      some ⟨outer, content ++ t.map .character, .content⟩ := by
  induction t generalizing content with
  | nil =>
    rw [List.map_nil, List.append_nil]
    rfl
  | cons c t ih =>
    rw [List.mem_cons, not_or] at h
    have hstep : step ⟨outer, content, .content⟩ c =
        some ⟨outer, content ++ [.character c], .content⟩ := if_neg (Ne.symm h.1)
    rw [run_cons hstep, ih _ h.2, List.append_assoc, List.map_cons, List.singleton_append]

def afterAttributes (tag : Tag) : Place := if tag.attributes = [] then .name tag.name else .tag tag

theorem run_tagName {name : Text} (h : IsName name) :
    run ⟨outer, content, .content⟩ ('<' :: name) = some ⟨outer, content, .name name⟩ := by
  obtain ⟨hne, hplain⟩ := h
  obtain ⟨c, name, rfl⟩ := List.exists_cons_of_ne_nil hne
  rw [List.forall_mem_cons] at hplain
  obtain ⟨hc, hplain⟩ := hplain
  have hopen : step ⟨outer, content, .content⟩ '<' = some ⟨outer, content, .opening⟩ := rfl
  have hfirst : step ⟨outer, content, .opening⟩ c = some ⟨outer, content, .name [c]⟩ := by
    simp [step, ne_of_not_delimiter hc (d := '/') (by decide), hc]
  refine (run_cons hopen _).trans ((run_cons hfirst _).trans ?_)
  refine run_collect (p := (isDelimiter · = false)) (fun outer content t d hd => ?_) outer
    content [c] hplain
  simp [step, ne_of_not_delimiter hd (d := '>') (by decide),
    ne_of_not_delimiter hd (d := '/') (by decide), not_space_of_not_delimiter hd, hd]

theorem run_attribute {key : Text} (hkey : IsName key) (value : Text) (tag : Tag) :
    run ⟨outer, content, afterAttributes tag⟩ (attributeText (key, value)) =
      some ⟨outer, content, .tag { tag with attributes := tag.attributes ++ [(key, value)] }⟩ := by
  obtain ⟨hne, hplain⟩ := hkey
  obtain ⟨c, key, rfl⟩ := List.exists_cons_of_ne_nil hne
  rw [List.forall_mem_cons] at hplain
  obtain ⟨hc, hplain⟩ := hplain
  have hspace : step ⟨outer, content, afterAttributes tag⟩ ' ' =
      some ⟨outer, content, .tag tag⟩ := by
    obtain ⟨name, attributes⟩ := tag
    cases attributes with
    | nil => rfl
    | cons entry attributes => rfl
  have hfirst : step ⟨outer, content, .tag tag⟩ c = some ⟨outer, content, .key tag [c]⟩ := by
    simp [step, ne_of_not_delimiter hc (d := '>') (by decide),
      ne_of_not_delimiter hc (d := '/') (by decide), not_space_of_not_delimiter hc, hc]
  have hname : run ⟨outer, content, .key tag [c]⟩ key =
      some ⟨outer, content, .key tag (c :: key)⟩ := by
    refine run_collect (p := (isDelimiter · = false)) (fun outer content t d hd => ?_) outer
      content [c] hplain
    simp [step, ne_of_not_delimiter hd (d := '=') (by decide), hd]
  have hquote : run ⟨outer, content, .key tag (c :: key)⟩ ['=', '"'] =
      some ⟨outer, content, .value tag (c :: key) '"' []⟩ := rfl
  have hvalue : run ⟨outer, content, .value tag (c :: key) '"' []⟩ (escapeAttribute value) =
      some ⟨outer, content, .value tag (c :: key) '"' (escapeAttribute value)⟩ := by
    refine run_collect (p := fun d => d ≠ '"' ∧ d ≠ '<') (fun outer content t d hd => ?_)
      outer content [] fun d hd => ⟨?_, ?_⟩
    · simp [step, hd.1, hd.2]
    · rintro rfl
      exact quote_not_mem_escapeAttribute value hd
    · rintro rfl
      exact not_mem_escapeAttribute value hd
  have hend : run ⟨outer, content, .value tag (c :: key) '"' (escapeAttribute value)⟩ ['"'] =
      some ⟨outer, content,
        .tag { tag with attributes := tag.attributes ++ [(c :: key, value)] }⟩ := by
    have hstep : step ⟨outer, content, .value tag (c :: key) '"' (escapeAttribute value)⟩ '"' =
        some ⟨outer, content,
          .tag { tag with attributes := tag.attributes ++ [(c :: key, value)] }⟩ := by
      simp [step, unescape_escapeAttribute]
    exact run_cons hstep []
  rw [attributeText, List.cons_append, run_cons hspace, run_cons hfirst]
  exact run_cons_append hname _ (run_cons_append hquote _ (run_cons_append hvalue _ hend))

theorem run_openText {tag : Tag} (h : tag.WellNamed) :
    run ⟨outer, content, .content⟩ (openText tag) =
      some ⟨outer, content, afterAttributes tag⟩ := by
  obtain ⟨name, attributes⟩ := tag
  refine run_cons_append (run_tagName outer content h.name) _ ?_
  have hkeys := h.keys
  have hrest : ∀ before rest : Table Text, (∀ entry ∈ rest, IsName entry.1) →
      run ⟨outer, content, afterAttributes ⟨name, before⟩⟩ (rest.flatMap attributeText) =
        some ⟨outer, content, afterAttributes ⟨name, before ++ rest⟩⟩ := by
    intro before rest hrest
    induction rest generalizing before with
    | nil =>
      rw [List.append_nil]
      rfl
    | cons entry rest ih =>
      rw [List.forall_mem_cons] at hrest
      have hentry : afterAttributes ⟨name, before ++ [entry]⟩ = .tag ⟨name, before ++ [entry]⟩ :=
        if_neg (by simp)
      have hfirst := run_attribute outer content hrest.1 entry.2 ⟨name, before⟩
      rw [← hentry] at hfirst
      rw [List.flatMap_cons, List.append_cons]
      exact run_cons_append hfirst _ (ih _ hrest.2)
  exact hrest [] attributes hkeys

theorem run_startTag {tag : Tag} (h : tag.WellNamed) :
    run ⟨outer, content, .content⟩ (startTag tag) =
      some ⟨(tag, content) :: outer, [], .content⟩ := by
  refine run_cons_append (run_openText outer content h) _ ?_
  obtain ⟨name, attributes⟩ := tag
  cases attributes with
  | nil => rfl
  | cons entry attributes => rfl

theorem run_emptyTag {tag : Tag} (h : tag.WellNamed) :
    run ⟨outer, content, .content⟩ (emptyTag tag) =
      some ⟨outer, content ++ [.element tag []], .content⟩ := by
  refine run_cons_append (run_openText outer content h) _ ?_
  obtain ⟨name, attributes⟩ := tag
  cases attributes with
  | nil => rfl
  | cons entry attributes => rfl

theorem run_endTag {tag : Tag} (h : IsName tag.name) (before : List Tree) :
    run ⟨(tag, before) :: outer, content, .content⟩ (endTag tag.name) =
      some ⟨outer, before ++ [.element tag content], .content⟩ := by
  have hopen : run ⟨(tag, before) :: outer, content, .content⟩ ['<', '/'] =
      some ⟨(tag, before) :: outer, content, .closing []⟩ := rfl
  have hname : run ⟨(tag, before) :: outer, content, .closing []⟩ tag.name =
      some ⟨(tag, before) :: outer, content, .closing tag.name⟩ := by
    refine run_collect (p := (isDelimiter · = false)) (fun outer content t d hd => ?_) _
      content [] h.2
    simp [step, ne_of_not_delimiter hd (d := '>') (by decide), hd]
  have hclose : run ⟨(tag, before) :: outer, content, .closing tag.name⟩ ['>'] =
      some ⟨outer, before ++ [.element tag content], .content⟩ := by
    have hstep : step ⟨(tag, before) :: outer, content, .closing tag.name⟩ '>' =
        some ⟨outer, before ++ [.element tag content], .content⟩ := by
      simp [step, closeElement, add]
    exact run_cons hstep []
  exact run_cons_append hopen _ (run_cons_append hname _ hclose)

end State

/-- The text is read as trees that are added to a content. -/
def Reads (t : Text) (trees : List Tree) : Prop :=
  ∀ outer content, State.run ⟨outer, content, .content⟩ t = some ⟨outer, content ++ trees, .content⟩

theorem Reads.append {s t : Text} {a b : List Tree} (hs : Reads s a) (ht : Reads t b) :
    Reads (s ++ t) (a ++ b) := by
  intro outer content
  rw [← List.append_assoc]
  exact State.run_cons_append (hs outer content) _ (ht outer _)

theorem reads_nil : Reads [] [] := by
  intro outer content
  rw [List.append_nil]
  rfl

/-- Characters, none of which opens a tag. -/
theorem reads_characters {t : Text} (h : '<' ∉ t) : Reads t (t.map .character) :=
  fun outer content => State.run_characters outer content h

theorem reads_emptyTag {tag : Tag} (h : tag.WellNamed) : Reads (emptyTag tag) [.element tag []] :=
  fun outer content => State.run_emptyTag outer content h

theorem Reads.element {tag : Tag} (h : tag.WellNamed) {t : Text} {trees : List Tree}
    (ht : Reads t trees) : Reads (startTag tag ++ t ++ endTag tag.name) [.element tag trees] := by
  intro outer content
  rw [List.append_assoc]
  refine State.run_cons_append (State.run_startTag outer content h) _ ?_
  refine State.run_cons_append (ht _ []) _ ?_
  exact State.run_endTag outer trees h.name content

theorem Reads.flatMap {α : Type} {f : α → Text} {g : α → List Tree} {as : List α}
    (h : ∀ a ∈ as, Reads (f a) (g a)) : Reads (as.flatMap f) (as.flatMap g) := by
  induction as with
  | nil => exact reads_nil
  | cons a as ih =>
    rw [List.forall_mem_cons] at h
    exact h.1.append (ih h.2)

theorem Reads.read? {t : Text} {trees : List Tree} (h : Reads t trees) :
    read? t = some trees := by
  rw [Elements.read?, h [] []]
  rfl

end AssessmentItems.Elements
