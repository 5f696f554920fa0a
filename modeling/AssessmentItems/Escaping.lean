import AssessmentItems.Text

/-!
Entities for the characters that markup gives a meaning of its own, in element
content and in attribute values, and the reading that puts the characters back.
-/
namespace AssessmentItems.Escaping

def textEntity (c : Char) : Text :=
  match c with
  | '&' => "&amp;"
  | '<' => "&lt;"
  | '>' => "&gt;"
  | _ => [c]

/-- In an attribute value quotes of both kinds are written as entities, too. -/
def attributeEntity (c : Char) : Text :=
  match c with
  | '"' => "&quot;"
  | '\'' => "&apos;"
  | _ => textEntity c

def escapeText (t : Text) : Text := t.flatMap textEntity

def escapeAttribute (t : Text) : Text := t.flatMap attributeEntity

/-- Replaces the five entities once, from left to right; any other ampersand stays. -/
def unescape : Text → Text
  | '&' :: 'a' :: 'm' :: 'p' :: ';' :: t => '&' :: unescape t
  | '&' :: 'l' :: 't' :: ';' :: t => '<' :: unescape t
  | '&' :: 'g' :: 't' :: ';' :: t => '>' :: unescape t
  | '&' :: 'q' :: 'u' :: 'o' :: 't' :: ';' :: t => '"' :: unescape t
  | '&' :: 'a' :: 'p' :: 'o' :: 's' :: ';' :: t => '\'' :: unescape t
  | c :: t => c :: unescape t
  | [] => []

theorem escapeText_append (s t : Text) : escapeText (s ++ t) = escapeText s ++ escapeText t :=
  List.flatMap_append

theorem escapeAttribute_append (s t : Text) :
    escapeAttribute (s ++ t) = escapeAttribute s ++ escapeAttribute t :=
  List.flatMap_append

/-- No tag opens or ends in an escaped text. -/
theorem bracket_not_mem_escapeText {d : Char} (hd : d = '<' ∨ d = '>') (t : Text) :
    d ∉ escapeText t := by
  intro h
  obtain ⟨c, -, hc⟩ := List.mem_flatMap.1 h
  unfold textEntity at hc
  split at hc
  · rcases hd with rfl | rfl <;> simp at hc
  · rcases hd with rfl | rfl <;> simp at hc
  · rcases hd with rfl | rfl <;> simp at hc
  · next _ hopen hclose =>
    obtain rfl := List.mem_singleton.1 hc
    exact hd.elim hopen hclose

theorem bracket_not_mem_escapeAttribute {d : Char} (hd : d = '<' ∨ d = '>') (t : Text) :
    d ∉ escapeAttribute t := by
  intro h
  obtain ⟨c, -, hc⟩ := List.mem_flatMap.1 h
  unfold attributeEntity at hc
  split at hc
  · rcases hd with rfl | rfl <;> simp at hc
  · rcases hd with rfl | rfl <;> simp at hc
  · exact bracket_not_mem_escapeText hd [c] (by simpa [escapeText] using hc)

theorem not_mem_escapeText (t : Text) : '<' ∉ escapeText t :=
  bracket_not_mem_escapeText (.inl rfl) t

theorem not_mem_escapeAttribute (t : Text) : '<' ∉ escapeAttribute t :=
  bracket_not_mem_escapeAttribute (.inl rfl) t

end AssessmentItems.Escaping
