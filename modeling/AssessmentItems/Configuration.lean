import AssessmentItems.Decoding
import AssessmentItems.JsonReader

/-!
The settings of a compiler, with a default for each. They are read from a JSON value, or
straight from text: then a setting may not be given twice, and what stands under an
unknown key is only passed over.
-/
namespace AssessmentItems

structure Configuration where
  /-- The language of the documents. -/
  language : Text
  timeDependent : Bool
deriving Repr, DecidableEq

namespace Configuration

def defaultLanguage : Text := "en-US"

def standard : Configuration := ⟨defaultLanguage, false⟩

open Decoding

def record : Record Configuration where
  name := "CompilerConfig"
  fields := Fields.nothing Configuration.mk
    |>.withDefault "language" text defaultLanguage
    |>.withDefault "timeDependent" boolean false
  strict := false
  origin := .plain

open JsonReader

/-- The settings that were met so far. -/
structure Draft where
  language : Option Text
  timeDependent : Option Bool

namespace Draft

def empty : Draft := ⟨none, none⟩

def complete (d : Draft) : Configuration :=
  ⟨d.language.getD defaultLanguage, d.timeDependent.getD false⟩

end Draft

/-- Reads a value that is neither array nor object, if it has the wanted form. -/
def readScalar (form : Json → Option α) (t : Text) : Except JsonFault (α × Text) :=
  match skipGap t with
  | [] => .error .endOfText
  | c :: t =>
    let wanted (v : Json) (rest : Text) : Except JsonFault (α × Text) :=
      match form v with
      | some a => .ok (a, rest)
      | none => .error .wrongShape
    match token .strict c t with
    | (.string s, rest) => wanted (.string s) rest
    | (.scalar v, rest) => wanted v rest
    | (.openArray, _) => .error .wrongShape
    | (.openObject, _) => .error .wrongShape
    | (.brokenString fault, _) => .error fault
    | (.brokenScalar fault, _) => .error fault
    | _ => .error .malformed

def bool? : Json → Option Bool
  | .bool b => some b
  | _ => none

/-- The text after a colon. -/
def afterColon (t : Text) : Except JsonFault Text :=
  match skipGap t with
  | [] => .error .endOfText
  | ':' :: t => .ok t
  | _ => .error .malformed

/-- Reads a colon and what follows it. -/
def readMember (read : Text → Except JsonFault (α × Text)) (t : Text) :
    Except JsonFault (α × Text) := do
  read (← afterColon t)

/-- Reads what follows a key; a key that is there already is refused at once. -/
def readSetting (draft : Draft) (key t : Text) : Except JsonFault (Draft × Text) :=
  if key = "language" then
    if draft.language.isSome then .error .wrongShape
    else (readMember (readScalar Json.text?) t).map
      (Prod.map (fun language => { draft with language := some language }) id)
  else if key = "timeDependent" then
    if draft.timeDependent.isSome then .error .wrongShape
    else (readMember (readScalar bool?) t).map
      (Prod.map (fun timeDependent => { draft with timeDependent := some timeDependent }) id)
  else (readMember (readValue .lenient) t).map (Prod.map (fun _ => draft) id)

/-- What comes next in an object: its end, or the quote that opens a key. -/
inductive NextMember where
  | closed (rest : Text)
  | opened (rest : Text)

/-- Before every member but the first stands a comma. -/
def nextMember (first : Bool) (t : Text) : Except JsonFault NextMember :=
  match skipGap t with
  | [] => .error .endOfText
  | '}' :: t => .ok (.closed t)
  | c :: t =>
    if first then if c = '"' then .ok (.opened t) else .error .malformed
    else if c = ',' then
      match skipGap t with
      | [] => .error .endOfText
      | '"' :: t => .ok (.opened t)
      | _ => .error .malformed
    else .error .malformed

theorem skipGap_length (t : Text) : (skipGap t).length ≤ t.length :=
  (List.dropWhile_sublist isGap).length_le

theorem readScalar_length {form : Json → Option α} {t rest : Text} {a : α}
    (h : readScalar form t = .ok (a, rest)) : rest.length < t.length := by
  unfold readScalar at h
  have hgap := skipGap_length t
  split at h
  · contradiction
  · next c u hc =>
    have htoken := token_length .strict c u
    have hlt : (token .strict c u).2.length < t.length := by
      rw [hc, List.length_cons] at hgap
      omega
    split at h <;> simp_all
    all_goals
      split at h <;> simp_all

theorem afterColon_length {t rest : Text} (h : afterColon t = .ok rest) :
    rest.length < t.length := by
  unfold afterColon at h
  have hgap := skipGap_length t
  split at h
  · contradiction
  · next u hu =>
    simp only [Except.ok.injEq] at h
    rw [hu, List.length_cons] at hgap
    rw [← h]
    omega
  · contradiction

private theorem readMember_length {read : Text → Except JsonFault (α × Text)}
    (hread : ∀ u a r, read u = .ok (a, r) → r.length < u.length) {t rest : Text} {a : α}
    (h : readMember read t = .ok (a, rest)) : rest.length < t.length := by
  cases hc : afterColon t with
  | error e => simp [readMember, hc, bind, Except.bind] at h
  | ok u =>
    simp only [readMember, hc, bind, Except.bind] at h
    exact Nat.lt_trans (hread u a rest h) (afterColon_length hc)

private theorem of_map_eq_ok {r : Except JsonFault (α × Text)} {f : α → Draft} {draft : Draft}
    {rest : Text} (h : r.map (Prod.map f id) = .ok (draft, rest)) :
    ∃ a, r = .ok (a, rest) := by
  cases r with
  | error e => simp [Except.map] at h
  | ok v =>
    simp only [Except.map, Except.ok.injEq] at h
    have hrest : v.2 = rest := congrArg Prod.snd h
    exact ⟨v.1, by rw [← hrest]⟩

theorem readSetting_length {draft draft' : Draft} {key t rest : Text}
    (h : readSetting draft key t = .ok (draft', rest)) : rest.length < t.length := by
  unfold readSetting at h
  split at h
  · split at h
    · contradiction
    · obtain ⟨a, ha⟩ := of_map_eq_ok h
      exact readMember_length (fun _ _ _ hr => readScalar_length hr) ha
  · split at h
    · split at h
      · contradiction
      · obtain ⟨a, ha⟩ := of_map_eq_ok h
        exact readMember_length (fun _ _ _ hr => readScalar_length hr) ha
    · obtain ⟨a, ha⟩ := of_map_eq_ok h
      exact readMember_length (fun _ _ _ hr => readValue_length hr) ha

theorem nextMember_length {first : Bool} {t rest : Text}
    (h : nextMember first t = .ok (.opened rest)) : rest.length < t.length := by
  unfold nextMember at h
  have hgap := skipGap_length t
  split at h
  · contradiction
  · simp at h
  · next c u _ hc =>
    rw [hc, List.length_cons] at hgap
    split at h
    · split at h
      · simp only [Except.ok.injEq, NextMember.opened.injEq] at h
        rw [← h]
        omega
      · contradiction
    · split at h
      · have hinner := skipGap_length u
        split at h
        · contradiction
        · next v hv =>
          simp only [Except.ok.injEq, NextMember.opened.injEq] at h
          rw [hv, List.length_cons] at hinner
          rw [← h]
          omega
        · contradiction
      · contradiction

/-- Reads the members of an object up to its end. -/
def readMembers (draft : Draft) (first : Bool) (t : Text) :
    Except JsonFault (Configuration × Text) :=
  match _next : nextMember first t with
  | .error fault => .error fault
  | .ok (.closed rest) => .ok (draft.complete, rest)
  | .ok (.opened u) =>
    match _key : scanString .strict u with
    | .error fault => .error fault
    | .ok (key, u') =>
      match _setting : readSetting draft key u' with
      | .error fault => .error fault
      | .ok (draft, rest) => readMembers draft false rest
termination_by t.length
decreasing_by
  have hnext := nextMember_length _next
  have hkey := scanString_length _ _ _ _ _key
  have hsetting := readSetting_length _setting
  omega

/-- The text after the bracket that closes an array. -/
def readArrayEnd (t : Text) : Except JsonFault Text :=
  match skipGap t with
  | [] => .error .endOfText
  | ']' :: t => .ok t
  | _ => .error .malformed

/-- Reads the settings as the elements of an array, of which the later may be missing. -/
def readElements (t : Text) : Except JsonFault (Configuration × Text) :=
  match skipGap t with
  | ']' :: rest => .ok (standard, rest)
  | _ => do
    let (language, t) ← readScalar Json.text? t
    match skipGap t with
    | ',' :: t =>
      match skipGap t with
      | ']' :: _ => .error .malformed
      | _ => do
        let (timeDependent, t) ← readScalar bool? t
        .ok (⟨language, timeDependent⟩, ← readArrayEnd t)
    | _ => .ok (⟨language, false⟩, ← readArrayEnd t)

/-- Reads the configuration at the front of a text. -/
def readFront (t : Text) : Except JsonFault (Configuration × Text) :=
  match skipGap t with
  | '{' :: t => readMembers .empty true t
  | '[' :: t => readElements t
  | _ => readScalar (fun _ => none) t

/-- The configuration that a text denotes. -/
def ofText (t : Text) : Except JsonFault Configuration := do
  let (configuration, rest) ← readFront t
  if skipGap rest = [] then .ok configuration else .error .malformed

end Configuration
end AssessmentItems
