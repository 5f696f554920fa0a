import AssessmentItems.JsonReader
import AssessmentItems.Proofs.Results

/-!
A JSON text as the list of its tokens. What a text is read as depends on nothing but these, so the
white space between them does not count.
-/
namespace AssessmentItems.JsonTokens

open JsonReader Results

def tokens (t : Text) : List Token :=
  match _gap : skipGap t with
  | [] => []
  | c :: t => (token .strict c t).1 :: tokens (token .strict c t).2
termination_by t.length
decreasing_by
  rename_i u
  have htoken := token_length .strict c t
  have hgap := (List.dropWhile_sublist isGap (l := u)).length_le
  rw [← skipGap, _gap, List.length_cons] at hgap
  omega

/-- Takes tokens until the value is finished; nothing may follow it. -/
def run : State → List Token → Except JsonFault Json
  | _, [] => .error .endOfText
  | state, tok :: rest =>
    match step .strict state tok with
    | .error fault => .error fault
    | .ok (.finished v) => if rest.isEmpty then .ok v else .error .malformed
    | .ok state => run state rest

theorem tokens_eq_nil {t : Text} : tokens t = [] ↔ skipGap t = [] := by
  rw [tokens.eq_def]
  split
  · next hgap => simp [hgap]
  · next c u hgap => simp [hgap]

theorem tokens_cons {c : Char} {t u : Text} (h : skipGap t = c :: u) :
    tokens t = (token .strict c u).1 :: tokens (token .strict c u).2 := by
  rw [tokens.eq_def]
  split
  · next hgap =>
    rw [h] at hgap
    contradiction
  · next hgap =>
    obtain ⟨rfl, rfl⟩ := List.cons.inj (h.symm.trans hgap)
    rfl

theorem run_tokens {state : State} {t : Text} : run state (tokens t) =
    (readFrom .strict state t).bind fun (v, rest) =>
      if skipGap rest = [] then .ok v else .error .malformed := by
  generalize hmode : Mode.strict = mode
  fun_induction readFrom mode state t with
  | case1 state t hgap =>
    rw [tokens_eq_nil.2 hgap]
    rfl
  | case2 state t c u hgap fault hstep =>
    subst hmode
    rw [tokens_cons hgap, run, hstep]
    rfl
  | case3 state t c u hgap v hstep =>
    subst hmode
    rw [tokens_cons hgap, run, hstep]
    simp [Except.bind, tokens_eq_nil]
  | case4 state t c u hgap state' hne hstep ih =>
    subst hmode
    rw [tokens_cons hgap, run, hstep, ← ih]
    cases state' with
    | finished v => exact absurd rfl (hne v)
    | _ => rfl

theorem parse_eq_run (t : Text) : parse t = run (.value []) (tokens t) := by
  rw [run_tokens]
  rfl

end AssessmentItems.JsonTokens
