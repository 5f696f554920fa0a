import AssessmentItems.JsonReader
import AssessmentItems.Proofs.JsonValues
import AssessmentItems.Proofs.Results

/-!
How deep the values are that are read. What is still open leaves the less depth to the values
that it holds; each token keeps the values of a state within the depth that is left to them,
and so no value that is finished is nested deeper than values may be.
-/
namespace AssessmentItems.ReadDepth

open JsonReader JsonValues Results

def FitFrames : List Frame → Prop
  | [] => True
  | .array held :: outer =>
    outer.length < deepest ∧ (∀ v ∈ held, outer.length + 1 + depth v ≤ deepest) ∧ FitFrames outer
  | .member held _ :: outer =>
    outer.length < deepest ∧ (∀ m ∈ held, outer.length + 1 + depth m.2 ≤ deepest) ∧ FitFrames outer

def Fit : State → Prop
  | .value outer => FitFrames outer
  | .firstElement outer => FitFrames (.array [] :: outer)
  | .key _ held outer => FitFrames (.member held [] :: outer)
  | .colon held key outer => FitFrames (.member held key :: outer)
  | .afterElement held outer => FitFrames (.array held :: outer)
  | .afterMember held outer => FitFrames (.member held [] :: outer)
  | .finished v => depth v ≤ deepest

theorem length_le_of_fit {outer : List Frame} (h : FitFrames outer) : outer.length ≤ deepest := by
  match outer with
  | [] => exact Nat.zero_le _
  | .array _ :: _ => exact h.1
  | .member _ _ :: _ => exact h.1

theorem fit_deliver {v : Json} {outer : List Frame} (hv : outer.length + depth v ≤ deepest)
    (houter : FitFrames outer) : Fit (deliver v outer) := by
  match outer with
  | [] => simpa [deliver, Fit] using hv
  | .array held :: outer =>
    obtain ⟨hlength, hheld, houter⟩ := houter
    exact ⟨hlength, List.forall_mem_cons.2 ⟨by simpa using hv, hheld⟩, houter⟩
  | .member held key :: outer =>
    obtain ⟨hlength, hheld, houter⟩ := houter
    exact ⟨hlength, List.forall_mem_cons.2 ⟨by simpa using hv, hheld⟩, houter⟩

theorem depth_scalar {mode : Mode} {c : Char} {t : Text} {v : Json}
    (h : (token mode c t).1 = .scalar v) : depth v = 0 := by
  have hword : ∀ {w r}, depth w = 0 → (wordToken w r).1 = .scalar v → depth v = 0 := by
    intro w r hw h
    cases r with
    | error fault => cases h
    | ok rest =>
      obtain rfl := Token.scalar.inj h
      exact hw
  unfold token at h
  split at h
  case h_7 => split at h <;> cases h
  case h_8 => exact hword rfl h
  case h_9 => exact hword rfl h
  case h_10 => exact hword rfl h
  case h_11 =>
    split at h
    · split at h
      · next w rest hnumber =>
        obtain rfl := Token.scalar.inj h
        unfold scanNumber at hnumber
        split at hnumber
        · split at hnumber
          · obtain ⟨rfl, -⟩ := Prod.mk.inj (Except.ok.inj hnumber)
            rfl
          · cases hnumber
        · cases hnumber
        · obtain ⟨rfl, -⟩ := Prod.mk.inj (Except.ok.inj hnumber)
          rfl
        · cases hnumber
      · cases h
    · cases h
  all_goals cases h

theorem fit_startValue {outer : List Frame} {tok : Token} {state : State}
    (htoken : ∀ v, tok = .scalar v → depth v = 0) (houter : FitFrames outer)
    (h : startValue .strict outer tok = .ok state) : Fit state := by
  have hlength := length_le_of_fit houter
  cases tok with
  | string t =>
    obtain rfl := Except.ok.inj h
    exact fit_deliver hlength houter
  | scalar v =>
    obtain rfl := Except.ok.inj h
    refine fit_deliver ?_ houter
    rw [htoken v rfl]
    exact hlength
  | openArray =>
    simp only [startValue] at h
    split_ifs at h with hopen
    obtain rfl := Except.ok.inj h
    exact ⟨by simpa [mayOpen] using hopen, by simp, houter⟩
  | openObject =>
    simp only [startValue] at h
    split_ifs at h with hopen
    obtain rfl := Except.ok.inj h
    exact ⟨by simpa [mayOpen] using hopen, by simp, houter⟩
  | _ => cases h

theorem fit_array {held : List Json} {outer : List Frame} (h : FitFrames (.array held :: outer)) :
    Fit (deliver (.array held.reverse) outer) := by
  obtain ⟨hlength, hheld, houter⟩ := h
  refine fit_deliver ?_ houter
  have hdepth : depth (.array held.reverse) ≤ deepest - outer.length - 1 + 1 :=
    depth_array_le.2 fun v hv => by
      have hle := hheld v (List.mem_reverse.1 hv)
      omega
  omega

theorem fit_object {held : List (Text × Json)} {outer : List Frame}
    (h : FitFrames (.member held [] :: outer)) : Fit (deliver (.object held.reverse) outer) := by
  obtain ⟨hlength, hheld, houter⟩ := h
  refine fit_deliver ?_ houter
  have hdepth : depth (.object held.reverse) ≤ deepest - outer.length - 1 + 1 :=
    depth_object_le.2 fun m hm => by
      have hle := hheld m (List.mem_reverse.1 hm)
      omega
  omega

theorem fit_step {state state' : State} {tok : Token}
    (htoken : ∀ v, tok = .scalar v → depth v = 0) (hstate : Fit state)
    (h : step .strict state tok = .ok state') : Fit state' := by
  unfold step at h
  split at h
  case h_1 => exact fit_startValue htoken hstate h
  case h_2 =>
    obtain rfl := Except.ok.inj h
    exact fit_array hstate
  case h_3 => exact fit_startValue htoken hstate h
  case h_4 =>
    obtain rfl := Except.ok.inj h
    exact @fit_object [] _ hstate
  case h_5 =>
    obtain rfl := Except.ok.inj h
    exact hstate
  case h_7 =>
    obtain rfl := Except.ok.inj h
    exact hstate
  case h_8 =>
    obtain rfl := Except.ok.inj h
    exact hstate
  case h_9 =>
    obtain rfl := Except.ok.inj h
    exact fit_array hstate
  case h_10 =>
    obtain rfl := Except.ok.inj h
    exact hstate
  case h_11 =>
    obtain rfl := Except.ok.inj h
    exact fit_object hstate
  all_goals contradiction

theorem fit_readFrom {state : State} {t rest : Text} {v : Json} (hstate : Fit state)
    (h : readFrom .strict state t = .ok (v, rest)) : depth v ≤ deepest := by
  generalize hmode : Mode.strict = mode at h
  fun_induction readFrom mode state t with
  | case1 => contradiction
  | case2 => contradiction
  | case3 state t c u hgap v' hstep =>
    subst hmode
    obtain ⟨rfl, -⟩ := Prod.mk.inj (Except.ok.inj h)
    exact fit_step (fun w hw => depth_scalar hw) hstate hstep
  | case4 state t c u hgap state' hne hstep ih =>
    subst hmode
    exact ih (fit_step (fun w hw => depth_scalar hw) hstate hstep) h

/-- No value that is read is nested deeper than values may be. -/
theorem depth_of_parse {t : Text} {v : Json} (h : parse t = .ok v) : depth v ≤ deepest := by
  obtain ⟨⟨w, rest⟩, hvalue, hrest⟩ := bind_eq_ok.1 h
  dsimp only at hrest
  split_ifs at hrest
  obtain rfl := Except.ok.inj hrest
  exact fit_readFrom (show Fit (.value []) from trivial) hvalue

theorem depth_of_read {t : Text} {v : Json} (h : JsonReader.read t = .ok v) :
    depth v ≤ deepest := by
  obtain ⟨w, hparse, rfl⟩ := map_eq_ok.1 h
  exact Nat.le_trans (depth_ordered_le w) (depth_of_parse hparse)

end AssessmentItems.ReadDepth
