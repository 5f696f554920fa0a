import AssessmentItems.Fragments

/-!
Computations that succeeded, taken apart: each of their steps succeeded, and the result is
what the last step made of the results before. Checks of fragments succeed together if
each of them does.
-/
namespace AssessmentItems.Results

variable {ε ε' α β : Type}

theorem bind_eq_ok {x : Except ε α} {f : α → Except ε β} {b : β} :
    (x >>= f) = .ok b ↔ ∃ a, x = .ok a ∧ f a = .ok b := by
  cases x with
  | error e => simp [bind, Except.bind]
  | ok a => simp [bind, Except.bind]

/-- A failed computation fails in its first step or, after that, in what follows. -/
theorem bind_eq_error {x : Except ε α} {f : α → Except ε β} {e : ε} :
    (x >>= f) = .error e ↔ x = .error e ∨ ∃ a, x = .ok a ∧ f a = .error e := by
  cases x with
  | error e' => simp [bind, Except.bind]
  | ok a => simp [bind, Except.bind]

theorem map_eq_ok {x : Except ε α} {f : α → β} {b : β} :
    x.map f = .ok b ↔ ∃ a, x = .ok a ∧ f a = b := by
  cases x with
  | error e => simp [Except.map]
  | ok a => simp [Except.map]

theorem mapError_eq_ok {x : Except ε α} {f : ε → ε'} {a : α} :
    x.mapError f = .ok a ↔ x = .ok a := by
  cases x with
  | error e => exact ⟨nofun, nofun⟩
  | ok b =>
    constructor
    · exact fun h => congrArg Except.ok (Except.ok.inj h)
    · exact fun h => congrArg Except.ok (Except.ok.inj h)

theorem exists_of_isOk {x : Except ε α} (h : x.isOk = true) : ∃ a, x = .ok a := by
  cases x with
  | error e => contradiction
  | ok a => exact ⟨a, rfl⟩

/-- What a list of computations led to came from one of them. -/
theorem mem_of_mapM {f : α → Except ε β} {as : List α} {bs : List β} {b : β}
    (h : as.mapM f = .ok bs) (hb : b ∈ bs) : ∃ a ∈ as, f a = .ok b := by
  induction as generalizing bs with
  | nil =>
    obtain rfl := Except.ok.inj h
    simp at hb
  | cons a as ih =>
    rw [List.mapM_cons] at h
    obtain ⟨first, hfirst, h⟩ := bind_eq_ok.1 h
    obtain ⟨rest, hrest, h⟩ := bind_eq_ok.1 h
    obtain rfl := Except.ok.inj h
    rcases List.mem_cons.1 hb with rfl | hb
    · exact ⟨a, List.mem_cons_self, hfirst⟩
    · obtain ⟨a', ha', hfound⟩ := ih hrest hb
      exact ⟨a', List.mem_cons_of_mem _ ha', hfound⟩

/-- What is turned back one by one is turned back as a list. -/
theorem mapM_map_of_some (f : α → Option β) (g : β → α) (h : ∀ b, f (g b) = some b)
    (bs : List β) : (bs.map g).mapM f = some bs := by
  induction bs with
  | nil => rfl
  | cons b bs ih => simp [h, ih]

theorem counted_bind_eq_ok {c : Counted α} {f : α → Counted β} {b : β} :
    (c >>= f).result = .ok b ↔ ∃ a, c.result = .ok a ∧ (f a).result = .ok b := by
  obtain ⟨result, checks⟩ := c
  cases result with
  | error e => simp [bind]
  | ok a => simp [bind]

theorem check_eq_ok {f : Fragment} :
    f.check = .ok () ↔ ContentRules.check f.placement f.content = none := by
  unfold Fragment.check
  cases ContentRules.check f.placement f.content <;> simp

theorem ofFragments_eq_ok {fs : List Fragment} :
    (Counted.ofFragments fs).result = .ok () ↔
      ∀ f ∈ fs, ContentRules.check f.placement f.content = none := by
  induction fs with
  | nil => exact ⟨fun _ _ hf => absurd hf List.not_mem_nil, fun _ => rfl⟩
  | cons f fs ih =>
    rw [List.forall_mem_cons, ← ih, ← check_eq_ok]
    refine counted_bind_eq_ok.trans ⟨?_, ?_⟩
    · rintro ⟨⟨⟩, hf, hfs⟩
      exact ⟨hf, hfs⟩
    · rintro ⟨hf, hfs⟩
      exact ⟨(), hf, hfs⟩

end AssessmentItems.Results
