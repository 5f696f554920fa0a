import AssessmentItems.AnswerClass
import Mathlib.Data.Set.Card
import Mathlib.Logic.Relation

/-!
The class of an answer as a smallest closed set, beside the bounded search for it.
The search may take its frontier, and the variants that it offers, in any order. What
holds at every stage is that the accepted spellings are derivable from the start and
that whatever an accepted spelling implies is accepted or still to be drawn. A class
that fits is found whole in every order; of a larger one a full set is found.
-/
namespace AssessmentItems.AnswerClosure

open Text AnswerRules AnswerClass

def Closed (s : Set Text) : Prop := ∀ t ∈ s, ∀ m ∈ variants t, m ≠ [] → m ∈ s

def closure (value : Text) : Set Text := ⋂₀ {s | value ∈ s ∧ Closed s}

theorem mem_closure_self (value : Text) : value ∈ closure value := fun _ hs => hs.1

theorem closed_closure (value : Text) : Closed (closure value) := by
  intro t ht m hm hne s hs
  exact hs.2 t (ht s hs) m hm hne

theorem closure_subset {value : Text} {s : Set Text} (hv : value ∈ s) (hs : Closed s) :
    closure value ⊆ s := fun _ ht => ht s ⟨hv, hs⟩

theorem closure_isLeast (value : Text) :
    IsLeast {s : Set Text | value ∈ s ∧ Closed s} (closure value) :=
  ⟨⟨mem_closure_self value, closed_closure value⟩, fun _ hs => closure_subset hs.1 hs.2⟩

theorem closure_mono {value t : Text} (ht : t ∈ closure value) : closure t ⊆ closure value :=
  closure_subset ht (closed_closure value)

theorem insertAscending_perm {t : Text} {ts : List Text} (h : t ∉ ts) :
    (insertAscending t ts).Perm (t :: ts) := by
  induction ts with
  | nil => exact List.Perm.refl _
  | cons u rest ih =>
    have hne : t ≠ u := fun e => h (e ▸ List.mem_cons_self)
    have hrest : t ∉ rest := fun hm => h (List.mem_cons_of_mem _ hm)
    simp only [insertAscending]
    split_ifs with hlt
    · exact List.Perm.refl _
    · exact ((ih hrest).cons u).trans (List.Perm.swap t u rest)

structure Sound (value : Text) (accepted : List Text) : Prop where
  start : value ∈ accepted
  nodup : accepted.Nodup
  derived : ∀ t ∈ accepted, t ∈ closure value
  fits : accepted.length ≤ capacity

/-- The invariant of the search. While it goes on, all that an accepted spelling implies
is accepted unless the spelling waits in the frontier; when it is full, some spelling of
the class has found no room. -/
def Invariant (value : Text) : Absorbed → Prop
  | .within accepted frontier =>
    Sound value accepted ∧ (∀ t ∈ frontier, t ∈ accepted) ∧
      ∀ t ∈ accepted, t ∈ frontier ∨ ∀ m ∈ variants t, m ≠ [] → m ∈ accepted
  | .full accepted =>
    Sound value accepted ∧ accepted.length = capacity ∧ ∃ m ∈ closure value, m ∉ accepted

theorem Sound.insert {value t : Text} {accepted : List Text} (h : Sound value accepted)
    (ht : t ∈ closure value) (hnew : t ∉ accepted) (hroom : accepted.length < capacity) :
    Sound value (insertAscending t accepted) where
  start := mem_insertAscending.2 (Or.inr h.start)
  nodup := (insertAscending_perm hnew).nodup_iff.2 (List.nodup_cons.2 ⟨hnew, h.nodup⟩)
  derived u hu := by
    rcases mem_insertAscending.1 hu with rfl | hu
    · exact ht
    · exact h.derived u hu
  fits := by
    rw [(insertAscending_perm hnew).length_eq, List.length_cons]
    exact hroom

/-- Offering spellings of the class keeps the invariant, where an accepted spelling may
also have its variants among those still on offer. -/
theorem absorb_invariant {value : Text} (offered accepted frontier : List Text)
    (hsound : Sound value accepted) (hfrontier : ∀ t ∈ frontier, t ∈ accepted)
    (hoffered : ∀ m ∈ offered, m ≠ [] → m ∈ closure value)
    (hdrawn : ∀ t ∈ accepted, t ∈ frontier ∨
      ∀ m ∈ variants t, m ≠ [] → m ∈ accepted ∨ m ∈ offered) :
    Invariant value (absorb accepted frontier offered) := by
  induction offered generalizing accepted frontier with
  | nil =>
    refine ⟨hsound, hfrontier, fun t ht => ?_⟩
    rcases hdrawn t ht with hwait | hdone
    · exact Or.inl hwait
    · exact Or.inr fun m hm hne => (hdone m hm hne).resolve_right List.not_mem_nil
  | cons t rest ih =>
    have hrest : ∀ m ∈ rest, m ≠ [] → m ∈ closure value :=
      fun m hm => hoffered m (List.mem_cons_of_mem _ hm)
    simp only [absorb]
    split_ifs with hold hfull
    · refine ih accepted frontier hsound hfrontier hrest fun u hu => ?_
      rcases hdrawn u hu with hwait | hdone
      · exact Or.inl hwait
      · refine Or.inr fun m hm hne => ?_
        rcases hdone m hm hne with hm | hm
        · exact Or.inl hm
        · rcases List.mem_cons.1 hm with rfl | hm
          · exact Or.inl (hold.resolve_left hne)
          · exact Or.inr hm
    · have hne : t ≠ [] := fun e => hold (Or.inl e)
      exact ⟨hsound, le_antisymm hsound.fits hfull, t,
        hoffered t List.mem_cons_self hne, fun hm => hold (Or.inr hm)⟩
    · have hne : t ≠ [] := fun e => hold (Or.inl e)
      have hnew : t ∉ accepted := fun hm => hold (Or.inr hm)
      refine ih _ _ (hsound.insert (hoffered t List.mem_cons_self hne) hnew (by omega))
        ?_ hrest ?_
      · intro u hu
        rcases List.mem_cons.1 hu with rfl | hu
        · exact mem_insertAscending.2 (Or.inl rfl)
        · exact mem_insertAscending.2 (Or.inr (hfrontier u hu))
      · intro u hu
        rcases mem_insertAscending.1 hu with rfl | hu
        · exact Or.inl List.mem_cons_self
        · rcases hdrawn u hu with hwait | hdone
          · exact Or.inl (List.mem_cons_of_mem _ hwait)
          · refine Or.inr fun m hm hne => ?_
            rcases hdone m hm hne with hm | hm
            · exact Or.inl (mem_insertAscending.2 (Or.inr hm))
            · rcases List.mem_cons.1 hm with rfl | hm
              · exact Or.inl (mem_insertAscending.2 (Or.inl rfl))
              · exact Or.inr hm

/-- One step of a search: any spelling leaves the frontier, and its variants are offered
in any order. -/
inductive Draws : Absorbed → Absorbed → Prop
  | draw (accepted before : List Text) (t : Text) (after offered : List Text)
      (hoffered : ∀ m, m ∈ offered ↔ m ∈ variants t) :
      Draws (.within accepted (before ++ t :: after))
        (absorb accepted (before ++ after) offered)

def Visits (value : Text) : Absorbed → Prop :=
  Relation.ReflTransGen Draws (.within [value] [value])

/-- A search from a value ends with these spellings accepted: nothing is left to draw, or
there is no room. -/
def Finds (value : Text) (accepted : List Text) : Prop :=
  Visits value (.within accepted []) ∨ Visits value (.full accepted)

theorem invariant_start (value : Text) : Invariant value (.within [value] [value]) := by
  refine ⟨⟨List.mem_singleton_self value, List.nodup_singleton value, ?_, ?_⟩, ?_, ?_⟩
  · intro t ht
    exact List.mem_singleton.1 ht ▸ mem_closure_self value
  · simp [capacity]
  · exact fun t ht => ht
  · exact fun t ht => Or.inl ht

theorem draws_invariant {value : Text} {s s' : Absorbed} (h : Draws s s')
    (hs : Invariant value s) : Invariant value s' := by
  obtain ⟨accepted, before, t, after, offered, hoffered⟩ := h
  obtain ⟨hsound, hfrontier, hdrawn⟩ := hs
  have ht : t ∈ closure value := hsound.derived t (hfrontier t (by simp))
  refine absorb_invariant offered accepted (before ++ after) hsound ?_ ?_ ?_
  · intro u hu
    refine hfrontier u ?_
    simp only [List.mem_append, List.mem_cons] at hu ⊢
    tauto
  · exact fun m hm hne => closed_closure value t ht m ((hoffered m).1 hm) hne
  · intro u hu
    rcases hdrawn u hu with hwait | hdone
    · rcases List.mem_append.1 hwait with hbefore | hafter
      · exact Or.inl (List.mem_append_left _ hbefore)
      · rcases List.mem_cons.1 hafter with rfl | hafter
        · exact Or.inr fun m hm _ => Or.inr ((hoffered m).2 hm)
        · exact Or.inl (List.mem_append_right _ hafter)
    · exact Or.inr fun m hm hne => Or.inl (hdone m hm hne)

theorem visits_invariant {value : Text} {s : Absorbed} (h : Visits value s) :
    Invariant value s := by
  induction h with
  | refl => exact invariant_start value
  | tail _ hdraw ih => exact draws_invariant hdraw ih

/-- The room that is left, counted twice for the frontier entry that goes with it. -/
def budget : Absorbed → ℕ
  | .within accepted frontier => 2 * (capacity - accepted.length) + frontier.length + 1
  | .full _ => 0

theorem draws_budget {s s' : Absorbed} (h : Draws s s') : budget s' < budget s := by
  obtain ⟨accepted, before, t, after, offered, -⟩ := h
  cases hs : absorb accepted (before ++ after) offered with
  | full accepted' => simp [budget]
  | within accepted' frontier' =>
    have hle := absorb_measure offered accepted (before ++ after) accepted' frontier' hs
    simp only [budget, List.length_append, List.length_cons] at hle ⊢
    omega

/-- No search goes on for ever, whatever order it takes. -/
theorem draws_wellFounded : WellFounded fun s' s => Draws s s' :=
  Subrelation.wf draws_budget (InvImage.wf budget Nat.lt_wfRel.wf)

theorem close_draws (accepted frontier : List Text) :
    Relation.ReflTransGen Draws (.within accepted frontier)
        (.within (close accepted frontier) []) ∨
      Relation.ReflTransGen Draws (.within accepted frontier)
        (.full (close accepted frontier)) := by
  induction accepted, frontier using close.induct with
  | case1 accepted =>
    rw [close]
    exact Or.inl .refl
  | case2 accepted t frontier accepted' hstep =>
    rw [close, hstep]
    have hdraw := Draws.draw accepted [] t frontier (ascending (variants t)) fun m =>
      mem_ascending
    simp only [List.nil_append, hstep] at hdraw
    exact Or.inr (.single hdraw)
  | case3 accepted t frontier accepted' frontier' hstep ih =>
    rw [close, hstep]
    have hdraw := Draws.draw accepted [] t frontier (ascending (variants t)) fun m =>
      mem_ascending
    simp only [List.nil_append, hstep] at hdraw
    exact ih.imp (.head hdraw) (.head hdraw)

theorem finds_expand (value : Text) : Finds value (expand value) :=
  close_draws [value] [value]

theorem encard_members {ts : List Text} (h : ts.Nodup) :
    {t | t ∈ ts}.encard = (ts.length : ℕ∞) := by
  rw [← List.coe_toFinset, Set.encard_coe_eq_coe_finsetCard, List.toFinset_card_of_nodup h]

theorem encard_members_le (ts : List Text) : {t | t ∈ ts}.encard ≤ (ts.length : ℕ∞) := by
  rw [← List.coe_toFinset, Set.encard_coe_eq_coe_finsetCard]
  exact_mod_cast List.toFinset_card_le ts

/-- Where nothing is left to draw, the whole class is accepted. -/
theorem members_of_within {value : Text} {accepted : List Text}
    (h : Visits value (.within accepted [])) : {t | t ∈ accepted} = closure value := by
  obtain ⟨hsound, -, hdrawn⟩ := visits_invariant h
  refine Set.Subset.antisymm (fun t ht => hsound.derived t ht) (closure_subset hsound.start ?_)
  intro t ht m hm hne
  exact (hdrawn t ht).resolve_left List.not_mem_nil m hm hne

/-- A search ends for want of room only in a class that is larger than the room. -/
theorem capacity_lt_of_full {value : Text} {accepted : List Text}
    (h : Visits value (.full accepted)) : (capacity : ℕ∞) < (closure value).encard := by
  obtain ⟨hsound, hlength, m, hm, hmnot⟩ := visits_invariant h
  have hnodup : (m :: accepted).Nodup := List.nodup_cons.2 ⟨hmnot, hsound.nodup⟩
  have hsub : {t | t ∈ m :: accepted} ⊆ closure value := by
    intro t ht
    rcases List.mem_cons.1 ht with rfl | ht
    · exact hm
    · exact hsound.derived t ht
  have hle := Set.encard_le_encard hsub
  rw [encard_members hnodup, List.length_cons, hlength] at hle
  exact lt_of_lt_of_le (by exact_mod_cast Nat.lt_succ_self capacity) hle

theorem members_of_finds {value : Text} {accepted : List Text} (h : Finds value accepted)
    (hfits : (closure value).encard ≤ capacity) : {t | t ∈ accepted} = closure value := by
  rcases h with hdone | hfull
  · exact members_of_within hdone
  · exact absurd (capacity_lt_of_full hfull) (not_lt.2 hfits)

/-- A class that fits is expanded to all of its members. -/
theorem mem_expand_iff {value m : Text} (hfits : (closure value).encard ≤ capacity) :
    m ∈ expand value ↔ m ∈ closure value :=
  Set.ext_iff.1 (members_of_finds (finds_expand value) hfits) m

theorem expand_subset {value m : Text} (hfits : (closure value).encard ≤ capacity)
    (hm : m ∈ expand value) : expand m ⊆ expand value := by
  have hsub : closure m ⊆ closure value := closure_mono ((mem_expand_iff hfits).1 hm)
  intro t ht
  have hm' : t ∈ closure m :=
    (mem_expand_iff ((Set.encard_le_encard hsub).trans hfits)).1 ht
  exact (mem_expand_iff hfits).2 (hsub hm')

/-- A list that holds a value and that no rule leads out of bounds the class. -/
theorem closure_subset_list {value : Text} {ts : List Text} (hv : value ∈ ts)
    (hclosed : ∀ t ∈ ts, ∀ m ∈ variants t, m ≠ [] → m ∈ ts) : closure value ⊆ {t | t ∈ ts} :=
  closure_subset hv hclosed

/-- If also each of its members is derivable, and it fits, then it lists the expansion. -/
theorem mem_expand_of_list {value m : Text} {ts : List Text} (hv : value ∈ ts)
    (hclosed : ∀ t ∈ ts, ∀ m ∈ variants t, m ≠ [] → m ∈ ts)
    (hderived : ∀ t ∈ ts, t ∈ closure value) (hlength : ts.length ≤ capacity) :
    m ∈ expand value ↔ m ∈ ts := by
  have hsub := closure_subset_list hv hclosed
  have hfits : (closure value).encard ≤ capacity :=
    (Set.encard_le_encard hsub).trans
      ((encard_members_le ts).trans (by exact_mod_cast hlength))
  rw [mem_expand_iff hfits]
  exact ⟨fun hm => hsub hm, hderived m⟩

theorem full_of_finds {value : Text} {accepted : List Text} (h : Finds value accepted)
    (hlarge : (capacity : ℕ∞) < (closure value).encard) :
    {t | t ∈ accepted} ⊆ closure value ∧ {t | t ∈ accepted}.encard = capacity ∧
      value ∈ accepted := by
  rcases h with hdone | hfull
  · obtain ⟨hsound, -, -⟩ := visits_invariant hdone
    rw [← members_of_within hdone, encard_members hsound.nodup] at hlarge
    exact absurd hlarge (not_lt.2 (by exact_mod_cast hsound.fits))
  · obtain ⟨hsound, hlength, -⟩ := visits_invariant hfull
    exact ⟨fun t ht => hsound.derived t ht, by rw [encard_members hsound.nodup, hlength],
      hsound.start⟩

/-- Whatever its order, a search from a value finds the class if it fits, and a full part
of it otherwise; the search that runs is one of them. A class that fits contains the
classes of its members. -/
theorem finds_closure (value : Text) :
    (∀ accepted, Finds value accepted →
      ((closure value).encard ≤ capacity → {t | t ∈ accepted} = closure value) ∧
      (capacity < (closure value).encard →
        {t | t ∈ accepted} ⊆ closure value ∧ {t | t ∈ accepted}.encard = capacity ∧
          value ∈ accepted)) ∧
    Finds value (expand value) ∧
    ((closure value).encard ≤ capacity → ∀ m ∈ expand value, expand m ⊆ expand value) := by
  refine ⟨fun accepted h => ⟨members_of_finds h, full_of_finds h⟩, finds_expand value, ?_⟩
  exact fun hfits m hm => expand_subset hfits hm

end AssessmentItems.AnswerClosure
