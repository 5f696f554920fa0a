import AssessmentItems.Table
import Mathlib.Data.List.Induction
import Mathlib.Data.List.Nodup
import Mathlib.Tactic.Common

/-!
Tables from names to values. A list of entries becomes a table whose names ascend, and in which
the last of several entries under one name is found; a table that ascends stays as it is.
-/
namespace AssessmentItems.Tables

variable {α β : Type} {name : Text} {value : α} {entries more : Table α}

theorem find?_append (name : Text) (entries more : Table α) :
    Table.find? name (entries ++ more) =
      (Table.find? name entries).or (Table.find? name more) := by
  induction entries with
  | nil => rfl
  | cons entry entries ih =>
    obtain ⟨n, v⟩ := entry
    simp only [List.cons_append, Table.find?]
    split_ifs
    · rfl
    · exact ih

theorem find?_append_of_some (h : Table.find? name entries = some value) (more : Table α) :
    Table.find? name (entries ++ more) = some value := by
  rw [find?_append, h, Option.some_or]

theorem mem_of_find? (h : Table.find? name entries = some value) : (name, value) ∈ entries := by
  induction entries with
  | nil => simp [Table.find?] at h
  | cons entry entries ih =>
    obtain ⟨n, v⟩ := entry
    simp only [Table.find?] at h
    split_ifs at h with hn
    · obtain rfl := Option.some.inj h
      rw [hn]
      exact List.mem_cons_self
    · exact List.mem_cons_of_mem _ (ih h)

theorem find?_of_mem (hnames : (Table.names entries).Nodup) (h : (name, value) ∈ entries) :
    Table.find? name entries = some value := by
  induction entries with
  | nil => simp at h
  | cons entry entries ih =>
    obtain ⟨n, v⟩ := entry
    obtain ⟨hn, hnames⟩ := List.nodup_cons.1 hnames
    rcases List.mem_cons.1 h with heq | h
    · obtain ⟨rfl, rfl⟩ := Prod.mk.inj heq
      exact if_pos rfl
    · rw [Table.find?, if_neg, ih hnames h]
      rintro rfl
      exact hn (List.mem_map.2 ⟨_, h, rfl⟩)

theorem find?_map (f : α → β) (name : Text) (entries : Table α) :
    Table.find? name (entries.map (Prod.map id f)) = (Table.find? name entries).map f := by
  induction entries with
  | nil => rfl
  | cons entry entries ih =>
    obtain ⟨n, v⟩ := entry
    simp only [List.map_cons, Prod.map_apply, id_eq, Table.find?]
    split_ifs
    · rfl
    · exact ih

theorem find?_isSome : (Table.find? name entries).isSome ↔ name ∈ Table.names entries := by
  induction entries with
  | nil => simp [Table.find?, Table.names]
  | cons entry entries ih =>
    obtain ⟨n, v⟩ := entry
    simp only [Table.find?, Table.names, List.map_cons, List.mem_cons] at ih ⊢
    split_ifs with hn
    · simp [hn]
    · rw [ih]
      exact ⟨.inr, fun h => h.resolve_left (Ne.symm hn)⟩

theorem find?_eq_none : Table.find? name entries = none ↔ name ∉ Table.names entries := by
  rw [← find?_isSome, Option.not_isSome_iff_eq_none]

theorem find?_erase {other : Text} :
    Table.find? name (Table.erase other entries) =
      if name = other then none else Table.find? name entries := by
  induction entries with
  | nil => simp [Table.erase, Table.find?]
  | cons entry entries ih =>
    obtain ⟨n, v⟩ := entry
    simp only [Table.erase, List.filter_cons, Table.find?] at ih ⊢
    by_cases hn : n = other
    · subst hn
      rw [if_neg (by simp), ih]
      by_cases hname : name = n
      · rw [if_pos hname, if_pos hname]
      · rw [if_neg hname, if_neg hname, if_neg (Ne.symm hname)]
    · rw [if_pos (by simpa using hn), Table.find?, ih]
      by_cases hname : n = name
      · subst hname
        rw [if_pos rfl, if_neg hn, if_pos rfl]
      · rw [if_neg hname, if_neg hname]

def Ascending (entries : Table α) : Prop := (Table.names entries).Pairwise (· < ·)

theorem ascending_cons {entry : Text × α} :
    Ascending (entry :: entries) ↔
      (∀ other ∈ entries, entry.1 < other.1) ∧ Ascending entries := by
  simp [Ascending, Table.names]

theorem Ascending.nodup (h : Ascending entries) : (Table.names entries).Nodup := by
  refine List.Pairwise.imp ?_ h
  rintro a b hlt rfl
  exact List.lt_irrefl a hlt

theorem Ascending.sublist (h : Ascending more) (hsub : entries.Sublist more) :
    Ascending entries :=
  List.Pairwise.sublist (hsub.map _) h

theorem names_map (f : α → β) (entries : Table α) :
    Table.names (entries.map (Prod.map id f)) = Table.names entries := by
  simp [Table.names]

theorem ascending_map {f : α → β} :
    Ascending (entries.map (Prod.map id f)) ↔ Ascending entries := by
  rw [Ascending, names_map, Ascending]

theorem mem_insert {entry : Text × α} (h : entry ∈ Table.insert name value entries) :
    entry = (name, value) ∨ entry ∈ entries := by
  induction entries with
  | nil => exact .inl (List.mem_singleton.1 h)
  | cons first entries ih =>
    obtain ⟨n, v⟩ := first
    simp only [Table.insert] at h
    split_ifs at h
    · exact List.mem_cons.1 h
    · rcases List.mem_cons.1 h with h | h
      · exact .inl h
      · exact .inr (List.mem_cons_of_mem _ h)
    · rcases List.mem_cons.1 h with rfl | h
      · exact .inr List.mem_cons_self
      · exact (ih h).imp_right (List.mem_cons_of_mem _)

theorem Ascending.insert (h : Ascending entries) : Ascending (Table.insert name value entries) := by
  induction entries with
  | nil => exact List.pairwise_singleton _ _
  | cons first entries ih =>
    obtain ⟨n, v⟩ := first
    obtain ⟨hfirst, hrest⟩ := ascending_cons.1 h
    simp only [Table.insert]
    split_ifs with hlt heq
    · refine ascending_cons.2 ⟨fun other hother => ?_, h⟩
      rcases List.mem_cons.1 hother with rfl | hother
      · exact hlt
      · exact List.lt_trans hlt (hfirst other hother)
    · subst heq
      exact ascending_cons.2 ⟨hfirst, hrest⟩
    · refine ascending_cons.2 ⟨fun other hother => ?_, ih hrest⟩
      rcases mem_insert hother with rfl | hother
      · by_contra hgt
        exact heq (List.le_antisymm (List.not_lt.1 hgt) (List.not_lt.1 hlt))
      · exact hfirst other hother

/-- A name above those of a table goes to its end. -/
theorem insert_of_lt (h : ∀ entry ∈ entries, entry.1 < name) :
    Table.insert name value entries = entries ++ [(name, value)] := by
  induction entries with
  | nil => rfl
  | cons first entries ih =>
    obtain ⟨n, v⟩ := first
    obtain ⟨hfirst, hrest⟩ := List.forall_mem_cons.1 h
    rw [Table.insert, if_neg (List.lt_asymm hfirst), if_neg, ih hrest, List.cons_append]
    rintro rfl
    exact List.lt_irrefl _ hfirst

theorem ofEntries_append_singleton (entries : Table α) (name : Text) (value : α) :
    Table.ofEntries (entries ++ [(name, value)]) =
      Table.insert name value (Table.ofEntries entries) := by
  rw [Table.ofEntries, List.foldl_append]
  rfl

/-- Of several entries under one name the last is found. -/
theorem find?_ofEntries (name : Text) (entries : Table α) :
    Table.find? name (Table.ofEntries entries) = Table.find? name entries.reverse := by
  induction entries using List.reverseRecOn with
  | nil => rfl
  | append_singleton entries entry ih =>
    obtain ⟨n, v⟩ := entry
    rw [List.reverse_append, List.reverse_singleton, List.singleton_append, Table.find?, ← ih,
      ofEntries_append_singleton, Table.find?_insert]
    simp only [eq_comm]

/-- The order of entries does not matter if each name occurs once. -/
theorem find?_ofEntries_of_nodup (hnames : (Table.names entries).Nodup) (name : Text) :
    Table.find? name (Table.ofEntries entries) = Table.find? name entries := by
  have hreverse : (Table.names entries.reverse).Nodup := by
    rw [Table.names, List.map_reverse]
    exact List.nodup_reverse.2 hnames
  rw [find?_ofEntries]
  cases h : Table.find? name entries with
  | none =>
    rw [find?_eq_none] at h ⊢
    rwa [Table.names, List.map_reverse, List.mem_reverse]
  | some value => exact find?_of_mem hreverse (List.mem_reverse.2 (mem_of_find? h))

theorem mem_of_mem_ofEntries {entry : Text × α} (h : entry ∈ Table.ofEntries entries) :
    entry ∈ entries := by
  induction entries using List.reverseRecOn with
  | nil => exact h
  | append_singleton entries last ih =>
    obtain ⟨n, v⟩ := last
    rw [ofEntries_append_singleton] at h
    rcases mem_insert h with rfl | h
    · exact List.mem_append_right _ List.mem_cons_self
    · exact List.mem_append_left _ (ih h)

theorem ascending_ofEntries (entries : Table α) : Ascending (Table.ofEntries entries) := by
  induction entries using List.reverseRecOn with
  | nil => exact List.Pairwise.nil
  | append_singleton entries last ih =>
    rw [ofEntries_append_singleton]
    exact ih.insert

theorem Ascending.ofEntries_eq (h : Ascending entries) : Table.ofEntries entries = entries := by
  induction entries using List.reverseRecOn with
  | nil => rfl
  | append_singleton entries last ih =>
    obtain ⟨n, v⟩ := last
    rw [ofEntries_append_singleton, ih (h.sublist (List.sublist_append_left _ _))]
    apply insert_of_lt
    intro entry hentry
    rw [Ascending, Table.names, List.map_append, List.pairwise_append] at h
    exact h.2.2 _ (List.mem_map_of_mem hentry) _ List.mem_cons_self

/-- A table that ascends is known by what is found in it. -/
theorem Ascending.ext (h : Ascending entries) (hmore : Ascending more)
    (hfind : ∀ name, Table.find? name entries = Table.find? name more) : entries = more := by
  induction entries generalizing more with
  | nil =>
    cases more with
    | nil => rfl
    | cons other more =>
      have hfirst := hfind other.1
      simp [Table.find?] at hfirst
  | cons entry entries ih =>
    cases more with
    | nil =>
      have hfirst := hfind entry.1
      simp [Table.find?] at hfirst
    | cons other more =>
      obtain ⟨n, v⟩ := entry
      obtain ⟨m, w⟩ := other
      obtain ⟨hentries, htail⟩ := ascending_cons.1 h
      obtain ⟨hother, hmoretail⟩ := ascending_cons.1 hmore
      have hnames : n = m := by
        by_contra hne
        have hn := hfind n
        have hm := hfind m
        simp only [Table.find?, if_true, if_neg hne, if_neg (Ne.symm hne)] at hn hm
        have hlt := hother _ (mem_of_find? hn.symm)
        have hgt := hentries _ (mem_of_find? hm)
        exact List.lt_asymm hlt hgt
      subst hnames
      have hvalues := hfind n
      simp only [Table.find?, if_true, Option.some.injEq] at hvalues
      subst hvalues
      congr 1
      refine ih htail hmoretail fun name => ?_
      have hrest := hfind name
      by_cases hname : n = name
      · subst hname
        rw [find?_eq_none.2 (List.nodup_cons.1 h.nodup).1,
          find?_eq_none.2 (List.nodup_cons.1 hmore.nodup).1]
      · simpa only [Table.find?, if_neg hname] using hrest

end AssessmentItems.Tables
