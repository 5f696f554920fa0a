import AssessmentItems.Proofs.SlotChains
import Mathlib.Data.List.Nodup

/-!
What the failure of a substitution says. Each occurrence of a placeholder, in a content or in a
slot that the content leads to, has an address, and the names on the way tell whether it fails
and how. Substitution visits the occurrences depth first, the last of a content before the
others, and reports the first that fails; so its report is about references that are there.
-/
namespace AssessmentItems.SlotFailures

open Text Scanning Slots Pieces Results Substitution SlotChains

def placed (content : Text) : List Text :=
  (occurrences (segments content)).map Placeholder.name

theorem mem_placed {content name : Text} : name ∈ placed content ↔ name ∈ referenced content :=
  mem_ascending.symm

/-- An occurrence of a placeholder in a content or below it. The address has, for each
placeholder on the way, its place among those of the content where it stands; `before` has the
names of the slots on the way, and `name` is the name of the occurrence. -/
inductive Occurs (slots : SlotTable) :
    (content : Text) → (address : List ℕ) → (before : List Text) → (name : Text) → Prop
  | here {content name : Text} {i : ℕ} (hplace : (placed content)[i]? = some name) :
      Occurs slots content [i] [] name
  | within {content first inner name : Text} {i : ℕ} {address : List ℕ} {before : List Text}
      (hplace : (placed content)[i]? = some first) (hinner : Table.find? first slots = some inner)
      (hrest : Occurs slots inner address before name) :
      Occurs slots content (i :: address) (first :: before) name

inductive Fails (slots : SlotTable) (before : List Text) (name : Text) : SlotError → Prop
  | missing (hnone : Table.find? name slots = none) : Fails slots before name (.missing name)
  | cycle (hdefined : (Table.find? name slots).isSome = true) (hagain : name ∈ before) :
      Fails slots before name (.cycle (before ++ [name]))
  | depth (hdefined : (Table.find? name slots).isSome = true) (hnew : name ∉ before)
      (hdepth : maxDepth ≤ before.length) : Fails slots before name (.depthExceeded name)

/-- The order in which occurrences are visited: an occurrence before those below it, and where
two addresses part, the later place first. -/
def Precedes (a b : List ℕ) : Prop := List.Lex (fun i j => j < i) a b

section

variable {slots : SlotTable} {content name inner : Text} {address : List ℕ}
  {before active : List Text} {e : SlotError}

theorem Occurs.chain (h : Occurs slots content address before name) :
    Chain slots (referenced content) (before ++ [name]) := by
  induction h with
  | here hplace => exact .last (mem_placed.1 (List.mem_of_getElem? hplace))
  | within hplace hinner _ ih => exact .next (mem_placed.1 (List.mem_of_getElem? hplace)) hinner ih

theorem Occurs.defined (h : Occurs slots content address before name) :
    ∀ n ∈ before, (Table.find? n slots).isSome = true := by
  induction h with
  | here => exact nofun
  | within _ hinner _ ih => exact List.forall_mem_cons.2 ⟨by simp [hinner], ih⟩

/-- A slot that is there, that is not on the way and for which there is room does not fail. -/
theorem not_fails (hinner : Table.find? name slots = some inner) (hnew : name ∉ before)
    (hroom : before.length < maxDepth) : ¬ Fails slots before name e := by
  rintro (hnone | ⟨-, hagain⟩ | ⟨-, -, hdepth⟩)
  · simp [hinner] at hnone
  · exact hnew hagain
  · exact absurd hroom (Nat.not_lt.2 hdepth)

def visit (slots : SlotTable) (room : ℕ) (active : List Text) (name : Text) :
    Except SlotError Text :=
  enter slots active (fun name inner =>
    match room with
    | 0 => .error (.depthExceeded name)
    | below + 1 => substitute slots below (active ++ [name]) inner) name

theorem substitute_eq_splice (slots : SlotTable) (room : ℕ) (active : List Text)
    (content : Text) :
    substitute slots room active content = splice (visit slots room active) (segments content) := by
  cases room <;> rfl

theorem visit_eq_ok {room : ℕ} {t : Text} :
    visit slots room active name = .ok t ↔ Fills slots room active name t := by
  rw [visit, enter_eq_ok]
  cases room with
  | zero => simp [Fills]
  | succ room => simp [Fills]

/-- A placeholder fails itself, or the content of its slot does. -/
theorem visit_eq_error {room : ℕ} (hroom : active.length + room = maxDepth)
    (h : visit slots room active name = .error e) :
    Fails slots active name e ∨ ∃ inner below, room = below + 1 ∧
      Table.find? name slots = some inner ∧ name ∉ active ∧
      substitute slots below (active ++ [name]) inner = .error e := by
  rw [visit, enter] at h
  cases hinner : Table.find? name slots with
  | none =>
    rw [hinner] at h
    cases h
    exact .inl (.missing hinner)
  | some inner =>
    have hdefined : (Table.find? name slots).isSome = true := by simp [hinner]
    simp only [hinner] at h
    split_ifs at h with hactive
    · cases h
      exact .inl (.cycle hdefined hactive)
    · cases room with
      | zero =>
        cases h
        exact .inl (.depth hdefined hactive (Nat.le_of_eq hroom.symm))
      | succ below => exact .inr ⟨inner, below, rfl, rfl, hactive, h⟩

/-- Of the replacements that fail, the last one is reported. -/
theorem splice_eq_error {replace : Text → Except SlotError Text} {ps : List (Piece Placeholder)}
    (h : splice replace ps = .error e) :
    ∃ (i : ℕ) (p : Placeholder), (occurrences ps)[i]? = some p ∧ replace p.name = .error e ∧
      ∀ j q, i < j → (occurrences ps)[j]? = some q → ∃ t, replace q.name = .ok t := by
  induction ps with
  | nil => cases h
  | cons piece ps ih =>
    cases piece with
    | character c =>
      rcases bind_eq_error.1 h with hrest | ⟨after, -, hok⟩
      · exact ih hrest
      · cases hok
    | occurrence p =>
      rw [occurrences_occurrence]
      rcases bind_eq_error.1 h with hrest | ⟨after, hrest, h⟩
      · obtain ⟨i, q, hq, hfails, hlater⟩ := ih hrest
        refine ⟨i + 1, q, hq, hfails, fun j r hj hr => ?_⟩
        cases j with
        | zero => contradiction
        | succ j => exact hlater j r (Nat.lt_of_succ_lt_succ hj) hr
      · obtain ⟨fill, hfill, -⟩ := splice_eq_ok.1 hrest
        rcases bind_eq_error.1 h with hfails | ⟨inner, -, hok⟩
        · refine ⟨0, p, rfl, hfails, fun j r hj hr => ?_⟩
          cases j with
          | zero => contradiction
          | succ j => exact ⟨_, hfill r (List.mem_of_getElem? hr)⟩
        · cases hok

/-- The placeholder of a content that makes its substitution fail. -/
theorem substitute_eq_error {room : ℕ} (h : substitute slots room active content = .error e) :
    ∃ (i : ℕ) (name : Text), (placed content)[i]? = some name ∧
      visit slots room active name = .error e ∧
      ∀ j n, i < j → (placed content)[j]? = some n → ∃ t, Fills slots room active n t := by
  rw [substitute_eq_splice] at h
  obtain ⟨i, p, hp, hfails, hlater⟩ := splice_eq_error h
  refine ⟨i, p.name, by simp [placed, hp], hfails, fun j n hj hn => ?_⟩
  obtain ⟨q, hq, rfl⟩ := Option.map_eq_some_iff.1 (List.getElem?_map .. ▸ hn)
  obtain ⟨t, ht⟩ := hlater j q hj hq
  exact ⟨t, visit_eq_ok.1 ht⟩

theorem room_below {below : ℕ} (h : active.length + (below + 1) = maxDepth) :
    (active ++ [name]).length + below = maxDepth := by
  rw [List.length_append, List.length_singleton]
  omega

/-- No occurrence fails at or below a placeholder that can be filled. -/
theorem not_fails_of_fills {room : ℕ} (hroom : active.length + room = maxDepth)
    (hoccurs : Occurs slots content address before name)
    (hfills : ∀ i ∈ address.head?, ∀ n ∈ (placed content)[i]?, ∃ t, Fills slots room active n t) :
    ¬ Fails slots (active ++ before) name e := by
  induction hoccurs generalizing room active with
  | @here content name i hplace =>
    obtain ⟨t, inner, below, rfl, hinner, hnew, -⟩ := hfills i rfl name hplace
    rw [List.append_nil]
    exact not_fails hinner hnew (by omega)
  | @within content first inner name i address before hplace hinner _ ih =>
    obtain ⟨t, inner', below, rfl, hinner', -, hsub⟩ := hfills i rfl first hplace
    obtain rfl := Option.mem_unique hinner hinner'
    obtain ⟨fill, hfill, -⟩ := substitute_eq_ok.1 hsub
    rw [List.append_cons]
    refine ih (room_below hroom) fun j _ n hn => ⟨fill n, ?_⟩
    exact hfill n (mem_placed.1 (List.mem_of_getElem? hn))

theorem Occurs.exists_cons (h : Occurs slots content address before name) :
    ∃ i rest, address = i :: rest := by
  cases h with
  | here => exact ⟨_, _, rfl⟩
  | within => exact ⟨_, _, rfl⟩

/-- Where all later placeholders of a content can be filled, what fails first at or below a
placeholder fails first in the content. -/
theorem first_of_later {room i : ℕ} {tail : List ℕ} (hroom : active.length + room = maxDepth)
    (hlater : ∀ j n, i < j → (placed content)[j]? = some n → ∃ t, Fills slots room active n t)
    (htail : ∀ rest between last e', Occurs slots content (i :: rest) between last →
      Fails slots (active ++ between) last e' → rest = tail ∨ Precedes tail rest)
    {other : List ℕ} {between : List Text} {last : Text} {e' : SlotError}
    (hoccurs : Occurs slots content other between last)
    (hfails : Fails slots (active ++ between) last e') :
    other = i :: tail ∨ Precedes (i :: tail) other := by
  obtain ⟨j, rest, rfl⟩ := hoccurs.exists_cons
  rcases lt_trichotomy i j with hij | rfl | hji
  · refine absurd hfails (not_fails_of_fills hroom hoccurs ?_)
    rintro _ ⟨⟩ n hn
    exact hlater j n hij hn
  · exact (htail rest between last e' hoccurs hfails).imp (congrArg _) .cons
  · exact .inr (.rel hji)

structure FirstFailure (slots : SlotTable) (active : List Text) (content : Text) (e : SlotError)
    (address : List ℕ) (before : List Text) (name : Text) : Prop where
  occurs : Occurs slots content address before name
  fails : Fails slots (active ++ before) name e
  first : ∀ other between last e', Occurs slots content other between last →
    Fails slots (active ++ between) last e' → other = address ∨ Precedes address other

/-- A failed substitution reports the first occurrence that fails; the slots on the way to it are
distinct, and within the limit on depth. -/
theorem exists_firstFailure {room : ℕ} (hroom : active.length + room = maxDepth)
    (hactive : active.Nodup) (h : substitute slots room active content = .error e) :
    ∃ address before name, FirstFailure slots active content e address before name ∧
      (active ++ before).Nodup ∧ (active ++ before).length ≤ maxDepth := by
  induction room using Nat.strong_induction_on generalizing active content with
  | _ room ih =>
    obtain ⟨i, n, hplace, hvisit, hlater⟩ := substitute_eq_error h
    rcases visit_eq_error hroom hvisit with hfails | ⟨inner, below, rfl, hinner, hnew, hsub⟩
    · refine ⟨[i], [], n, ⟨.here hplace, ?_, ?_⟩, ?_, ?_⟩
      · rwa [List.append_nil]
      · intro other between last e' hoccurs hother
        refine first_of_later hroom hlater (fun rest _ _ _ _ _ => ?_) hoccurs hother
        cases rest with
        | nil => exact .inl rfl
        | cons => exact .inr .nil
      · rwa [List.append_nil]
      · rw [List.append_nil]
        omega
    · have hnodup : (active ++ [n]).Nodup :=
        hactive.append (List.nodup_singleton n) (List.disjoint_singleton.2 hnew)
      obtain ⟨tail, before, name, hfirst, hdistinct, hlength⟩ :=
        ih below (Nat.lt_succ_self below) (room_below hroom) hnodup hsub
      refine ⟨i :: tail, n :: before, name, ⟨.within hplace hinner hfirst.occurs, ?_, ?_⟩, ?_, ?_⟩
      · rw [List.append_cons]
        exact hfirst.fails
      · intro other between last e' hoccurs hother
        refine first_of_later hroom hlater (fun rest between last e' hoccurs hother => ?_)
          hoccurs hother
        cases hoccurs with
        | here hplace' =>
          obtain rfl := Option.mem_unique hplace hplace'
          rw [List.append_nil] at hother
          exact absurd hother (not_fails hinner hnew (by omega))
        | within hplace' hinner' hrest =>
          obtain rfl := Option.mem_unique hplace hplace'
          obtain rfl := Option.mem_unique hinner hinner'
          rw [List.append_cons] at hother
          exact hfirst.first _ _ _ _ hrest hother
      · rwa [List.append_cons]
      · rwa [List.append_cons]

/-- What a report says of a content and its slots. -/
def Tells (slots : SlotTable) (content : Text) : SlotError → Prop
  | .missing name =>
    (∃ before, Chain slots (referenced content) (before ++ [name])) ∧
      Table.find? name slots = none
  | .cycle chain =>
    Chain slots (referenced content) chain ∧ chain.length ≤ maxDepth + 1 ∧
      ∃ before name, chain = before ++ [name] ∧ before.Nodup ∧ before.count name = 1
  | .depthExceeded name =>
    ∃ before, Chain slots (referenced content) (before ++ [name]) ∧ before.length = maxDepth ∧
      before.Nodup ∧ (∀ n ∈ before, (Table.find? n slots).isSome = true) ∧
      (Table.find? name slots).isSome = true ∧ name ∉ before
  | .unresolved _ => False

theorem tells_of_fails (hoccurs : Occurs slots content address before name)
    (hfails : Fails slots before name e) (hdistinct : before.Nodup)
    (hlength : before.length ≤ maxDepth) : Tells slots content e := by
  cases hfails with
  | missing hnone => exact ⟨⟨before, hoccurs.chain⟩, hnone⟩
  | cycle _ hagain =>
    refine ⟨hoccurs.chain, ?_, before, name, rfl, hdistinct,
      List.count_eq_one_of_mem hdistinct hagain⟩
    rw [List.length_append, List.length_singleton]
    exact Nat.succ_le_succ hlength
  | depth hdefined hnew hdepth =>
    exact ⟨before, hoccurs.chain, Nat.le_antisymm hlength hdepth, hdistinct, hoccurs.defined,
      hdefined, hnew⟩

/-- A failed substitution is the failure of the resolution. It reports the first occurrence that
fails, in a visit of the placeholders from the last to the first and depth first, and what it
reports is so. -/
theorem failure_told (h : substitute slots maxDepth [] content = .error e) :
    resolve slots content = .error e ∧
      (∃ address before name, FirstFailure slots [] content e address before name) ∧
      Tells slots content e := by
  obtain ⟨address, before, name, hfirst, hdistinct, hlength⟩ :=
    exists_firstFailure (Nat.zero_add maxDepth) List.nodup_nil h
  refine ⟨?_, ⟨address, before, name, hfirst⟩,
    tells_of_fails hfirst.occurs hfirst.fails hdistinct hlength⟩
  rw [resolve, h]
  rfl

end

def circular : SlotTable :=
  [(['a'], placeholder ['b']), (['b'], placeholder ['a'])]

/-- A placeholder without a slot, before one that leads into a cycle: the cycle is reported. -/
theorem failure_told_cycle :
    substitute circular maxDepth [] (placeholder ['x'] ++ placeholder ['a']) =
        .error (.cycle [['a'], ['b'], ['a']]) ∧
      resolve circular (placeholder ['x'] ++ placeholder ['a']) =
        .error (.cycle [['a'], ['b'], ['a']]) ∧
      (∃ address before name, FirstFailure circular [] (placeholder ['x'] ++ placeholder ['a'])
        (.cycle [['a'], ['b'], ['a']]) address before name) ∧
      Tells circular (placeholder ['x'] ++ placeholder ['a']) (.cycle [['a'], ['b'], ['a']]) := by
  have h : substitute circular maxDepth [] (placeholder ['x'] ++ placeholder ['a']) =
      .error (.cycle [['a'], ['b'], ['a']]) := by decide +kernel
  exact ⟨h, failure_told h⟩

end AssessmentItems.SlotFailures
