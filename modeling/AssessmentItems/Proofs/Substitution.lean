import AssessmentItems.Proofs.Results
import AssessmentItems.Proofs.Tags

/-!
Substitution as an equation between texts. It succeeds if the slots that a content refers
to are there, are not active, and can themselves be substituted one level further down; the
text is then the content with these fillings in the place of its placeholders. More room and
fewer active slots change nothing, and texts are substituted one by one where no placeholder
reaches from one into the next.
-/
namespace AssessmentItems.Substitution

open Text Scanning Slots Pieces Placeholders Tags Results

def filled (fill : Text → Text) (content : Text) : Text :=
  written (fun p => fill p.name) (segments content)

theorem filled_congr {fill fill' : Text → Text} {content : Text}
    (h : ∀ name ∈ referenced content, fill name = fill' name) :
    filled fill content = filled fill' content :=
  written_congr fun p hp => h p.name (mem_referenced.2 ⟨p, hp, rfl⟩)

theorem filled_append {a b : Text} (h : Apart placeholder? a b) (fill : Text → Text) :
    filled fill (a ++ b) = filled fill a ++ filled fill b := by
  rw [filled, segments_append h, written_append]
  rfl

theorem filled_placeholder {name : Text} (h : isValidName name = true) (fill : Text → Text) :
    filled fill (placeholder name) = fill name := by
  have hsegments := segments_placeholder (wellFormed_placeholder h) []
  rw [List.append_nil] at hsegments
  rw [filled, placeholder, hsegments]
  simp [segments, pieces, piecesFrom]

theorem referenced_placeholder {name : Text} (h : isValidName name = true) :
    referenced (placeholder name) = [name] := by
  have hsegments := segments_placeholder (wellFormed_placeholder h) []
  rw [List.append_nil] at hsegments
  rw [referenced, placeholder, hsegments]
  rfl

/-- What fills a slot stands in the filled content. -/
theorem part_filled {content name : Text} (h : name ∈ referenced content) (fill : Text → Text) :
    fill name <:+: filled fill content := by
  obtain ⟨p, hp, rfl⟩ := mem_referenced.1 h
  let write : Placeholder → Text := fun p => fill p.name
  have hpart : write p <:+: written write (segments content) := part_written hp
  exact hpart

/-- A content without placeholders stays as it is. -/
theorem filled_eq_self {content : Text} (h : referenced content = []) (fill : Text → Text) :
    filled fill content = content := by
  rw [referenced, ascending_eq_nil, List.map_eq_nil_iff, segments,
    occurrences_eq_nil spelled_placeholder] at h
  rw [filled, segments, pieces_of_nowhere h]
  simp [written, List.flatMap_map]

theorem splice_eq_ok {replace : Text → Except SlotError Text} {ps : List (Piece Placeholder)}
    {t : Text} :
    splice replace ps = .ok t ↔ ∃ fill : Text → Text,
      (∀ p ∈ occurrences ps, replace p.name = .ok (fill p.name)) ∧
        t = written (fun p => fill p.name) ps := by
  constructor
  · intro h
    refine ⟨fun name => (replace name).toOption.getD [], ?_⟩
    induction ps generalizing t with
    | nil =>
      cases h
      exact ⟨fun p hp => absurd hp List.not_mem_nil, rfl⟩
    | cons piece ps ih =>
      cases piece with
      | character c =>
        obtain ⟨after, hafter, ht⟩ := bind_eq_ok.1 h
        obtain ⟨hall, rfl⟩ := ih hafter
        exact ⟨hall, (Except.ok.inj ht).symm⟩
      | occurrence p =>
        obtain ⟨after, hafter, h⟩ := bind_eq_ok.1 h
        obtain ⟨inner, hinner, ht⟩ := bind_eq_ok.1 h
        obtain ⟨hall, rfl⟩ := ih hafter
        have hfill : (replace p.name).toOption.getD [] = inner := by
          rw [hinner]
          rfl
        refine ⟨List.forall_mem_cons.2 ⟨hinner.trans (congrArg Except.ok hfill.symm), hall⟩, ?_⟩
        exact (Except.ok.inj ht).symm.trans (congrArg (· ++ _) hfill.symm)
  · rintro ⟨fill, hall, rfl⟩
    induction ps with
    | nil => rfl
    | cons piece ps ih =>
      cases piece with
      | character c => exact bind_eq_ok.2 ⟨_, ih hall, rfl⟩
      | occurrence p =>
        rw [occurrences_occurrence, List.forall_mem_cons] at hall
        exact bind_eq_ok.2 ⟨_, ih hall.2, bind_eq_ok.2 ⟨_, hall.1, rfl⟩⟩

theorem enter_eq_ok {slots : SlotTable} {active : List Text}
    {resolve : (name content : Text) → Except SlotError Text} {name t : Text} :
    enter slots active resolve name = .ok t ↔ ∃ inner, Table.find? name slots = some inner ∧
      name ∉ active ∧ resolve name inner = .ok t := by
  unfold enter
  cases Table.find? name slots with
  | none => simp
  | some inner =>
    by_cases hactive : name ∈ active
    · simp [hactive]
    · simp [hactive]

/-- What a slot needs to be filled: it is there, it is not active, and there is room for the
substitution of its content. -/
def Fills (slots : SlotTable) (room : ℕ) (active : List Text) (name filling : Text) : Prop :=
  ∃ inner below, room = below + 1 ∧ Table.find? name slots = some inner ∧ name ∉ active ∧
    substitute slots below (active ++ [name]) inner = .ok filling

theorem substitute_eq_ok {slots : SlotTable} {room : ℕ} {active : List Text} {content t : Text} :
    substitute slots room active content = .ok t ↔ ∃ fill : Text → Text,
      (∀ name ∈ referenced content, Fills slots room active name (fill name)) ∧
        t = filled fill content := by
  have hnames : ∀ fill : Text → Text,
      (∀ name ∈ referenced content, Fills slots room active name (fill name)) ↔
        ∀ p ∈ occurrences (segments content), Fills slots room active p.name (fill p.name) := by
    intro fill
    constructor
    · exact fun h p hp => h p.name (mem_referenced.2 ⟨p, hp, rfl⟩)
    · intro h name hname
      obtain ⟨p, hp, rfl⟩ := mem_referenced.1 hname
      exact h p hp
  simp only [hnames]
  cases room with
  | zero =>
    rw [substitute, splice_eq_ok]
    refine exists_congr fun fill => and_congr_left' (forall₂_congr fun p _ => ?_)
    rw [enter_eq_ok]
    simp [Fills]
  | succ room =>
    rw [substitute, splice_eq_ok]
    refine exists_congr fun fill => and_congr_left' (forall₂_congr fun p _ => ?_)
    rw [enter_eq_ok]
    simp [Fills]

theorem exists_substitute_of_fills {slots : SlotTable} {room : ℕ} {active : List Text}
    {content : Text}
    (h : ∀ name ∈ referenced content, ∃ filling, Fills slots room active name filling) :
    ∃ t, substitute slots room active content = .ok t := by
  have hall : ∀ name, ∃ filling, name ∈ referenced content →
      Fills slots room active name filling := by
    intro name
    by_cases hname : name ∈ referenced content
    · obtain ⟨filling, hfilling⟩ := h name hname
      exact ⟨filling, fun _ => hfilling⟩
    · exact ⟨[], fun hmem => absurd hmem hname⟩
  choose fill hfill using hall
  exact ⟨_, substitute_eq_ok.2 ⟨fill, hfill, rfl⟩⟩

theorem Fills.unique {slots : SlotTable} {room : ℕ} {active : List Text} {name u v : Text}
    (hu : Fills slots room active name u) (hv : Fills slots room active name v) : u = v := by
  obtain ⟨inner, below, rfl, hinner, -, hsub⟩ := hu
  obtain ⟨inner', below', hbelow, hinner', -, hsub'⟩ := hv
  obtain rfl := Nat.succ.inj hbelow
  obtain rfl := Option.mem_unique hinner hinner'
  exact Except.ok.inj (hsub.symm.trans hsub')

/-- More room and fewer active slots do not change what is substituted. -/
theorem substitute_mono {slots : SlotTable} {room room' : ℕ} {active active' : List Text}
    {content t : Text} (h : substitute slots room active content = .ok t) (hroom : room ≤ room')
    (hactive : active' ⊆ active) : substitute slots room' active' content = .ok t := by
  induction room generalizing room' active active' content t with
  | zero =>
    obtain ⟨fill, hfill, ht⟩ := substitute_eq_ok.1 h
    refine substitute_eq_ok.2 ⟨fill, fun name hname => ?_, ht⟩
    obtain ⟨_, _, hzero, -⟩ := hfill name hname
    contradiction
  | succ room ih =>
    obtain ⟨fill, hfill, ht⟩ := substitute_eq_ok.1 h
    refine substitute_eq_ok.2 ⟨fill, fun name hname => ?_, ht⟩
    obtain ⟨inner, below, hbelow, hinner, hnot, hsub⟩ := hfill name hname
    obtain rfl := Nat.succ.inj hbelow
    obtain ⟨below', rfl⟩ := Nat.exists_eq_add_of_lt (Nat.lt_of_succ_le hroom)
    refine ⟨inner, room + below', rfl, hinner, fun hmem => hnot (hactive hmem), ?_⟩
    apply ih hsub (by omega)
    exact List.append_subset.2 ⟨fun _ hmem => List.mem_append_left _ (hactive hmem),
      List.subset_append_right _ _⟩

theorem substitute_placeholder {slots : SlotTable} {room : ℕ} {active : List Text} {name t : Text}
    (h : isValidName name = true) :
    substitute slots room active (placeholder name) = .ok t ↔ Fills slots room active name t := by
  rw [substitute_eq_ok, referenced_placeholder h]
  constructor
  · rintro ⟨fill, hfill, rfl⟩
    rw [filled_placeholder h]
    exact hfill name List.mem_cons_self
  · intro hfills
    refine ⟨fun _ => t, ?_, (filled_placeholder h fun _ => t).symm⟩
    intro n hn
    rwa [List.mem_singleton.1 hn]

/-- Where a slot can be filled, its content can be substituted in its place. -/
theorem Fills.exists_inner {slots : SlotTable} {room : ℕ} {active : List Text} {name t : Text}
    (h : Fills slots room active name t) : ∃ inner, Table.find? name slots = some inner ∧
      substitute slots room active inner = .ok t := by
  obtain ⟨inner, below, rfl, hinner, -, hsub⟩ := h
  exact ⟨inner, hinner, substitute_mono hsub (Nat.le_succ _) (List.subset_append_left _ _)⟩

/-- A text without placeholders stays as it is. -/
theorem substitute_literal {slots : SlotTable} {room : ℕ} {active : List Text} {t u : Text}
    (h : referenced t = []) : substitute slots room active t = .ok u ↔ u = t := by
  rw [substitute_eq_ok, h]
  constructor
  · rintro ⟨fill, -, rfl⟩
    exact filled_eq_self h fill
  · rintro rfl
    exact ⟨id, fun _ hname => absurd hname List.not_mem_nil, (filled_eq_self h _).symm⟩

theorem substitute_append {slots : SlotTable} {room : ℕ} {active : List Text} {a b t : Text}
    (hab : Apart placeholder? a b) :
    substitute slots room active (a ++ b) = .ok t ↔ ∃ u v,
      substitute slots room active a = .ok u ∧ substitute slots room active b = .ok v ∧
        t = u ++ v := by
  constructor
  · intro h
    obtain ⟨fill, hfill, rfl⟩ := substitute_eq_ok.1 h
    simp only [referenced_append hab] at hfill
    refine ⟨_, _, substitute_eq_ok.2 ⟨fill, fun name hname => hfill name (Or.inl hname), rfl⟩,
      substitute_eq_ok.2 ⟨fill, fun name hname => hfill name (Or.inr hname), rfl⟩, ?_⟩
    exact filled_append hab fill
  · rintro ⟨u, v, hu, hv, rfl⟩
    obtain ⟨fill, hfill, rfl⟩ := substitute_eq_ok.1 hu
    obtain ⟨fill', hfill', rfl⟩ := substitute_eq_ok.1 hv
    classical
    let both : Text → Text := fun name => if name ∈ referenced a then fill name else fill' name
    have hleft : filled fill a = filled both a := by
      refine filled_congr fun name hname => ?_
      simp only [both, hname, if_true]
    have hright : filled fill' b = filled both b := by
      refine filled_congr fun name hname => ?_
      by_cases hmem : name ∈ referenced a
      · simp only [both, hmem, if_true]
        exact (hfill' name hname).unique (hfill name hmem)
      · simp only [both, hmem, if_false]
    rw [hleft, hright, ← filled_append hab]
    refine substitute_eq_ok.2 ⟨both, fun name hname => ?_, rfl⟩
    by_cases hmem : name ∈ referenced a
    · simp only [both, hmem, if_true]
      exact hfill name hmem
    · simp only [both, hmem, if_false]
      exact hfill' name (((referenced_append hab).1 hname).resolve_left hmem)

/-- What is substituted for a part of a text stands in what is substituted for the text. -/
theorem substitute_part {slots : SlotTable} {room : ℕ} {active : List Text}
    {before u after t : Text} (hbefore : Apart placeholder? before (u ++ after))
    (hafter : Apart placeholder? u after)
    (h : substitute slots room active (before ++ (u ++ after)) = .ok t) :
    ∃ v, substitute slots room active u = .ok v ∧ v <:+: t := by
  obtain ⟨first, rest, -, hrest, rfl⟩ := (substitute_append hbefore).1 h
  obtain ⟨v, last, hv, -, rfl⟩ := (substitute_append hafter).1 hrest
  exact ⟨v, hv, first, last, List.append_assoc _ _ _⟩

/-- Tags around a content stay around what is substituted for it. -/
theorem substitute_between {slots : SlotTable} {room : ℕ} {active : List Text}
    {start content finish t : Text} (hstart : start.getLast? = some '>')
    (hfinish : finish.head? = some '<') (hstart' : referenced start = [])
    (hfinish' : referenced finish = []) :
    substitute slots room active (start ++ content ++ finish) = .ok t ↔
      ∃ u, substitute slots room active content = .ok u ∧ t = start ++ u ++ finish := by
  rw [substitute_append (withinTag_placeholder?.apart_open _ hfinish)]
  simp only [substitute_append (withinTag_placeholder?.apart_close content hstart),
    substitute_literal hstart', substitute_literal hfinish']
  constructor
  · rintro ⟨_, _, ⟨_, u, rfl, hu, rfl⟩, rfl, rfl⟩
    exact ⟨u, hu, rfl⟩
  · rintro ⟨u, hu, rfl⟩
    exact ⟨_, _, ⟨_, u, rfl, hu, rfl⟩, rfl, rfl⟩

/-- A part of a placeholder that is cut off at either end stays as it is. -/
theorem filled_suffix {a x y : Text} {p : Placeholder} (hp : WellFormed p)
    (hspelling : p.spelling = x ++ y) (hx : x ≠ []) (hy : y ≠ []) (hxa : x <:+ a)
    (fill : Text → Text) : x <:+ filled fill a := by
  obtain ⟨hhead, hclose, -, -⟩ := cut_spelling hp hspelling hx hy
  obtain ⟨a, rfl⟩ := hxa
  rw [filled_append (withinTag_placeholder?.apart_open a hhead),
    filled_eq_self (referenced_eq_nil (Or.inr hclose))]
  exact List.suffix_append _ _

theorem filled_prefix {b x y : Text} {p : Placeholder} (hp : WellFormed p)
    (hspelling : p.spelling = x ++ y) (hx : x ≠ []) (hy : y ≠ []) (hyb : y <+: b)
    (fill : Text → Text) : y <+: filled fill b := by
  obtain ⟨-, -, hlast, hopen⟩ := cut_spelling hp hspelling hx hy
  obtain ⟨b, rfl⟩ := hyb
  rw [filled_append (withinTag_placeholder?.apart_close b hlast),
    filled_eq_self (referenced_eq_nil (Or.inl hopen))]
  exact List.prefix_append _ _

/-- Where nothing is left over, no placeholder came about between two texts. -/
theorem substitute_append_of_leftover {slots : SlotTable} {room : ℕ} {active : List Text}
    {a b u v : Text} (hu : substitute slots room active a = .ok u)
    (hv : substitute slots room active b = .ok v) (hleft : leftover (u ++ v) = []) :
    substitute slots room active (a ++ b) = .ok (u ++ v) := by
  rcases apart_or_spans a b with hab | ⟨p, x, y, hp, hspelling, hx, hy, hxa, hyb⟩
  · exact (substitute_append hab).2 ⟨u, v, hu, hv, rfl⟩
  · obtain ⟨fill, -, rfl⟩ := substitute_eq_ok.1 hu
    obtain ⟨fill', -, rfl⟩ := substitute_eq_ok.1 hv
    obtain ⟨u, hu⟩ := filled_suffix hp hspelling hx hy hxa fill
    obtain ⟨v, hv⟩ := filled_prefix hp hspelling hx hy hyb fill'
    refine absurd ⟨u, v, ?_⟩ (not_spelled_within hleft hp)
    rw [← hu, ← hv, hspelling]
    simp only [List.append_assoc]

end AssessmentItems.Substitution
