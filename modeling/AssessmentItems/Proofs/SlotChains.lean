import AssessmentItems.Proofs.Substitution

/-!
Which contents can be substituted, and what comes out. A content refers to slots whose
contents refer to further slots; it can be substituted exactly if all chains of such
references stay within the slots that are there and within the limit on depth, and no chain
then comes back to a slot. The outcome is the replacement of all placeholders at once, each
by the replaced content of its slot, which edits in place, made from the last placeholder to
the first, arrive at too.
-/
namespace AssessmentItems.SlotChains

open Text Scanning Slots Pieces Placeholders Substitution

/-- The first name is one of `starts`, and each next one is referred to by the content of
the slot before it. -/
inductive Chain (slots : SlotTable) : (starts names : List Text) → Prop
  | last {starts : List Text} {name : Text} (hstart : name ∈ starts) : Chain slots starts [name]
  | next {starts names : List Text} {name inner : Text} (hstart : name ∈ starts)
      (hinner : Table.find? name slots = some inner)
      (hrest : Chain slots (referenced inner) names) : Chain slots starts (name :: names)

section

variable {slots : SlotTable} {starts names before : List Text} {name inner : Text}

theorem Chain.mono {starts' : List Text} (h : Chain slots starts names)
    (hstarts : starts ⊆ starts') : Chain slots starts' names := by
  cases h with
  | last hstart => exact .last (hstarts hstart)
  | next hstart hinner hrest => exact .next (hstarts hstart) hinner hrest

/-- A chain begins at one of the names where it may. -/
theorem Chain.exists_start (h : Chain slots starts names) :
    ∃ name ∈ starts, Chain slots [name] names := by
  cases h with
  | last hstart => exact ⟨_, hstart, .last List.mem_cons_self⟩
  | next hstart hinner hrest => exact ⟨_, hstart, .next List.mem_cons_self hinner hrest⟩

/-- A chain up to one of its names. -/
theorem Chain.cut (h : Chain slots starts names) (hname : name ∈ names) :
    ∃ before, Chain slots starts (before ++ [name]) := by
  induction h with
  | last hstart =>
    obtain rfl := List.mem_singleton.1 hname
    exact ⟨[], .last hstart⟩
  | @next starts names first inner hstart hinner hrest ih =>
    rcases List.mem_cons.1 hname with rfl | hname
    · exact ⟨[], .last hstart⟩
    · obtain ⟨before, hbefore⟩ := ih hname
      exact ⟨first :: before, .next hstart hinner hbefore⟩

/-- A chain goes on with any chain from the content of its last slot. -/
theorem Chain.extend (h : Chain slots starts (before ++ [name]))
    (hinner : Table.find? name slots = some inner) (hrest : Chain slots (referenced inner) names) :
    Chain slots starts (before ++ name :: names) := by
  induction before generalizing starts with
  | nil =>
    cases h with
    | last hstart => exact .next hstart hinner hrest
    | next hstart => exact .next hstart hinner hrest
  | cons first before ih =>
    rw [List.cons_append] at h ⊢
    generalize hlast : before ++ [name] = rest at h
    cases h with
    | last => simp at hlast
    | next hstart hfirst hchain =>
      subst hlast
      exact .next hstart hfirst (ih hchain)

/-- A slot that its own content leads back to begins chains of any length. -/
theorem Chain.unbounded (hinner : Table.find? name slots = some inner)
    (h : Chain slots (referenced inner) names) (hname : name ∈ names) (length : ℕ) :
    ∃ longer, Chain slots (referenced inner) longer ∧ length < longer.length := by
  obtain ⟨before, hround⟩ := h.cut hname
  induction length with
  | zero => exact ⟨_, hround, by simp⟩
  | succ length ih =>
    obtain ⟨longer, hlonger, hlength⟩ := ih
    refine ⟨_, hround.extend hinner hlonger, ?_⟩
    simp only [List.length_append, List.length_cons]
    omega

end

def Limited (slots : SlotTable) (length : ℕ) (starts : List Text) : Prop :=
  ∀ names, Chain slots starts names →
    (∀ name ∈ names, (Table.find? name slots).isSome = true) ∧ names.length ≤ length

section

variable {slots : SlotTable} {length : ℕ} {starts names : List Text} {name inner : Text}

theorem Limited.exists_inner (h : Limited slots length starts) (hname : name ∈ starts) :
    ∃ inner below, length = below + 1 ∧ Table.find? name slots = some inner ∧
      Limited slots below (referenced inner) := by
  obtain ⟨hdefined, hlength⟩ := h [name] (.last hname)
  obtain ⟨inner, hinner⟩ := Option.isSome_iff_exists.1 (hdefined name List.mem_cons_self)
  obtain ⟨below, rfl⟩ := Nat.exists_eq_add_of_le' hlength
  refine ⟨inner, below, rfl, hinner, fun names hnames => ?_⟩
  obtain ⟨hdefined, hlength⟩ := h (name :: names) (.next hname hinner hnames)
  exact ⟨fun n hn => hdefined n (List.mem_cons_of_mem _ hn), Nat.le_of_succ_le_succ hlength⟩

theorem Limited.not_mem (h : Limited slots length (referenced inner))
    (hinner : Table.find? name slots = some inner) (hnames : Chain slots (referenced inner) names) :
    name ∉ names := by
  intro hname
  obtain ⟨longer, hlonger, hlength⟩ := hnames.unbounded hinner hname length
  have hle := (h longer hlonger).2
  omega

/-- Limited references do not come back to a slot. -/
theorem Limited.nodup (h : Limited slots length starts) (hnames : Chain slots starts names) :
    names.Nodup := by
  induction hnames generalizing length with
  | last => exact List.pairwise_singleton _ _
  | next hstart hinner hrest ih =>
    obtain ⟨_, below, -, hinner', hbelow⟩ := h.exists_inner hstart
    obtain rfl := Option.mem_unique hinner hinner'
    exact List.nodup_cons.2 ⟨hbelow.not_mem hinner hrest, ih hbelow⟩

/-- What can be filled refers to no more slots than there is room for. -/
theorem limited_of_fills {active : List Text} {fill : Text → Text}
    (h : ∀ name ∈ starts, Fills slots length active name (fill name)) :
    Limited slots length starts := by
  intro names hnames
  induction hnames generalizing length active fill with
  | @last starts name hstart =>
    obtain ⟨inner, below, rfl, hinner, -⟩ := h name hstart
    simp [hinner]
  | @next starts names name inner hstart hinner hrest ih =>
    obtain ⟨inner', below, rfl, hinner', -, hsub⟩ := h name hstart
    obtain rfl := Option.mem_unique hinner hinner'
    obtain ⟨fill, hfill, -⟩ := substitute_eq_ok.1 hsub
    obtain ⟨hdefined, hlength⟩ := ih hfill
    refine ⟨List.forall_mem_cons.2 ⟨by simp [hinner], hdefined⟩, ?_⟩
    simp only [List.length_cons]
    omega

/-- Limited references can be filled, if none of them leads to an active slot. -/
theorem exists_fills {active : List Text} (h : Limited slots length starts)
    (hactive : ∀ names, Chain slots starts names → ∀ name ∈ names, name ∉ active)
    (hname : name ∈ starts) : ∃ filling, Fills slots length active name filling := by
  induction length generalizing active starts name with
  | zero =>
    obtain ⟨_, _, hzero, -⟩ := h.exists_inner hname
    contradiction
  | succ length ih =>
    obtain ⟨inner, below, hbelow, hinner, hlimited⟩ := h.exists_inner hname
    obtain rfl := Nat.succ.inj hbelow
    have hnot : ∀ names, Chain slots (referenced inner) names →
        ∀ n ∈ names, n ∉ active ++ [name] := by
      intro names hnames n hn hmem
      rcases List.mem_append.1 hmem with hmem | hmem
      · exact hactive _ (.next hname hinner hnames) n (List.mem_cons_of_mem _ hn) hmem
      · obtain rfl := List.mem_singleton.1 hmem
        exact hlimited.not_mem hinner hnames hn
    obtain ⟨t, ht⟩ := exists_substitute_of_fills fun n hn => ih hlimited hnot hn
    exact ⟨t, inner, length, rfl, hinner, hactive [name] (.last hname) name List.mem_cons_self, ht⟩

end

/-- A content can be substituted exactly if its references are limited. -/
theorem substitute_iff_limited {slots : SlotTable} {room : ℕ} {content : Text} :
    (∃ t, substitute slots room [] content = .ok t) ↔ Limited slots room (referenced content) := by
  constructor
  · rintro ⟨t, ht⟩
    obtain ⟨fill, hfill, -⟩ := substitute_eq_ok.1 ht
    exact limited_of_fills hfill
  · intro h
    exact exists_substitute_of_fills fun name hname =>
      exists_fills h (fun _ _ _ _ => List.not_mem_nil) hname

/-- The content of a slot on a chain of references was substituted, too. -/
theorem exists_substitute_of_chain {slots : SlotTable} {room : ℕ} {active : List Text}
    {content t name : Text} {names : List Text} (h : substitute slots room active content = .ok t)
    (hnames : Chain slots (referenced content) names) (hname : name ∈ names) :
    ∃ inner u, Table.find? name slots = some inner ∧ substitute slots room [] inner = .ok u ∧
      u <:+: t := by
  generalize hstarts : referenced content = starts at hnames
  induction hnames generalizing room active content t with
  | last hstart =>
    subst hstarts
    obtain rfl := List.mem_singleton.1 hname
    obtain ⟨fill, hfill, rfl⟩ := substitute_eq_ok.1 h
    obtain ⟨inner, hinner, hsub⟩ := (hfill name hstart).exists_inner
    have hpart := part_filled hstart fill
    exact ⟨inner, _, hinner, substitute_mono hsub le_rfl (List.nil_subset _), hpart⟩
  | @next starts names first inner hstart hinner hrest ih =>
    subst hstarts
    obtain ⟨fill, hfill, rfl⟩ := substitute_eq_ok.1 h
    obtain ⟨inner', hinner', hsub⟩ := (hfill first hstart).exists_inner
    obtain rfl := Option.mem_unique hinner hinner'
    have hpart := part_filled hstart fill
    rcases List.mem_cons.1 hname with rfl | hname
    · exact ⟨inner, _, hinner, substitute_mono hsub le_rfl (List.nil_subset _), hpart⟩
    · obtain ⟨inner', u, hfind, hu, hwithin⟩ := ih hsub hname rfl
      exact ⟨inner', u, hfind, hu, hwithin.trans hpart⟩

/-- All placeholders of a content are replaced at once, each by the replaced content of its
slot, at any depth. -/
inductive Replaced (slots : SlotTable) : (content result : Text) → Prop
  | all {content : Text} (inner fill : Text → Text)
      (hinner : ∀ name ∈ referenced content, Table.find? name slots = some (inner name))
      (hfill : ∀ name ∈ referenced content, Replaced slots (inner name) (fill name)) :
      Replaced slots content (filled fill content)

theorem Replaced.unique {slots : SlotTable} {content u v : Text} (hu : Replaced slots content u)
    (hv : Replaced slots content v) : u = v := by
  induction hu generalizing v with
  | all inner fill hinner hfill ih =>
    obtain ⟨inner', fill', hinner', hfill'⟩ := hv
    refine filled_congr fun name hname => ih name hname ?_
    have heq : inner name = inner' name :=
      Option.mem_unique (hinner name hname) (hinner' name hname)
    rw [heq]
    exact hfill' name hname

theorem replaced_of_substitute {slots : SlotTable} {room : ℕ} {active : List Text}
    {content t : Text} (h : substitute slots room active content = .ok t) :
    Replaced slots content t := by
  induction room generalizing active content t with
  | zero =>
    obtain ⟨fill, hfill, rfl⟩ := substitute_eq_ok.1 h
    refine .all id fill (fun name hname => ?_) (fun name hname => ?_) <;>
    · obtain ⟨_, _, hzero, -⟩ := hfill name hname
      contradiction
  | succ room ih =>
    obtain ⟨fill, hfill, rfl⟩ := substitute_eq_ok.1 h
    refine .all (fun name => (Table.find? name slots).getD []) fill (fun name hname => ?_)
      (fun name hname => ?_)
    all_goals
      obtain ⟨inner, below, hbelow, hinner, -, hsub⟩ := hfill name hname
      obtain rfl := Nat.succ.inj hbelow
      simp only [hinner, Option.getD_some]
    exact ih hsub

structure Edit where
  start : ℕ
  stop : ℕ
  replacement : List UInt8

def Edit.apply (e : Edit) (bytes : List UInt8) : List UInt8 :=
  bytes.take e.start ++ e.replacement ++ bytes.drop e.stop

/-- The edits that fill the placeholders among some pieces, in the order of their places; the
pieces begin `offset` bytes into a text. -/
def edits (fill : Text → Text) : (offset : ℕ) → List (Piece Placeholder) → List Edit
  | _, [] => []
  | offset, .character c :: rest => edits fill (offset + c.utf8Size) rest
  | offset, .occurrence p :: rest =>
    let stop := offset + byteSize p.spelling
    ⟨offset, stop, (fill p.name).bytes⟩ :: edits fill stop rest

theorem bytes_append (a b : Text) : (a ++ b).bytes = a.bytes ++ b.bytes := List.flatMap_append

theorem length_bytes (t : Text) : t.bytes.length = byteSize t := by
  induction t with
  | nil => rfl
  | cons c t ih =>
    rw [Text.bytes, List.flatMap_cons, List.length_append, String.length_utf8EncodeChar]
    exact congrArg (c.utf8Size + ·) ih

/-- Made from the last to the first, each edit finds its placeholder in place. -/
theorem foldr_edits (fill : Text → Text) (front : Text) (ps : List (Piece Placeholder)) :
    (edits fill (byteSize front) ps).foldr Edit.apply
        (front ++ written Placeholder.spelling ps).bytes =
      (front ++ written (fun p => fill p.name) ps).bytes := by
  induction ps generalizing front with
  | nil => rfl
  | cons piece ps ih =>
    have hsize : ∀ a b : Text, byteSize a + byteSize b = byteSize (a ++ b) := by
      intro a b
      rw [← length_bytes, ← length_bytes, ← length_bytes, bytes_append, List.length_append]
    cases piece with
    | character c =>
      have hoffset : byteSize front + c.utf8Size = byteSize (front ++ [c]) := by
        rw [← hsize]
        rfl
      have hih := ih (front ++ [c])
      simp only [List.append_assoc, List.singleton_append] at hih
      rw [edits, hoffset]
      exact hih
    | occurrence p =>
      have hih := ih (front ++ p.spelling)
      rw [List.append_assoc, List.append_assoc] at hih
      have htake : ∀ rest : Text, (front ++ rest).bytes.take (byteSize front) = front.bytes := by
        intro rest
        rw [bytes_append, ← length_bytes, List.take_left]
      have hdrop : ∀ rest : Text,
          (front ++ (p.spelling ++ rest)).bytes.drop (byteSize (front ++ p.spelling)) =
            rest.bytes := by
        intro rest
        rw [← List.append_assoc, bytes_append, ← length_bytes, List.drop_left]
      rw [edits, List.foldr_cons, written_occurrence, written_occurrence, hsize, hih, Edit.apply,
        htake, hdrop, bytes_append, bytes_append, List.append_assoc]

/-- Substitution replaces all placeholders at once. It succeeds exactly if all chains of
references from the content stay within the slots that are there and within the limit on
depth; then none of them comes back to a slot, and the only text that replacement leads to is
also what edits in place arrive at. -/
theorem substitute_simultaneous (slots : SlotTable) (content : Text) :
    written Placeholder.spelling (segments content) = content ∧
    ((∃ t, substitute slots maxDepth [] content = .ok t) ↔
      ∀ names, Chain slots (referenced content) names →
        (∀ name ∈ names, (Table.find? name slots).isSome = true) ∧ names.length ≤ maxDepth) ∧
    ∀ t, substitute slots maxDepth [] content = .ok t →
      (∀ names, Chain slots (referenced content) names → names.Nodup) ∧
      (∀ u, Replaced slots content u ↔ u = t) ∧
      ∃ fill : Text → Text,
        (∀ name ∈ referenced content, ∃ inner, Table.find? name slots = some inner ∧
          Replaced slots inner (fill name)) ∧
        t = filled fill content ∧
        (edits fill 0 (segments content)).foldr Edit.apply content.bytes = t.bytes := by
  have hwritten : written Placeholder.spelling (segments content) = content :=
    written_pieces spelled_placeholder content
  refine ⟨hwritten, substitute_iff_limited, fun t ht => ⟨fun names hnames => ?_, ?_, ?_⟩⟩
  · exact (substitute_iff_limited.1 ⟨t, ht⟩).nodup hnames
  · intro u
    have hreplaced := replaced_of_substitute ht
    constructor
    · exact fun hu => hu.unique hreplaced
    · rintro rfl
      exact hreplaced
  · obtain ⟨fill, hfill, rfl⟩ := substitute_eq_ok.1 ht
    refine ⟨fill, fun name hname => ?_, rfl, ?_⟩
    · obtain ⟨inner, below, -, hinner, -, hsub⟩ := hfill name hname
      exact ⟨inner, hinner, replaced_of_substitute hsub⟩
    · have hedits := foldr_edits fill [] (segments content)
      rwa [List.nil_append, List.nil_append, hwritten] at hedits

/-- A slot that is referred to twice does not come back to itself. -/
theorem substitute_simultaneous_siblings :
    let slots : SlotTable := [("a", placeholder "b"), ("b", "1")]
    let content : Text := placeholder "a" ++ "-" ++ placeholder "a"
    substitute slots maxDepth [] content = .ok "1-1" ∧ Replaced slots content "1-1" := by
  intro slots content
  have hsubstitute : substitute slots maxDepth [] content = .ok "1-1" := by decide +kernel
  obtain ⟨-, hreplaced, -⟩ := (substitute_simultaneous slots content).2.2 _ hsubstitute
  exact ⟨hsubstitute, (hreplaced _).2 rfl⟩

end AssessmentItems.SlotChains
