import AssessmentItems.Proofs.CheckedFragments
import AssessmentItems.Proofs.Constructs

/-!
The verdicts on fragments. A rule finds the first place where its construct stands; a fragment is
refused for the first rule of its placement that finds any, with the start of the fragment from
that place on, and is accepted if the constructs of its rules stand nowhere in it. The rules that
apply everywhere come first, so they give the same verdict in every placement.
-/
namespace AssessmentItems.Verdicts

open Text Scanning ContentRules Pieces Placeholders Tags TextClasses Readings OuterTags Constructs

variable {fragment t : Text} {placement : Placement}

/-- The construct of a rule stands behind the first text, at the front of the second. -/
def Occurs : Rule → Text → Text → Prop
  | .legacyRemnant, _, t => LegacyRemnant t
  | .disallowedMath, _, t => BannedMath t
  | .authoringArtifact, _, t => AuthoringArtifact t
  | .imageMissingAlt, before, t => BareImage before t
  | .blockRoot, before, t =>
    (∀ c ∈ before, isSpace c = true) ∧ ∃ c ∈ t.head?, isSpace c = false ∧ c ≠ '<'
  | .blockElement, _, t => BlockTag t
  | .inlineMath, _, t => MathTag t
  | .nestedInteraction, _, t => OtherInteraction t

section

variable {occurs : Text → Text → Prop} {found : Option Text}

/-- What is found of a construct in a text: the text before the first place where it stands. -/
def Finds (occurs : Text → Text → Prop) (t : Text) : Option Text → Prop
  | some before => ∃ rest, t = before ++ rest ∧ occurs before rest ∧
      ∀ a b, t = a ++ b → occurs a b → before <+: a
  | none => ∀ a b, t = a ++ b → ¬ occurs a b

/-- What stands first behind a text, where nothing stands inside it, stands first in the whole. -/
theorem Finds.behind (h : Finds occurs t found) (front : Text)
    (hfront : ∀ a b, front ++ t = a ++ b → occurs a b → front <+: a)
    (hsame : ∀ a b, t = a ++ b → (occurs (front ++ a) b ↔ occurs a b)) :
    Finds occurs (front ++ t) (found.map (front ++ ·)) := by
  have hrest : ∀ a b, front ++ t = a ++ b → occurs a b →
      ∃ a', a = front ++ a' ∧ t = a' ++ b ∧ occurs a' b := by
    intro a b heq hoccurs
    obtain ⟨a', rfl⟩ := hfront a b heq hoccurs
    rw [List.append_assoc] at heq
    have ht := List.append_cancel_left heq
    exact ⟨a', rfl, ht, (hsame a' b ht).1 hoccurs⟩
  cases found with
  | none =>
    intro a b heq hoccurs
    obtain ⟨a', -, ht, hoccurs'⟩ := hrest a b heq hoccurs
    exact h a' b ht hoccurs'
  | some before =>
    obtain ⟨rest, ht, hoccurs, hfirst⟩ := h
    refine ⟨rest, by rw [ht, List.append_assoc], (hsame before rest ht).2 hoccurs, ?_⟩
    intro a b heq hoccurs'
    obtain ⟨a', rfl, ht', hoccurs''⟩ := hrest a b heq hoccurs'
    exact (List.prefix_append_right_inj front).2 (hfirst a' b ht' hoccurs'')

theorem finds_here (h : occurs [] t) : Finds occurs t (some []) :=
  ⟨t, rfl, h, fun _ _ _ _ => List.nil_prefix⟩

theorem finds_locate {stands : Text → Bool} {construct : Text → Prop}
    (h : ∀ u, stands u = true ↔ construct u) (hnil : ¬ construct []) (t : Text) :
    Finds (fun _ => construct) t (locate stands t) := by
  induction t with
  | nil =>
    intro a b heq
    rw [(List.append_eq_nil_iff.1 heq.symm).2]
    exact hnil
  | cons c t ih =>
    rw [locate]
    split_ifs with hhere
    · exact finds_here ((h _).1 hhere)
    · refine Finds.behind ih [c] (fun a b heq hoccurs => ?_) fun _ _ _ => Iff.rfl
      cases a with
      | nil =>
        rw [List.nil_append] at heq
        rw [← heq] at hoccurs
        exact absurd ((h _).2 hoccurs) hhere
      | cons d a =>
        rw [(List.cons.inj heq).1]
        exact List.prefix_append [d] a

end

theorem finds_blockRoot (fragment : Text) :
    Finds (Occurs .blockRoot) fragment (Rule.blockRoot.find? fragment) := by
  have hcut : ∀ a b, fragment = a ++ b → Occurs .blockRoot a b →
      fragment.takeWhile isSpace = a ∧ fragment.dropWhile isSpace = b := by
    rintro a b rfl ⟨ha, c, hc, hspace, -⟩
    have hb : ∀ d ∈ b.head?, isSpace d = false := by
      intro d hd
      rwa [← Option.mem_unique hc hd]
    exact ⟨takeWhile_run ha hb, dropWhile_run ha hb⟩
  simp only [Rule.find?, trimStart]
  split
  · next hblank =>
    intro a b heq hoccurs
    obtain ⟨-, c, hc, -⟩ := id hoccurs
    rw [← (hcut a b heq hoccurs).2, hblank] at hc
    contradiction
  · next c rest hdrop =>
    split_ifs with hc
    · intro a b heq hoccurs
      obtain ⟨-, d, hd, -, hne⟩ := id hoccurs
      rw [← (hcut a b heq hoccurs).2, hdrop] at hd
      obtain rfl := Option.mem_some_iff.1 hd
      exact hne hc
    · have hspace : isSpace c = false := by
        have hhead := List.head?_dropWhile_not isSpace fragment
        rw [hdrop] at hhead
        simpa using hhead
      refine ⟨c :: rest, ?_, ⟨fun d hd => List.mem_takeWhile_imp hd, c, rfl, hspace, hc⟩, ?_⟩
      · rw [← hdrop, List.takeWhile_append_dropWhile]
      · intro a b heq hoccurs
        rw [(hcut a b heq hoccurs).1]

theorem bareImage_iff {before t : Text} : BareImage before t ↔
    ∃ tag rest, t = tag ++ rest ∧ Outer "<img" before tag ∧ lacksAlt tag = true := by
  have hlacks : ∀ tag, lacksAlt tag = true ↔ ¬ Described tag := by
    intro tag
    rw [← lacksAlt_eq_false, Bool.not_eq_false]
  have houter : ∀ tag, Outer "<img" before tag ↔ ImageTag tag ∧ ¬ EndsInImage before := by
    intro tag
    have hopen : '<' ∉ ("img" : Text) := by decide
    rw [← isTag_iff, ← endsInside_iff]
    exact outer_iff hopen (by decide)
  simp only [BareImage, hlacks, houter]
  constructor
  · rintro ⟨hbefore, tag, rest, ht, htag, hnot⟩
    exact ⟨tag, rest, ht, ⟨htag, hbefore⟩, hnot⟩
  · rintro ⟨tag, rest, ht, ⟨htag, hbefore⟩, hnot⟩
    exact ⟨hbefore, tag, rest, ht, htag, hnot⟩

theorem finds_images (fragment : Text) :
    Finds BareImage fragment (beforeBareImage (images fragment)) := by
  have hclose : '>' ∉ ("<img" : Text) := by decide
  unfold images
  induction fragment using scan_induction (spelled_tag? "<img") with
  | nil =>
    intro a b heq hbare
    obtain ⟨tag, rest, hb, ⟨htag, -⟩, -⟩ := bareImage_iff.1 hbare
    rw [(List.append_eq_nil_iff.1 heq.symm).2] at hb
    exact htag.ne_nil (List.append_eq_nil_iff.1 hb.symm).1
  | character c t hread ih =>
    rw [pieces_of_not_recognise _ _ _ _ hread, beforeBareImage]
    refine Finds.behind ih [c] (fun a b heq hbare => ?_) fun a b heq => ?_
    · obtain ⟨tag, rest, rfl, ⟨htag, -⟩, -⟩ := bareImage_iff.1 hbare
      cases a with
      | nil => exact absurd htag (not_isTag_of_eq_none hclose hread ⟨rest, heq.symm⟩)
      | cons d a =>
        rw [(List.cons.inj heq).1]
        exact List.prefix_append [d] a
    · simp only [bareImage_iff]
      refine exists_congr fun tag => exists_congr fun rest => and_congr_right fun hb => ?_
      subst hb
      subst heq
      rw [List.singleton_append, outer_cons hclose hread]
  | occurrence tag rest hne hread ih =>
    have htag : IsTag "<img" tag := ((tag?_eq_some_iff hclose).1 hread).1
    rw [pieces_of_recognise _ _ _ _ hne hread, beforeBareImage]
    rw [id]
    split_ifs with hlacks
    · refine finds_here (bareImage_iff.2 ⟨tag, rest, rfl, ⟨htag, fun s hs hs' => ?_⟩, hlacks⟩)
      exact absurd (List.suffix_nil.1 hs) hs'
    · refine Finds.behind ih tag (fun a b heq hbare => ?_) fun a b _ => ?_
      · obtain ⟨tag', rest', rfl, houter, hlacks'⟩ := bareImage_iff.1 hbare
        rcases outer_or_behind htag houter heq with ⟨-, rfl, -⟩ | ⟨between, rfl, -⟩
        · exact absurd hlacks' hlacks
        · exact List.prefix_append _ _
      · simp only [bareImage_iff, outer_append htag]

theorem finds_find? (rule : Rule) (fragment : Text) :
    Finds (Occurs rule) fragment (rule.find? fragment) := by
  have hword : ∀ {word : Text}, word ≠ [] → ∀ {s rest : Text}, [] = s ++ rest →
      ¬ Spells word s := by
    intro word hne s rest heq hs
    rw [(List.append_eq_nil_iff.1 heq.symm).1] at hs
    exact hne hs.symm
  cases rule with
  | legacyRemnant =>
    refine finds_locate (fun _ => isLegacyRemnant_iff) ?_ fragment
    rintro (h | h) <;> exact absurd (List.prefix_nil.1 h) (by decide)
  | disallowedMath =>
    refine finds_locate (fun _ => opensTag_iff fun _ => endsWord_iff) ?_ fragment
    rintro ⟨_, _, _, _, heq, -⟩
    contradiction
  | authoringArtifact =>
    refine finds_locate (fun _ => isAuthoringArtifact_iff) ?_ fragment
    rintro (⟨_, _, _, heq, -⟩ | ⟨_, _, _, _, _, _, heq, hs, -⟩ | ⟨_, _, heq, hs, -⟩ |
      ⟨_, _, heq, hs, -⟩)
    · contradiction
    · exact hword (by decide) heq hs
    · exact hword (by decide) heq hs
    · exact hword (by decide) heq hs
  | imageMissingAlt => exact finds_images fragment
  | blockRoot => exact finds_blockRoot fragment
  | blockElement =>
    refine finds_locate (fun _ => opensTag_iff fun _ => endsTagName_iff) ?_ fragment
    rintro ⟨_, _, _, _, heq, -⟩
    contradiction
  | inlineMath =>
    refine finds_locate (fun _ => opensTag_iff fun _ => endsTagName_iff) ?_ fragment
    rintro ⟨_, _, _, _, heq, -⟩
    contradiction
  | nestedInteraction =>
    refine finds_locate (fun _ => isOtherInteraction_iff) ?_ fragment
    rintro ⟨_, _, _, heq, hs, -⟩
    exact hword (by decide) heq hs

def Absent (fragment : Text) (rule : Rule) : Prop := ∀ a b, fragment = a ++ b → ¬ Occurs rule a b

theorem find?_eq_none {rule : Rule} : rule.find? fragment = none ↔ Absent fragment rule := by
  have hfinds := finds_find? rule fragment
  cases hfound : rule.find? fragment with
  | none =>
    rw [hfound] at hfinds
    exact iff_of_true rfl hfinds
  | some before =>
    rw [hfound] at hfinds
    obtain ⟨rest, heq, hoccurs, -⟩ := hfinds
    exact iff_of_false nofun fun h => h before rest heq hoccurs

/-- The rule finds its construct first behind the text. -/
theorem find?_eq_some {rule : Rule} {before : Text} :
    rule.find? fragment = some before ↔ Finds (Occurs rule) fragment (some before) := by
  have hfinds := finds_find? rule fragment
  constructor
  · intro h
    rwa [h] at hfinds
  · rintro ⟨rest, heq, hoccurs, hfirst⟩
    cases hfound : rule.find? fragment with
    | none => exact absurd hoccurs (find?_eq_none.1 hfound before rest heq)
    | some before' =>
      rw [hfound] at hfinds
      obtain ⟨rest', heq', hoccurs', hfirst'⟩ := hfinds
      have hle := hfirst before' rest' heq' hoccurs'
      have hge := hfirst' before rest heq hoccurs
      rw [hge.eq_of_length (Nat.le_antisymm hge.length_le hle.length_le)]

def Shows (rest snippet : Text) : Prop :=
  (rest.length ≤ 40 ∧ snippet = rest) ∨
    ∃ shown cut, rest = shown ++ cut ∧ shown.length = 40 ∧ cut ≠ [] ∧ snippet = shown ++ ['…']

theorem shows_iff {rest shown : Text} : Shows rest shown ↔ shown = snippet rest := by
  unfold Shows snippet
  rw [show snippetLength = 40 from rfl]
  split_ifs with hlong
  · constructor
    · rintro (⟨hle, -⟩ | ⟨front, cut, rfl, hlength, -, rfl⟩)
      · omega
      · rw [← hlength, List.take_left]
    · rintro rfl
      refine .inr ⟨rest.take 40, rest.drop 40, (List.take_append_drop 40 rest).symm, ?_, ?_, rfl⟩
      · rw [List.length_take]
        omega
      · rw [ne_eq, List.drop_eq_nil_iff]
        omega
  · rw [List.append_nil, List.take_of_length_le (Nat.le_of_not_lt hlong)]
    constructor
    · rintro (⟨-, h⟩ | ⟨front, cut, rfl, hlength, hcut, -⟩)
      · exact h
      · rw [List.length_append] at hlong
        have hpos := List.length_pos_of_ne_nil hcut
        omega
    · exact fun h => .inl ⟨Nat.le_of_not_lt hlong, h⟩

/-- The first rule of a placement whose construct stands in a fragment, and what is shown of the
fragment from the first place on where it does. -/
structure Refuses (placement : Placement) (fragment : Text) (v : Violation) : Prop where
  first : ∃ earlier later, Rule.all.filter (Rule.appliesTo placement) = earlier ++ v.rule :: later ∧
    ∀ rule ∈ earlier, Absent fragment rule
  place : ∃ before rest, fragment = before ++ rest ∧ Occurs v.rule before rest ∧
    (∀ a b, fragment = a ++ b → Occurs v.rule a b → before <+: a) ∧ Shows rest v.snippet

theorem violation?_eq_none {rule : Rule} :
    violation? fragment rule = none ↔ Absent fragment rule := by
  rw [violation?, Option.map_eq_none_iff, find?_eq_none]

theorem violation?_eq_some {rule : Rule} {v : Violation} :
    violation? fragment rule = some v ↔ v.rule = rule ∧
      ∃ before rest, fragment = before ++ rest ∧ Occurs rule before rest ∧
        (∀ a b, fragment = a ++ b → Occurs rule a b → before <+: a) ∧ Shows rest v.snippet := by
  obtain ⟨found, shown⟩ := v
  rw [violation?, Option.map_eq_some_iff]
  simp only [find?_eq_some, shows_iff, Violation.mk.injEq]
  constructor
  · rintro ⟨before, ⟨rest, rfl, hoccurs, hfirst⟩, rfl, hshown⟩
    rw [List.drop_left] at hshown
    exact ⟨rfl, before, rest, rfl, hoccurs, hfirst, hshown.symm⟩
  · rintro ⟨rfl, before, rest, rfl, hoccurs, hfirst, rfl⟩
    exact ⟨before, ⟨rest, rfl, hoccurs, hfirst⟩, rfl, by rw [List.drop_left]⟩

theorem check_eq_some {v : Violation} :
    ContentRules.check placement fragment = some v ↔ Refuses placement fragment v := by
  rw [ContentRules.check, List.findSome?_eq_some_iff]
  simp only [violation?_eq_none, violation?_eq_some]
  constructor
  · rintro ⟨earlier, rule, later, hall, ⟨rfl, hplace⟩, hearlier⟩
    exact ⟨⟨earlier, later, hall, hearlier⟩, hplace⟩
  · rintro ⟨⟨earlier, later, hall, hearlier⟩, hplace⟩
    exact ⟨earlier, v.rule, later, hall, ⟨rfl, hplace⟩, hearlier⟩

theorem mem_all (rule : Rule) : rule ∈ Rule.all := by cases rule <;> decide

theorem check_eq_none : ContentRules.check placement fragment = none ↔
    ∀ rule, Rule.appliesTo placement rule = true → Absent fragment rule := by
  rw [ContentRules.check, List.findSome?_eq_none_iff]
  simp only [violation?_eq_none, List.mem_filter, mem_all, true_and]

def baseRules : List Rule := [.legacyRemnant, .disallowedMath, .authoringArtifact, .imageMissingAlt]

/-- The rules that apply in every placement come before those that do not. -/
theorem filter_all (placement : Placement) : ∃ rest,
    Rule.all.filter (Rule.appliesTo placement) = baseRules ++ rest ∧
      ∀ rule ∈ rest, rule ∉ baseRules := by
  cases placement
  · exact ⟨[.blockRoot], rfl, by decide⟩
  · exact ⟨[.blockElement], rfl, by decide⟩
  · exact ⟨[.blockElement, .inlineMath, .nestedInteraction], rfl, by decide⟩

/-- A violation of a rule that applies everywhere is found whatever the placement is. -/
theorem check_eq_of_base {v : Violation} (h : ContentRules.check placement fragment = some v)
    (hbase : v.rule ∈ baseRules) (other : Placement) :
    ContentRules.check other fragment = some v := by
  have hfound : baseRules.findSome? (violation? fragment) = some v := by
    obtain ⟨rest, hrules, hrest⟩ := filter_all placement
    rw [ContentRules.check, hrules, List.findSome?_append] at h
    cases hfirst : baseRules.findSome? (violation? fragment) with
    | some w => rwa [hfirst] at h
    | none =>
      rw [hfirst, Option.none_or] at h
      obtain ⟨rule, hrule, hv⟩ := List.exists_of_findSome?_eq_some h
      rw [(violation?_eq_some.1 hv).1] at hbase
      exact absurd hbase (hrest rule hrule)
  obtain ⟨rest, hrules, -⟩ := filter_all other
  rw [ContentRules.check, hrules, List.findSome?_append, hfound, Option.some_or]

theorem check_mixed_eq_none (h : ContentRules.check .inlineOnly fragment = none) :
    ContentRules.check .mixed fragment = none := by
  rw [check_eq_none] at h ⊢
  have happlies : ∀ rule, Rule.appliesTo .mixed rule = true →
      Rule.appliesTo .inlineOnly rule = true := by
    intro rule
    cases rule <;> decide
  exact fun rule hrule => h rule (happlies rule hrule)

theorem check_eq_error {path : Text} {e : CompileError} :
    Fragment.check ⟨placement, path, fragment⟩ = .error e ↔
      ∃ v, e = .content placement path v ∧ ContentRules.check placement fragment = some v := by
  rw [Fragment.check]
  cases ContentRules.check placement fragment with
  | none => simp
  | some v => simp [eq_comm]

/-- A fragment is accepted in a placement exactly if the constructs of the rules there stand
nowhere in it, and else refused for the first of these rules at the first place it finds. So what
an inline choice may hold a prompt may hold, and a violation of a rule that applies everywhere is
told alike in all placements. -/
theorem verdicts (fragment : Text) :
    (∀ placement path, Fragment.check ⟨placement, path, fragment⟩ = .ok () ↔
      ∀ rule, Rule.appliesTo placement rule = true → Absent fragment rule) ∧
    (∀ placement path e, Fragment.check ⟨placement, path, fragment⟩ = .error e ↔
      ∃ v, e = .content placement path v ∧ Refuses placement fragment v) ∧
    (∀ path path', Fragment.check ⟨.inlineOnly, path, fragment⟩ = .ok () →
      Fragment.check ⟨.mixed, path', fragment⟩ = .ok ()) ∧
    ∀ placement path v, v.rule ∈ baseRules →
      Fragment.check ⟨placement, path, fragment⟩ = .error (.content placement path v) →
      ∀ placement' path',
        Fragment.check ⟨placement', path', fragment⟩ = .error (.content placement' path' v) := by
  refine ⟨fun placement path => ?_, fun placement path e => ?_, fun path path' h => ?_, ?_⟩
  · rw [Results.check_eq_ok, check_eq_none]
  · simp only [check_eq_error, check_eq_some]
  · rw [Results.check_eq_ok] at h ⊢
    exact check_mixed_eq_none h
  · intro placement path v hbase h placement' path'
    obtain ⟨w, heq, hw⟩ := check_eq_error.1 h
    obtain rfl : v = w := (CompileError.content.inj heq).2.2
    exact CheckedFragments.check_eq_error (check_eq_of_base hw hbase placement')

/-- An option that a prompt may hold, and an image that is refused wherever it stands. -/
theorem verdicts_option_image :
    Fragment.check ⟨.inlineOnly, "choices.A", "<em>x</em> &lt; 2"⟩ = .ok () ∧
    Fragment.check ⟨.mixed, "prompt", "<em>x</em> &lt; 2"⟩ = .ok () ∧
    (∀ rule, Rule.appliesTo .mixed rule = true → Absent "<em>x</em> &lt; 2" rule) ∧
    (∀ placement path, Fragment.check ⟨placement, path, "see <IMG alt=' '/> and <math/>"⟩ =
      .error (.content placement path ⟨.imageMissingAlt, "<IMG alt=' '/> and <math/>"⟩)) ∧
    Refuses .inlineOnly "see <IMG alt=' '/> and <math/>"
      ⟨.imageMissingAlt, "<IMG alt=' '/> and <math/>"⟩ := by
  have hoption : Fragment.check ⟨.inlineOnly, "choices.A", "<em>x</em> &lt; 2"⟩ = .ok () := by
    decide
  have himage : Fragment.check ⟨.inlineOnly, "choices.B", "see <IMG alt=' '/> and <math/>"⟩ =
      .error (.content .inlineOnly "choices.B"
        ⟨.imageMissingAlt, "<IMG alt=' '/> and <math/>"⟩) := by
    decide
  obtain ⟨haccepted, -, hmixed, -⟩ := verdicts "<em>x</em> &lt; 2"
  obtain ⟨-, hrefused, -, heverywhere⟩ := verdicts "see <IMG alt=' '/> and <math/>"
  have hprompt := hmixed "choices.A" "prompt" hoption
  refine ⟨hoption, hprompt, (haccepted .mixed "prompt").1 hprompt,
    heverywhere _ _ _ (by decide) himage, ?_⟩
  obtain ⟨v, heq, hv⟩ := (hrefused .inlineOnly "choices.B" _).1 himage
  rwa [(CompileError.content.inj heq).2.2]

end AssessmentItems.Verdicts
