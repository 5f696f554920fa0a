import AssessmentItems.Proofs.FragmentOrder

/-!
How many fragments are checked. Nothing is checked of an item whose structure or widgets are
refused; else the fragments are checked in the order of the document up to the first that breaks a
rule, which is then reported, or all of them. What a compiler renders, and whether its slots can
be filled, changes neither the count nor the report.
-/
namespace AssessmentItems.CheckedFragments

open Results FragmentOrder

section

variable {α β : Type} {c : Counted α} {f : α → Counted β}

theorem bind_of_error {e : CompileError} (h : c.result = .error e) :
    (c >>= f).result = .error e ∧ (c >>= f).checks = c.checks := by
  obtain ⟨result, checks⟩ := c
  obtain rfl : result = .error e := h
  exact ⟨rfl, rfl⟩

theorem bind_of_ok {a : α} (h : c.result = .ok a) :
    (c >>= f).result = (f a).result ∧ (c >>= f).checks = c.checks + (f a).checks := by
  obtain ⟨result, checks⟩ := c
  obtain rfl : result = .ok a := h
  exact ⟨rfl, rfl⟩

/-- The second step checks nothing, so the count is that of the first. -/
theorem checks_bind (hf : ∀ a, (f a).checks = 0) : (c >>= f).checks = c.checks := by
  cases hc : c.result with
  | error e => exact (bind_of_error hc).2
  | ok a => rw [(bind_of_ok hc).2, hf, Nat.add_zero]

end

theorem check_eq_error {f : Fragment} {violation : ContentRules.Violation}
    (h : ContentRules.check f.placement f.content = some violation) :
    f.check = .error (.content f.placement f.path violation) := by
  rw [Fragment.check, h]

/-- Fragments that keep the rules are checked one after another. -/
theorem ofFragments_append {before : List Fragment} (rest : List Fragment)
    (h : ∀ f ∈ before, ContentRules.check f.placement f.content = none) :
    (Counted.ofFragments (before ++ rest)).result = (Counted.ofFragments rest).result ∧
      (Counted.ofFragments (before ++ rest)).checks =
        before.length + (Counted.ofFragments rest).checks := by
  induction before with
  | nil => exact ⟨rfl, (Nat.zero_add _).symm⟩
  | cons f before ih =>
    obtain ⟨hf, hbefore⟩ := List.forall_mem_cons.1 h
    obtain ⟨hresult, hchecks⟩ := ih hbefore
    have hok : (Counted.ofFragment f).result = .ok () := check_eq_ok.2 hf
    have hone : (Counted.ofFragment f).checks = 1 := rfl
    obtain ⟨hresult', hchecks'⟩ :=
      bind_of_ok (f := fun _ => Counted.ofFragments (before ++ rest)) hok
    refine ⟨hresult'.trans hresult, hchecks'.trans ?_⟩
    rw [hchecks, hone, List.length_cons]
    omega

theorem ofFragments_of_violation {before : List Fragment} (after : List Fragment) {f : Fragment}
    {violation : ContentRules.Violation}
    (hbefore : ∀ g ∈ before, ContentRules.check g.placement g.content = none)
    (hf : ContentRules.check f.placement f.content = some violation) :
    (Counted.ofFragments (before ++ f :: after)).result =
        .error (.content f.placement f.path violation) ∧
      (Counted.ofFragments (before ++ f :: after)).checks = before.length + 1 := by
  obtain ⟨hresult, hchecks⟩ := ofFragments_append (f :: after) hbefore
  have herror : (Counted.ofFragment f).result = .error (.content f.placement f.path violation) :=
    check_eq_error hf
  obtain ⟨hresult', hchecks'⟩ :=
    bind_of_error (f := fun _ => Counted.ofFragments after) herror
  exact ⟨hresult.trans hresult', hchecks.trans (congrArg _ hchecks')⟩

theorem checks_ofFragments {fs : List Fragment}
    (h : ∀ f ∈ fs, ContentRules.check f.placement f.content = none) :
    (Counted.ofFragments fs).checks = fs.length := by
  have := (ofFragments_append [] h).2
  rwa [List.append_nil] at this

/-- A run that checks the fragments of an item in order, after its structure and its widgets. -/
structure ChecksInOrder {α : Type} (item : AssessmentItem) (fs : List Fragment)
    (run : Counted α) : Prop where
  structure_refused : ∀ e, Structure.check item = .error e → run.result = .error e ∧ run.checks = 0
  widgets_refused : ∀ e, Structure.check item = .ok () → Compiler.widgets item = .error e →
    run.result = .error e ∧ run.checks = 0
  fragment_refused : ∀ ws before f after violation, Structure.check item = .ok () →
    Compiler.widgets item = .ok ws → fs = before ++ f :: after →
    (∀ g ∈ before, ContentRules.check g.placement g.content = none) →
    ContentRules.check f.placement f.content = some violation →
    run.result = .error (.content f.placement f.path violation) ∧ run.checks = before.length + 1
  fragments_accepted : ∀ ws, Structure.check item = .ok () → Compiler.widgets item = .ok ws →
    (∀ f ∈ fs, ContentRules.check f.placement f.content = none) → run.checks = fs.length

section

variable {item : AssessmentItem}

theorem prepare_eq (h : Structure.check item = .ok ()) :
    Compiler.prepare item = Compiler.widgets item := by
  rw [Compiler.prepare, h]
  rfl

theorem checksInOrder_validate :
    ChecksInOrder item (Fragment.ofItem item) (Compiler.validate item) := by
  have hrefused : ∀ e, Compiler.prepare item = .error e →
      (Compiler.validate item).result = .error e ∧ (Compiler.validate item).checks = 0 :=
    fun e he => bind_of_error he
  have hprepared : ∀ ws, Compiler.prepare item = .ok ws →
      (Compiler.validate item).result =
          ((Counted.ofFragments (Fragment.ofItem item)) >>= fun _ => pure ws).result ∧
        (Compiler.validate item).checks =
          (Counted.ofFragments (Fragment.ofItem item)).checks := by
    intro ws hws
    obtain ⟨hresult, hchecks⟩ := bind_of_ok (c := Counted.unchecked (Compiler.prepare item))
      (f := fun ws => Counted.ofFragments (Fragment.ofItem item) >>= fun _ => pure ws) hws
    refine ⟨hresult, hchecks.trans ?_⟩
    exact (Nat.zero_add _).trans (checks_bind fun _ => rfl)
  refine ⟨fun e he => hrefused e ?_, fun e hok he => hrefused e ?_, ?_, ?_⟩
  · rw [Compiler.prepare, he]
    rfl
  · rw [prepare_eq hok, he]
  · intro ws before f after violation hok hws hfs hbefore hf
    obtain ⟨hresult, hchecks⟩ := hprepared ws ((prepare_eq hok).trans hws)
    obtain ⟨hviolation, hcount⟩ := ofFragments_of_violation after hbefore hf
    rw [← hfs] at hviolation hcount
    exact ⟨hresult.trans (bind_of_error hviolation).1, hchecks.trans hcount⟩
  · intro ws hok hws hfs
    obtain ⟨-, hchecks⟩ := hprepared ws ((prepare_eq hok).trans hws)
    exact hchecks.trans (checks_ofFragments hfs)

/-- What follows the checks makes none, and changes no refusal. -/
theorem ChecksInOrder.bind {α β : Type} {fs : List Fragment} {run : Counted α}
    {next : α → Counted β} (h : ChecksInOrder item fs run) (hnext : ∀ a, (next a).checks = 0) :
    ChecksInOrder item fs (run >>= next) where
  structure_refused e he := by
    obtain ⟨hresult, hchecks⟩ := h.structure_refused e he
    obtain ⟨hresult', hchecks'⟩ := bind_of_error (f := next) hresult
    exact ⟨hresult', hchecks'.trans hchecks⟩
  widgets_refused e hok he := by
    obtain ⟨hresult, hchecks⟩ := h.widgets_refused e hok he
    obtain ⟨hresult', hchecks'⟩ := bind_of_error (f := next) hresult
    exact ⟨hresult', hchecks'.trans hchecks⟩
  fragment_refused ws before f after violation hok hws hfs hbefore hf := by
    obtain ⟨hresult, hchecks⟩ :=
      h.fragment_refused ws before f after violation hok hws hfs hbefore hf
    obtain ⟨hresult', hchecks'⟩ := bind_of_error (f := next) hresult
    exact ⟨hresult', hchecks'.trans hchecks⟩
  fragments_accepted ws hok hws hfs :=
    (checks_bind hnext).trans (h.fragments_accepted ws hok hws hfs)

end

/-- Of every item the fragments are checked in the order of the document, by the checks alone as
by every compiler. -/
theorem fragments_checked_in_order (item : AssessmentItem) :
    Lists (InItem item) (Fragment.ofItem item) ∧
      ChecksInOrder item (Fragment.ofItem item) (Compiler.validate item) ∧
      ∀ c : Compiler, ChecksInOrder item (Fragment.ofItem item) (c.compile item) ∧
        ChecksInOrder item (Fragment.ofItem item) (c.manifest item) := by
  refine ⟨lists_ofItem item, checksInOrder_validate, fun c => ?_⟩
  have hcompile : ChecksInOrder item (Fragment.ofItem item) (c.compile item) :=
    checksInOrder_validate.bind fun _ => rfl
  exact ⟨hcompile, hcompile.bind fun _ => rfl⟩

end AssessmentItems.CheckedFragments
