import AssessmentItems.Item

/-!
The authored fragments of markup in an item, each with its placement and its path, in
the order in which they are checked. A tree of nodes has a fragment for every math
node, since its texts are escaped and its slots are filled later. Checks are counted,
the one that fails included.
-/
namespace AssessmentItems

open ContentRules

structure Fragment where
  placement : Placement
  path : Text
  content : Text
deriving Repr, DecidableEq

namespace Fragment

mutual

def ofNode (path : Text) : Node → List Fragment
  | .math markup => [⟨.mixed, path, markup⟩]
  | .paragraph content => ofNodes (Path.member path "content") 0 content
  | .text _ | .inlineSlot _ | .blockSlot _ => []

/-- The fragments of the nodes of a list, the first with the given index. -/
def ofNodes (path : Text) (index : Nat) : List Node → List Fragment
  | [] => []
  | node :: rest => ofNode (Path.element path index) node ++ ofNodes path (index + 1) rest

end

def ofContent (path : Text) : Content → List Fragment
  | .markup t => [⟨.block, path, t⟩]
  | .nodes ns => ofNodes path 0 ns

/-- The path of an option. -/
def choicePath (path identifier : Text) : Text := Path.member (Path.member path "choices") identifier

def ofChoice (path : Text) (c : Choice) : List Fragment :=
  let path := choicePath path c.identifier
  ⟨.block, path, c.content⟩ ::
    (c.feedback.map fun feedback => ⟨.mixed, Path.member path "feedback", feedback⟩).toList

def ofPrompt (path : Text) (prompt : Option Text) : List Fragment :=
  (prompt.map fun t => ⟨.mixed, Path.member path "prompt", t⟩).toList

def ofInteraction (path : Text) : Interaction → List Fragment
  | .choice i => ofPrompt path i.prompt ++ i.choices.flatMap (ofChoice path)
  | .order i => ofPrompt path i.prompt ++ i.choices.flatMap (ofChoice path)
  | .inlineChoice i =>
    i.choices.map fun c => ⟨.inlineOnly, choicePath path c.identifier, c.content⟩
  | .textEntry _ => []

/-- All fragments of an item. -/
def ofItem (item : AssessmentItem) : List Fragment :=
  ofContent "body" item.body ++ ofContent "feedback.correct" item.feedback.correct ++
    ofContent "feedback.incorrect" item.feedback.incorrect ++
    item.interactions.flatMap fun (slot, i) => ofInteraction (Path.member "interactions" slot) i

/-- Checks a fragment by the rules of its placement. -/
def check (f : Fragment) : Except CompileError Unit :=
  match ContentRules.check f.placement f.content with
  | none => .ok ()
  | some violation => .error (.content f.placement f.path violation)

end Fragment

/-- A result and the number of fragments that were checked for it. -/
structure Counted (α : Type) where
  result : Except CompileError α
  checks : Nat

namespace Counted

/-- A result for which nothing was checked. -/
def unchecked (result : Except CompileError α) : Counted α := ⟨result, 0⟩

instance : Monad Counted where
  pure a := unchecked (.ok a)
  bind c f :=
    match c.result with
    | .error e => ⟨.error e, c.checks⟩
    | .ok a => ⟨(f a).result, c.checks + (f a).checks⟩

/-- One check of a fragment. -/
def ofFragment (f : Fragment) : Counted Unit := ⟨f.check, 1⟩

/-- Checks fragments in order up to the first that fails. -/
def ofFragments : List Fragment → Counted Unit
  | [] => pure ()
  | f :: rest => do
    ofFragment f
    ofFragments rest

end Counted
end AssessmentItems
