import AssessmentItems.Compiler
import AssessmentItems.Proofs.Results

/-!
Compilations as a whole. A compilation succeeds exactly if the item is in order, its
fragments are accepted, all slots can be filled, and its body and its feedback resolve
against them; the document is then put together from these three texts.
-/
namespace AssessmentItems.Compilation

open Slots Results

theorem resolveContent_eq_ok {slots : SlotTable} {path r : Text} {content : Content} :
    Compiler.resolveContent slots path content = .ok r ↔
      ∃ t, ContentMarkup.render slots path content = .ok t ∧ resolve slots t = .ok r := by
  refine bind_eq_ok.trans (exists_congr fun t => and_congr_right fun _ => ?_)
  exact mapError_eq_ok

theorem validate_eq_ok {item : AssessmentItem} {ws : Table Widget} :
    (Compiler.validate item).result = .ok ws ↔ Compiler.prepare item = .ok ws ∧
      ∀ f ∈ Fragment.ofItem item, ContentRules.check f.placement f.content = none := by
  refine counted_bind_eq_ok.trans ⟨?_, ?_⟩
  · rintro ⟨ws', hprepare, h⟩
    obtain ⟨_, hfragments, hws⟩ := counted_bind_eq_ok.1 h
    obtain rfl := Except.ok.inj hws
    exact ⟨hprepare, ofFragments_eq_ok.1 hfragments⟩
  · rintro ⟨hprepare, hfragments⟩
    exact ⟨ws, hprepare, counted_bind_eq_ok.2 ⟨(), ofFragments_eq_ok.2 hfragments, rfl⟩⟩

structure Compiled (c : Compiler) (item : AssessmentItem) where
  widgets : Table Widget
  slots : SlotTable
  body : Text
  correct : Text
  incorrect : Text
  prepared : Compiler.prepare item = .ok widgets
  accepted : ∀ f ∈ Fragment.ofItem item, ContentRules.check f.placement f.content = none
  filled : Compiler.slotTable c.renderer item widgets = .ok slots
  body_resolved : Compiler.resolveContent slots "body" item.body = .ok body
  correct_resolved :
    Compiler.resolveContent slots "feedback.correct" item.feedback.correct = .ok correct
  incorrect_resolved :
    Compiler.resolveContent slots "feedback.incorrect" item.feedback.incorrect = .ok incorrect

namespace Compiled

variable {c : Compiler} {item : AssessmentItem}

def document (r : Compiled c item) : Document where
  identifier := item.identifier
  title := item.title
  configuration := c.configuration
  declarations := Scoring.declarationsMarkup item.responseDeclarations
  body := r.body
  correct := r.correct
  incorrect := r.incorrect
  processing :=
    Scoring.processingMarkup item.responseDeclarations (Compiler.inlineFeedback item)

def shown (r : Compiled c item) : List Text := [r.body, r.correct, r.incorrect]

theorem assemble_eq (r : Compiled c item) : c.assemble item r.widgets = .ok r.document :=
  bind_eq_ok.2 ⟨r.slots, r.filled, bind_eq_ok.2 ⟨r.body, r.body_resolved,
    bind_eq_ok.2 ⟨r.correct, r.correct_resolved,
      bind_eq_ok.2 ⟨r.incorrect, r.incorrect_resolved, rfl⟩⟩⟩⟩

end Compiled

theorem compile_eq_ok {c : Compiler} {item : AssessmentItem} {document : Text} :
    (c.compile item).result = .ok document ↔
      ∃ r : Compiled c item, document = r.document.text := by
  constructor
  · intro h
    obtain ⟨ws, hvalidate, h⟩ := counted_bind_eq_ok.1 h
    obtain ⟨hprepare, hfragments⟩ := validate_eq_ok.1 hvalidate
    obtain ⟨d, hassemble, rfl⟩ := map_eq_ok.1 h
    obtain ⟨slots, hslots, hassemble⟩ := bind_eq_ok.1 hassemble
    obtain ⟨body, hbody, hassemble⟩ := bind_eq_ok.1 hassemble
    obtain ⟨correct, hcorrect, hassemble⟩ := bind_eq_ok.1 hassemble
    obtain ⟨incorrect, hincorrect, hassemble⟩ := bind_eq_ok.1 hassemble
    obtain rfl := Except.ok.inj hassemble
    exact ⟨⟨ws, slots, body, correct, incorrect, hprepare, hfragments, hslots, hbody, hcorrect,
      hincorrect⟩, rfl⟩
  · rintro ⟨r, rfl⟩
    refine counted_bind_eq_ok.2 ⟨r.widgets, validate_eq_ok.2 ⟨r.prepared, r.accepted⟩, ?_⟩
    exact map_eq_ok.2 ⟨r.document, r.assemble_eq, rfl⟩

end AssessmentItems.Compilation
