import AssessmentItems.CompileError
import AssessmentItems.Content

/-!
The markup of content. Markup stands for itself. A tree of nodes has paragraphs and
block slots at its top, and text, math and inline slots inside the paragraphs; a slot
is filled from a table, and the placeholders in what fills it are left as they are.
-/
namespace AssessmentItems.ContentMarkup

open Escaping Slots

def mathElement (markup : Text) : Text :=
  "<math xmlns=\"http://www.w3.org/1998/Math/MathML\">" ++ markup ++ "</math>"

def paragraphElement (markup : Text) : Text := "<p>" ++ markup ++ "</p>"

/-- The element around what fills a block slot. -/
def blockElement (markup : Text) : Text := "<div>" ++ markup ++ "</div>"

/-- What fills a slot. -/
def filling (slots : SlotTable) (slot : Text) : Except CompileError Text :=
  match Table.find? slot slots with
  | some markup => .ok markup
  | none => .error (.slots (.missing slot))

/-- The markup of a node in a paragraph. -/
def inlineNode (slots : SlotTable) (path : Text) : Node → Except CompileError Text
  | .text content => .ok (escapeText content)
  | .math markup => .ok (mathElement markup)
  | .inlineSlot slot => filling slots slot
  | .paragraph _ | .blockSlot _ => .error (.schema path .blockInParagraph)

/-- The markup of the nodes of a list one after another, the first with the given index. -/
def sequence (render : Text → Node → Except CompileError Text) (path : Text) (index : Nat) :
    List Node → Except CompileError Text
  | [] => .ok []
  | node :: rest => do
    let first ← render (Path.element path index) node
    let others ← sequence render path (index + 1) rest
    .ok (first ++ others)

/-- The markup of a node at the top. -/
def topNode (slots : SlotTable) (path : Text) : Node → Except CompileError Text
  | .paragraph content =>
    (sequence (inlineNode slots) (Path.member path "content") 0 content).map paragraphElement
  | .blockSlot slot => (filling slots slot).map blockElement
  | .text _ | .math _ | .inlineSlot _ => .error (.schema path .inlineAtTop)

def render (slots : SlotTable) (path : Text) : Content → Except CompileError Text
  | .markup t => .ok t
  | .nodes ns => sequence (topNode slots) path 0 ns

end AssessmentItems.ContentMarkup
