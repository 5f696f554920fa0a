import AssessmentItems.Text

/-!
Searching a text from left to right: the first place where something occurs, and
the cut of a text into occurrences that do not overlap and the single characters
between them.
-/
namespace AssessmentItems.Scanning

/-- The text before the first place where `occurs` holds of the rest. -/
def locate (occurs : Text → Bool) : Text → Option Text
  | [] => none
  | c :: t => if occurs (c :: t) then some [] else (locate occurs t).map (c :: ·)

/-- The first value that `recognise` finds, at the place furthest to the left. -/
def firstMatch (recognise : Text → Option α) : Text → Option α
  | [] => none
  | c :: t => recognise (c :: t) <|> firstMatch recognise t

/-- The tag at the front of a text up to its first `>`, if it begins with `start` in any
case and the word ends there; `start` is in lower case. -/
def tag? (start t : Text) : Option Text := do
  let rest ← Text.afterFolded? start t
  if Text.endsWord rest ∧ '>' ∈ rest then some (t.takeWhile (· ≠ '>') ++ ['>']) else none

/-- A part of a text: an occurrence of what was searched, or a character outside all. -/
inductive Piece (α : Type) where
  | character (c : Char)
  | occurrence (a : α)
deriving Repr, DecidableEq

/-- The pieces of a text whose first `covered` characters belong to an occurrence that
began before. -/
def piecesFrom (recognise : Text → Option α) (spelling : α → Text) : Nat → Text → List (Piece α)
  | _, [] => []
  | covered + 1, _ :: t => piecesFrom recognise spelling covered t
  | 0, c :: t =>
    match recognise (c :: t) with
    | some a => .occurrence a :: piecesFrom recognise spelling ((spelling a).length - 1) t
    | none => .character c :: piecesFrom recognise spelling 0 t

/-- Cuts a text at its occurrences: each begins at the first place to the right of the
one before where `recognise` finds it, and takes the characters of its spelling. -/
def pieces (recognise : Text → Option α) (spelling : α → Text) (t : Text) : List (Piece α) :=
  piecesFrom recognise spelling 0 t

/-- The occurrences among the pieces. -/
def occurrences (ps : List (Piece α)) : List α :=
  ps.filterMap fun
    | .character _ => none
    | .occurrence a => some a

theorem piecesFrom_append (recognise : Text → Option α) (spelling : α → Text) (s t : Text) :
    piecesFrom recognise spelling s.length (s ++ t) = piecesFrom recognise spelling 0 t := by
  induction s with
  | nil => rfl
  | cons c s ih => simpa [piecesFrom] using ih

/-- An occurrence at the start of a text is its first piece. -/
theorem pieces_of_recognise (recognise : Text → Option α) (spelling : α → Text) (a : α)
    (rest : Text) (hne : spelling a ≠ []) (h : recognise (spelling a ++ rest) = some a) :
    pieces recognise spelling (spelling a ++ rest) =
      .occurrence a :: pieces recognise spelling rest := by
  unfold pieces
  cases hs : spelling a with
  | nil => exact absurd hs hne
  | cons c s =>
    rw [hs, List.cons_append] at h
    simp only [List.cons_append, piecesFrom, h, hs, List.length_cons, Nat.add_sub_cancel]
    rw [piecesFrom_append]

theorem pieces_of_not_recognise (recognise : Text → Option α) (spelling : α → Text) (c : Char)
    (t : Text) (h : recognise (c :: t) = none) :
    pieces recognise spelling (c :: t) = .character c :: pieces recognise spelling t := by
  simp [pieces, piecesFrom, h]

end AssessmentItems.Scanning
