import ScriptToShell.Text.Blank

/-!
# Lines of a text

Two ways to cut a text at its line feeds. `pieces` keeps everything
between two feeds, so joining the pieces again gives the text back.
`lines` reads the text as lines that *end* in a feed: no line follows a
feed at the end, and a carriage return right before a feed belongs to
the line's end. Lines become one text again by `joinWith`.
-/

namespace ScriptToShell.Text

/-- The parts of a text between its line feeds; there is always at
least one. -/
def pieces : List Char → List (List Char)
  | [] => [[]]
  | c :: cs =>
    if c = '\n' then [] :: pieces cs
    else match pieces cs with
      | [] => [[c]]
      | p :: ps => (c :: p) :: ps

/-- Pieces put together again with a line feed between them. -/
def unpieces : List (List Char) → List Char
  | [] => []
  | [p] => p
  | p :: q :: ps => p ++ '\n' :: unpieces (q :: ps)

theorem pieces_ne_nil (cs : List Char) : pieces cs ≠ [] := by
  cases cs with
  | nil => simp [pieces]
  | cons c cs =>
    unfold pieces
    split
    · simp
    · split <;> simp

/-- Cutting a text at its line feeds loses nothing. -/
theorem unpieces_pieces (cs : List Char) : unpieces (pieces cs) = cs := by
  induction cs with
  | nil => rfl
  | cons c cs ih =>
    unfold pieces
    split
    · rename_i h
      cases hp : pieces cs with
      | nil => exact absurd hp (pieces_ne_nil cs)
      | cons q qs =>
        rw [hp] at ih
        simp [unpieces, ih, h]
    · split
      · rename_i hp
        exact absurd hp (pieces_ne_nil cs)
      · rename_i p ps hp
        rw [hp] at ih
        cases ps with
        | nil => simp_all [unpieces]
        | cons q qs => simp_all [unpieces]

/-- A line without the carriage return before its feed. -/
def dropReturn (line : List Char) : List Char :=
  match line.reverse with
  | '\r' :: cs => cs.reverse
  | _ => line

/-- The lines among the pieces of a text: all but the last end in a
feed, and the last is a line only if it holds something. -/
def linesOfPieces : List (List Char) → List (List Char)
  | [] => []
  | [last] => if last.isEmpty then [] else [last]
  | p :: q :: ps => dropReturn p :: linesOfPieces (q :: ps)

/-- **The lines of a text**, without their ends. -/
def lines (cs : List Char) : List (List Char) := linesOfPieces (pieces cs)

/-- Texts with a separator between them. -/
def joinWith (separator : String) : List String → String
  | [] => ""
  | [s] => s
  | s :: t :: ss => s ++ separator ++ joinWith separator (t :: ss)

end ScriptToShell.Text
