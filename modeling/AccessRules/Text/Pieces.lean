import AccessRules.Text.Blank

/-!
# Words and lines

A text is cut at the characters that satisfy a test. Words are the pieces between blanks that
are not empty; lines are the pieces between line feeds, less the carriage return in front of one.
-/

namespace AccessRules.Text

/-! ## Pieces -/

/-- Puts a character in front of the first piece. -/
def ontoFirst (c : Char) : List (List Char) → List (List Char)
  | [] => [[c]]
  | piece :: pieces => (c :: piece) :: pieces

/-- `split cuts text` is the pieces of `text` between the characters that satisfy `cuts`. -/
def split (cuts : Char → Bool) (text : List Char) : List (List Char) :=
  text.foldr (fun c pieces => if cuts c then [] :: pieces else ontoFirst c pieces) [[]]

/-- The pieces between blanks that are not empty. -/
def words (text : String) : List String :=
  ((split isBlank text.toList).filter fun piece => !piece.isEmpty).map String.ofList

/-- A line without the carriage return at its end. -/
def withoutReturn (line : List Char) : List Char :=
  if line.getLast? = some '\r' then line.dropLast else line

/-- The lines of a text: all but the last one end in a line feed, with or without a carriage
return before it. -/
def lines (text : String) : List String :=
  let pieces := split (· == '\n') text.toList
  ((pieces.dropLast.map withoutReturn) ++ pieces.getLast?.toList).map String.ofList

/-! ## Cutting never drops a piece -/

theorem ontoFirst_ne_nil (c : Char) (pieces : List (List Char)) : ontoFirst c pieces ≠ [] := by
  cases pieces <;> simp [ontoFirst]

/-- Even an empty text has a piece. -/
theorem split_ne_nil (cuts : Char → Bool) (text : List Char) : split cuts text ≠ [] := by
  cases text with
  | nil => simp [split]
  | cons c text =>
    rw [split, List.foldr_cons]
    split
    · simp
    · exact ontoFirst_ne_nil c _

example : words " a\u00a0 b\u200b\t" = ["a", "b\u200b"] := by decide
example : lines "a\r\nb\r\n" = ["a", "b", ""] := by decide

end AccessRules.Text
