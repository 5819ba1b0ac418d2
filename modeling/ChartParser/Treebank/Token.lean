import ChartParser.Text.Blank

/-! The tokens of a treebank text: parentheses, and the atoms between them. -/

namespace ChartParser.Treebank

inductive Token where
  | opening
  | closing
  | atom (text : List Char)
deriving DecidableEq

/-- Atoms are made of everything but blanks and parentheses. -/
def isAtomChar (c : Char) : Bool := !(Text.isBlank c || c == '(' || c == ')')

/-- The tokens of a text from left to right, an atom being as long as possible. Each comes with the
text that starts with it. -/
def tokens (text : List Char) : List (Token × List Char) :=
  match text with
  | [] => []
  | c :: rest =>
      if Text.isBlank c then tokens rest
      else if c = '(' then (.opening, text) :: tokens rest
      else if c = ')' then (.closing, text) :: tokens rest
      else (.atom (c :: rest.takeWhile isAtomChar), text) :: tokens (rest.dropWhile isAtomChar)
termination_by text.length
decreasing_by
  all_goals
    have := (List.dropWhile_sublist isAtomChar (l := rest)).length_le
    simp only [List.length_cons]
    omega

end ChartParser.Treebank
