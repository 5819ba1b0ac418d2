/-! Lines of a text or of a byte sequence. A line is first taken with its line end, so that
nothing is lost, and the line end is removed by a rule of its own. -/

namespace ChartParser.Text

variable {α : Type} [DecidableEq α]

/-- Puts one more element in front of the lines after it; a line end closes a line. -/
def extendPieces (lineEnd c : α) : List (List α) → List (List α)
  | [] => [[c]]
  | piece :: rest => if c = lineEnd then [c] :: piece :: rest else (c :: piece) :: rest

/-- The lines of a sequence, each with its line end; only the last may lack one. -/
def pieces (lineEnd : α) (s : List α) : List (List α) :=
  s.foldr (extendPieces lineEnd) []

theorem flatten_extendPieces (lineEnd c : α) (ps : List (List α)) :
    (extendPieces lineEnd c ps).flatten = c :: ps.flatten := by
  cases ps with
  | nil => rfl
  | cons piece rest => by_cases h : c = lineEnd <;> simp [extendPieces, h]

/-- The pieces put together are the whole sequence. -/
theorem flatten_pieces (lineEnd : α) (s : List α) : (pieces lineEnd s).flatten = s := by
  induction s with
  | nil => rfl
  | cons c s ih => simpa [pieces, flatten_extendPieces] using ih

/-- A line of text without its line end: a line feed, with a carriage return before it. A carriage
return that no line feed follows belongs to the line. -/
def withoutLineEnd (piece : List Char) : List Char :=
  match piece.reverse with
  | '\n' :: '\r' :: line => line.reverse
  | '\n' :: line => line.reverse
  | _ => piece

/-- The lines of a text without their line ends. -/
def lines (s : List Char) : List (List Char) :=
  (pieces '\n' s).map withoutLineEnd

end ChartParser.Text
