/-! Spans of token positions, and values placed at a span. -/

namespace ChartParser

/-- The token positions from `start` up to but not including `stop`. -/
structure Span where
  start : Nat
  stop : Nat
deriving DecidableEq

/-- The number of positions in a span. -/
def Span.width (s : Span) : Nat := s.stop - s.start

/-- A value and the span it covers. -/
structure Spanned (α : Type) where
  value : α
  span : Span
deriving DecidableEq

/-- The bounds of the span and then the value, given by its text. -/
def Spanned.render (x : Spanned String) : List Char :=
  Nat.toDigits 10 x.span.start ++ ['.', '.'] ++ Nat.toDigits 10 x.span.stop ++
    [':', ' '] ++ x.value.toList

end ChartParser
