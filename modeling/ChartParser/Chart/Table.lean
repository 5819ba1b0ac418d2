import ChartParser.Chart.Cell
import ChartParser.Span

/-! Charts: one cell for every span of an input, laid out as a triangle. The cells of the spans
that end at one position follow each other, so a span has its place whatever the input's length. -/

namespace ChartParser

namespace Span

/-- The place of a span in a triangle: behind the spans that end earlier, by its start. -/
def place (s : Span) : Nat := s.stop * (s.stop - 1) / 2 + s.start

theorem place_lt {s : Span} {length : Nat} (h : s.start < s.stop) (h' : s.stop ≤ length) :
    s.place < length * (length + 1) / 2 := by
  obtain ⟨m, hm⟩ : ∃ m, s.stop = m + 1 := ⟨s.stop - 1, by omega⟩
  have h₁ : s.place < (m + 1) * m / 2 + (m + 1) := by
    simp only [place, hm, Nat.add_sub_cancel]
    omega
  have h₂ : (m + 1) * m / 2 + (m + 1) = (m + 1) * (m + 2) / 2 := by
    rw [← Nat.add_mul_div_right _ _ (by decide : 0 < 2), ← Nat.mul_add]
  have h₃ : (m + 1) * (m + 2) ≤ length * (length + 1) :=
    Nat.mul_le_mul (by omega) (by omega)
  have h₄ := Nat.div_le_div_right (c := 2) h₃
  omega

/-- All spans of an input of a given length, by width and then by start. -/
def all (length : Nat) : List Span :=
  (List.range length).flatMap fun i =>
    (List.range (length - i)).map fun start => ⟨start, start + i + 1⟩

end Span

/-- A cell for every span of an input of a given length. -/
structure Chart where
  length : Nat
  cells : Vector Cell (length * (length + 1) / 2)

namespace Chart

/-- The chart whose cells are all empty. -/
def empty (length : Nat) : Chart := ⟨length, Vector.replicate _ ∅⟩

/-- The span of the whole input. -/
def fullSpan (chart : Chart) : Span := ⟨0, chart.length⟩

/-- The place of a span, if it is a span of the input and not empty. -/
def index? (length : Nat) (s : Span) : Option (Fin (length * (length + 1) / 2)) :=
  if h : s.start < s.stop ∧ s.stop ≤ length then some ⟨s.place, Span.place_lt h.1 h.2⟩ else none

/-- The cell of a span; nothing is derivable over what is no span of the input. -/
def cell (chart : Chart) (s : Span) : Cell :=
  match index? chart.length s with
  | some i => chart.cells[i]
  | none => ∅

/-- Replaces the cell of a span of the input. -/
def set (chart : Chart) (s : Span) (cell : Cell) : Chart :=
  match index? chart.length s with
  | some i => { chart with cells := chart.cells.set i cell }
  | none => chart

/-- The symbols derivable over a span, in ascending order. -/
def derivable (chart : Chart) (s : Span) : List String := (chart.cell s).symbols

def isDerivable (chart : Chart) (s : Span) (symbol : String) : Bool :=
  (chart.cell s).contains symbol

/-- The recorded derivations of a symbol over a span. -/
def derivations (chart : Chart) (s : Span) (symbol : String) : List Derivation :=
  (chart.cell s).derivations symbol

/-- The probability of the best derivation of a symbol over a span. -/
def bestProb? (chart : Chart) (s : Span) (symbol : String) : Option Binary64 :=
  (chart.cell s).bestProb? symbol

/-- Whether a symbol derives the whole input, which is never empty then. -/
def accepts (chart : Chart) (symbol : String) : Bool := chart.isDerivable chart.fullSpan symbol

/-- The text of the cell of a span: a heading and a line for each derivation, or nothing if the
cell is empty. -/
def renderCell (chart : Chart) (s : Span) : List Char :=
  if (chart.derivable s).isEmpty then []
  else
    "Span ".toList ++ Nat.toDigits 10 s.start ++ ['.', '.'] ++ Nat.toDigits 10 s.stop ++
      [':', '\n'] ++
      (chart.derivable s).flatMap fun symbol =>
        (chart.derivations s symbol).flatMap fun d =>
          ' ' :: ' ' :: symbol.toList ++ " -> ".toList ++ d.render ++ ['\n']

/-- The text of all cells that are not empty. -/
def render (chart : Chart) : List Char := (Span.all chart.length).flatMap chart.renderCell

instance : ToString Chart := ⟨fun chart => String.ofList chart.render⟩

end Chart

end ChartParser
