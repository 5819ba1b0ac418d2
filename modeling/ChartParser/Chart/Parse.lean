import ChartParser.Chart.Fill
import ChartParser.Tree.Basic

/-! The most probable tree of an input, rebuilt from the preferred derivations of a filled chart. -/

namespace ChartParser

/-- A tree over an input with its probability. -/
structure Parse where
  tree : Tree String String
  prob : Binary64
deriving DecidableEq

namespace Chart

/-- The tree of a symbol over a span by the preferred derivations, if the bound on its height
allows it. A derivation over two symbols covers two narrower spans, so the width of a span bounds
the height of its trees. -/
def treeWithin (chart : Chart) (tokens : List String) :
    Nat → Span → String → Option (Tree String String)
  | 0, _, _ => none
  | bound + 1, s, symbol =>
      match Derivation.best? (chart.derivations s symbol) with
      | none => none
      | some (.leaf _) => do
          let word ← tokens[s.start]?
          some (.branch ⟨symbol, s⟩ [.leaf ⟨word, s⟩])
      | some (.branch split left right _) => do
          let leftTree ← treeWithin chart tokens bound ⟨s.start, split⟩ left
          let rightTree ← treeWithin chart tokens bound ⟨split, s.stop⟩ right
          some (.branch ⟨symbol, s⟩ [leftTree, rightTree])

/-- The most probable parse of a symbol over a span of the tokens the chart was filled from. -/
def bestParse (chart : Chart) (tokens : List String) (s : Span) (symbol : String) :
    Option Parse :=
  if chart.length ≠ tokens.length then none
  else do
    let prob ← chart.bestProb? s symbol
    let tree ← chart.treeWithin tokens s.width s symbol
    some ⟨tree, prob⟩

/-- Looks for the most probable parse and reports if the chart is not one of these tokens. -/
def bestParseLogged (chart : Chart) (tokens : List String) (s : Span) (symbol : String) :
    Logged (Option Parse) :=
  ⟨chart.bestParse tokens s symbol,
    if chart.length ≠ tokens.length then [.chartMismatch chart.length tokens.length] else []⟩

end Chart

namespace Grammar

/-- The most probable parse of an input from the start symbol. -/
def parse (g : Grammar) (tokens : List String) : Option Parse :=
  let chart := g.fill tokens
  if chart.accepts g.start then chart.bestParse tokens chart.fullSpan g.start else none

/-- Parses an input and reports on the filling of its chart. -/
def parseLogged (g : Grammar) (tokens : List String) : Logged (Option Parse) :=
  ⟨g.parse tokens, g.fillEvents tokens⟩

end Grammar

end ChartParser
