import ChartParser.Chart.Table
import ChartParser.Grammar.Basic

/-! Filling a chart from a grammar and the tokens of an input. Spans are filled by width, so both
halves of every split are final before they are read. -/

namespace ChartParser

namespace Grammar

/-- The derivations of a single word, one for each of its lexical rules. -/
def lexicalDerivations (g : Grammar) (word : String) : List (String × Derivation) :=
  (g.lexicalRules word).map fun entry => (entry.head, .leaf entry.prob)

/-- The derivations of a span from a left symbol up to a split and the symbols right of it, by the
rules of the left symbol. The probability of a derivation is that of its rule times the best of the
left part, and that times the best of the right part. -/
def derivationsFrom (g : Grammar) (split : Nat) (rightCell : Cell) (left : String)
    (leftProb : Binary64) : List (String × Derivation) :=
  (g.binaryRules left).filterMap fun entry =>
    (rightCell.bestProb? entry.right).map fun rightProb =>
      (entry.head, .branch split left entry.right (entry.prob * leftProb * rightProb))

/-- The derivations of a span of at least two tokens, by split, then left symbol, then rule. -/
def binaryDerivations (g : Grammar) (chart : Chart) (s : Span) : List (String × Derivation) :=
  (List.range' (s.start + 1) (s.width - 1)).flatMap fun split =>
    let rightCell := chart.cell ⟨split, s.stop⟩
    (chart.cell ⟨s.start, split⟩).bestProbs.flatMap fun (left, leftProb) =>
      g.derivationsFrom split rightCell left leftProb

/-- The derivations of a span, given a chart in which the cells of all narrower spans are final. -/
def derivationsOver (g : Grammar) (tokens : List String) (chart : Chart) (s : Span) :
    List (String × Derivation) :=
  if s.width = 1 then (tokens[s.start]?.map g.lexicalDerivations).getD []
  else g.binaryDerivations chart s

/-- Fills the cell of one span. -/
def fillSpan (g : Grammar) (tokens : List String) (chart : Chart) (s : Span) : Chart :=
  chart.set s (.ofDerivations (g.derivationsOver tokens chart s))

/-- The filled chart of an input. -/
def fill (g : Grammar) (tokens : List String) : Chart :=
  (Span.all tokens.length).foldl (g.fillSpan tokens) (.empty tokens.length)

/-- The events reported while a chart is filled: the tokens without a lexical rule, then every
width from two on. -/
def fillEvents (g : Grammar) (tokens : List String) : List Event :=
  (tokens.zipIdx.filterMap fun (word, position) =>
    if (g.lexicalRules word).isEmpty then some (.unknownToken position word) else none) ++
    (List.range' 2 (tokens.length - 1)).map .spansFilled

/-- Fills a chart and reports on it. -/
def fillLogged (g : Grammar) (tokens : List String) : Logged Chart :=
  ⟨g.fill tokens, g.fillEvents tokens⟩

end Grammar

end ChartParser
