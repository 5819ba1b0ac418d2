import ChartParser.Chart.Derivation

/-! Cells: the symbols derivable over one span with their derivations. Beside its derivations a
symbol keeps the probability of the best one, which is all that larger spans ask for. -/

namespace ChartParser

open Std (ExtTreeMap)

/-- The derivations of one symbol in the order they were recorded, and the best probability. -/
structure Entry where
  derivations : List Derivation
  best : Binary64
deriving DecidableEq

namespace Entry

def single (d : Derivation) : Entry := ⟨[d], d.prob⟩

/-- Records another derivation, unless an equal one is there. -/
def record (e : Entry) (d : Derivation) : Entry :=
  if e.derivations.any (·.equal d) then e else ⟨e.derivations ++ [d], e.best.max d.prob⟩

end Entry

/-- The symbols derivable over one span. A symbol has an entry once a derivation is recorded. -/
structure Cell where
  entries : ExtTreeMap String Entry
deriving DecidableEq

namespace Cell

def empty : Cell := ⟨∅⟩

instance : EmptyCollection Cell := ⟨empty⟩

/-- Records a derivation of a symbol. -/
def record (cell : Cell) (symbol : String) (d : Derivation) : Cell :=
  ⟨cell.entries.alter symbol fun
    | none => some (.single d)
    | some e => some (e.record d)⟩

/-- The cell of a row of derivations, recorded in order. -/
def ofDerivations (ds : List (String × Derivation)) : Cell :=
  ds.foldl (fun cell d => cell.record d.1 d.2) empty

/-- The derivable symbols in ascending order. -/
def symbols (cell : Cell) : List String := cell.entries.keys

def contains (cell : Cell) (symbol : String) : Bool := cell.entries.contains symbol

/-- The recorded derivations of a symbol. -/
def derivations (cell : Cell) (symbol : String) : List Derivation :=
  (cell.entries[symbol]?.map Entry.derivations).getD []

/-- The probability of the best derivation of a symbol. -/
def bestProb? (cell : Cell) (symbol : String) : Option Binary64 :=
  cell.entries[symbol]?.map Entry.best

/-- Every derivable symbol with its best probability, in ascending order. -/
def bestProbs (cell : Cell) : List (String × Binary64) :=
  cell.entries.toList.map fun entry => (entry.1, entry.2.best)

end Cell

end ChartParser
