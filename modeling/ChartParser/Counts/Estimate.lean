import ChartParser.Counts.Basic
import ChartParser.Grammar.Basic

/-! Grammars estimated from counts by relative frequency: a rule is as probable as its production
is frequent among those with the same head. -/

namespace ChartParser

namespace RuleCounts

/-- The more frequent of two counted labels, the first if they are equally frequent. -/
def moreFrequent (a b : String × Nat) : String × Nat := if a.2 < b.2 then b else a

/-- The most frequent root label, the least one of equally frequent labels. -/
def start? (counts : RuleCounts) : Option String :=
  match counts.roots.toList with
  | [] => none
  | root :: roots => some (roots.foldl moreFrequent root).1

/-- The counted productions in ascending order, each with its relative frequency. -/
def rules (counts : RuleCounts) : List Rule :=
  counts.productions.toList.map fun (p, n) =>
    ⟨p, Binary64.ofNat n / Binary64.ofNat (counts.heads[p.head]?.getD n)⟩

/-- The grammar that the counts suggest. -/
def toGrammar (counts : RuleCounts) : Except GrammarError Grammar :=
  match counts.start? with
  | none => .error .noStartSymbol
  | some start => Grammar.ofRules counts.rules start

/-- Makes the grammar that the counts suggest and reports on it. -/
def toGrammarLogged (counts : RuleCounts) : Logged (Except GrammarError Grammar) :=
  match counts.start? with
  | none => ⟨.error .noStartSymbol, []⟩
  | some start => do
      Logged.report (.grammarEstimated counts.trees counts.rules.length start)
      Grammar.ofRulesLogged counts.rules start

end RuleCounts

/-- Why no grammar can be estimated from a treebank. -/
inductive EstimateError where
  | uncountable (fault : CountFault)
  | invalid (error : GrammarError)
deriving DecidableEq

def EstimateError.message : EstimateError → String
  | uncountable fault => fault.message
  | invalid error => error.message

/-- The grammar of a treebank. -/
def Grammar.estimate (labelling : Labelling) (trees : List (Tree String String)) :
    Except EstimateError Grammar :=
  match RuleCounts.empty.countTrees labelling trees with
  | .error fault => .error (.uncountable fault)
  | .ok counts => counts.toGrammar.mapError .invalid

/-- Estimates the grammar of a treebank and reports on it. -/
def Grammar.estimateLogged (labelling : Labelling) (trees : List (Tree String String)) :
    Logged (Except EstimateError Grammar) :=
  match RuleCounts.empty.countTrees labelling trees with
  | .error fault => pure (.error (.uncountable fault))
  | .ok counts => do
      let g ← counts.toGrammarLogged
      pure (g.mapError .invalid)

end ChartParser
