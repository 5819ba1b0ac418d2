import ChartParser.Rule
import ChartParser.Tree.Labelling
import Std.Data.ExtTreeMap

/-! How often each production is used in a treebank. A tree is counted as a whole or, if some
constituent is not in Chomsky normal form, not at all. -/

namespace ChartParser

open Std (ExtTreeMap)

/-- Why a tree cannot be counted. -/
inductive CountFault where
  | bareWord
  | notNormalForm (constituent : Spanned String)
deriving DecidableEq

def CountFault.message : CountFault → String
  | bareWord => "tree is a bare word"
  | notNormalForm c =>
      "constituent " ++ c.value ++ " at " ++ c.span.start.repr ++ ".." ++ c.span.stop.repr ++
        " is not in chomsky normal form"

/-- The productions used at the constituents of a tree, under annotated labels. Each constituent
has to have one word or two constituents below it; the first that has not, from the root down and
from left to right, is the fault. -/
def Tree.productions (labelling : Labelling) (parent? : Option String) :
    Tree String String → Except CountFault (List Production)
  | .leaf _ => .error .bareWord
  | .branch label [.leaf word] =>
      .ok [⟨labelling.label parent? label.value, [.terminal word.value]⟩]
  | .branch label [.branch l ls, .branch r rs] => do
      let under := labelling.label (some label.value)
      let left ← productions labelling (some label.value) (.branch l ls)
      let right ← productions labelling (some label.value) (.branch r rs)
      .ok (⟨labelling.label parent? label.value,
        [.nonterminal (under l.value), .nonterminal (under r.value)]⟩ :: (left ++ right))
  | .branch label _ => .error (.notNormalForm label)
termination_by structural t => t

/-- Counts one more of a kind. -/
def tally {α : Type} [Ord α] [Std.TransOrd α] (counts : ExtTreeMap α Nat) (a : α) :
    ExtTreeMap α Nat :=
  counts.alter a fun n? => some (n?.getD 0 + 1)

/-- The uses of each production, of each label as a head, and of each label as a root. -/
structure RuleCounts where
  productions : ExtTreeMap Production Nat
  heads : ExtTreeMap String Nat
  roots : ExtTreeMap String Nat
  trees : Nat
deriving DecidableEq

namespace RuleCounts

/-- No tree counted yet. -/
def empty : RuleCounts := ⟨∅, ∅, ∅, 0⟩

/-- How often a production was used. -/
def count (counts : RuleCounts) (p : Production) : Nat := counts.productions[p]?.getD 0

/-- Counts one use of a production. -/
def countProduction (counts : RuleCounts) (p : Production) : RuleCounts :=
  { counts with
    productions := tally counts.productions p
    heads := tally counts.heads p.head }

/-- Counts a tree. -/
def countTree (counts : RuleCounts) (labelling : Labelling) (t : Tree String String) :
    Except CountFault RuleCounts :=
  match t with
  | .leaf _ => .error .bareWord
  | .branch root _ => do
      let used ← t.productions labelling none
      let counted := used.foldl countProduction counts
      .ok { counted with roots := tally counted.roots root.value, trees := counted.trees + 1 }

/-- Counts trees one after another, up to the first fault. -/
def countTrees (counts : RuleCounts) (labelling : Labelling) (ts : List (Tree String String)) :
    Except CountFault RuleCounts :=
  ts.foldlM (fun counts t => counts.countTree labelling t) counts

end RuleCounts

end ChartParser
