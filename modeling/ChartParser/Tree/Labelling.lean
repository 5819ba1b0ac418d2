import ChartParser.Tree.Basic

/-! Labels that carry the label of their parent, joined by a caret, and the way back to the bare
labels. -/

namespace ChartParser

/-- Whether labels stand bare or carry the label of their parent. -/
inductive Labelling where
  | bare
  | parent
deriving DecidableEq

namespace Labelling

/-- The label of a node under a parent with a given bare label. A root has no parent and keeps its
label. -/
def label (labelling : Labelling) (parent? : Option String) (bare : String) : String :=
  match labelling, parent? with
  | parent, some above => bare ++ "^" ++ above
  | _, _ => bare

/-- The part of a label before its first caret. A label that starts with a caret is its own bare
label. -/
def bareLabel (label : String) : String :=
  match label.toList.takeWhile (· ≠ '^') with
  | [] => label
  | base => String.ofList base

end Labelling

/-- The tree with the bare labels of its constituents. -/
def Tree.withBareLabels (t : Tree String String) : Tree String String :=
  t.map (fun label => Labelling.bareLabel label.value) (·.value)

end ChartParser
