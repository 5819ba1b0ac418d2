import ChartParser.Span

/-! Syntax trees: words at the leaves and labelled constituents above them, each with its span. -/

namespace ChartParser

/-- A syntax tree. A leaf is a word and a branch is a constituent over its children. -/
inductive Tree (L W : Type) where
  | leaf (word : Spanned W)
  | branch (label : Spanned L) (children : List (Tree L W))

namespace Tree

variable {L W V X : Type}

def isLeaf : Tree L W → Bool
  | leaf _ => true
  | branch .. => false

def isBranch : Tree L W → Bool
  | leaf _ => false
  | branch .. => true

/-- The span of the root. -/
def span : Tree L W → Span
  | leaf word => word.span
  | branch label _ => label.span

mutual

/-- The words of a tree from left to right. -/
def leaves : Tree L W → List W
  | leaf word => [word.value]
  | branch _ children => leavesAll children

/-- The words of a row of trees from left to right. -/
def leavesAll : List (Tree L W) → List W
  | [] => []
  | t :: ts => leaves t ++ leavesAll ts

end

mutual

/-- The number of constituents on the longest way from the root down. -/
def height : Tree L W → Nat
  | leaf _ => 0
  | branch _ children => heightAll children + 1

/-- The height of the highest of a row of trees. -/
def heightAll : List (Tree L W) → Nat
  | [] => 0
  | t :: ts => max (height t) (heightAll ts)

end

mutual

/-- The tree of the same form and spans whose labels and words are made from the old ones. -/
def map (f : Spanned L → V) (g : Spanned W → X) : Tree L W → Tree V X
  | leaf word => leaf ⟨g word, word.span⟩
  | branch label children => branch ⟨f label, label.span⟩ (mapAll f g children)

/-- The image of every tree of a row. -/
def mapAll (f : Spanned L → V) (g : Spanned W → X) : List (Tree L W) → List (Tree V X)
  | [] => []
  | t :: ts => map f g t :: mapAll f g ts

end

mutual

/-- Trees are compared node by node. -/
def decEq [DecidableEq L] [DecidableEq W] : (s t : Tree L W) → Decidable (s = t)
  | leaf v, leaf w => decidable_of_iff (v = w) (by simp)
  | leaf _, branch .. => isFalse (by simp)
  | branch .., leaf _ => isFalse (by simp)
  | branch k ss, branch l ts =>
      match decEqAll ss ts with
      | isTrue h => decidable_of_iff (k = l) (by simp [h])
      | isFalse h => isFalse (by simp [h])

/-- Rows of trees are compared tree by tree. -/
def decEqAll [DecidableEq L] [DecidableEq W] : (ss ts : List (Tree L W)) → Decidable (ss = ts)
  | [], [] => isTrue rfl
  | [], _ :: _ => isFalse (by simp)
  | _ :: _, [] => isFalse (by simp)
  | s :: ss, t :: ts =>
      match decEq s t, decEqAll ss ts with
      | isTrue h, isTrue h' => isTrue (by rw [h, h'])
      | isFalse h, _ => isFalse (by simp [h])
      | _, isFalse h => isFalse (by simp [h])

end

instance [DecidableEq L] [DecidableEq W] : DecidableEq (Tree L W) := decEq

end Tree

end ChartParser
