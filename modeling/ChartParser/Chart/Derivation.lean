import ChartParser.Binary64.Order
import ChartParser.Binary64.Shortest
import Std.Data.ExtTreeMap

/-! Derivations of a symbol over a span, and the preference among them. The preferred derivation is
the most probable one; the choice among equals is by position and labels, never by the order in
which the derivations were found. -/

namespace ChartParser

/-- How a symbol is derived over a span: from the word there, or from two symbols that meet at a
split. -/
inductive Derivation where
  | leaf (prob : Binary64)
  | branch (split : Nat) (left right : String) (prob : Binary64)
deriving DecidableEq

namespace Derivation

def prob : Derivation → Binary64
  | leaf p => p
  | branch _ _ _ p => p

def split : Derivation → Nat
  | leaf _ => 0
  | branch k _ _ _ => k

def left : Derivation → String
  | leaf _ => ""
  | branch _ l _ _ => l

def right : Derivation → String
  | leaf _ => ""
  | branch _ _ r _ => r

/-- Equality of derivations whose probabilities are compared as numbers. -/
def equal : Derivation → Derivation → Bool
  | leaf p, leaf q => p.equal q
  | branch k l r p, branch k' l' r' q => k == k' && l == l' && r == r' && p.equal q
  | _, _ => false

/-- The order by split, then left symbol, then right symbol, a leaf counting as split zero between
empty symbols. -/
def comparePlace : Derivation → Derivation → Ordering :=
  compareLex (compareOn split) (compareLex (compareOn left) (compareOn right))

/-- The order in which the best derivation is the greatest: by probability, and among equally
probable ones the lesser place is the better. -/
def preference (d e : Derivation) : Ordering :=
  (d.prob.totalCompare e.prob).then (comparePlace e d)

/-- The later of two derivations unless the earlier one is preferred to it. -/
def better (d e : Derivation) : Derivation := if preference d e = .gt then d else e

/-- The derivation to which no other is preferred, the last of those. -/
def best? : List Derivation → Option Derivation
  | [] => none
  | d :: ds => some (ds.foldl better d)

/-- The highest probability. -/
def bestProb? : List Derivation → Option Binary64
  | [] => none
  | d :: ds => some (ds.foldl (fun p e => p.max e.prob) d.prob)

/-- The written form: the kind of the derivation and its probability in brackets. -/
def render : Derivation → List Char
  | leaf p => "leaf [".toList ++ p.render ++ [']']
  | branch k l r p =>
      l.toList ++ ' ' :: r.toList ++ ' ' :: '@' :: Nat.toDigits 10 k ++ ' ' :: '[' :: p.render ++
        [']']

instance : ToString Derivation := ⟨fun d => String.ofList d.render⟩

end Derivation

end ChartParser
