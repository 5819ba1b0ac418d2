import ChartParser.Proofs.Parse.Completeness

/-! # Optimality of the best probability

The best probability of a symbol over a span is the highest value of its derivation trees there.
The chart keeps one number for exponentially many trees, and this is sound because replacing a part
of a tree by a more probable one never lowers the value of the whole. -/

namespace ChartParser

namespace Grammar

/-- The best probability of a derivable symbol is the value of one of its derivation trees over the
tokens of the span, and no such tree has a higher value. -/
theorem bestProb?_isMaximum (g : Grammar) (tokens : List String) (s : Span) (symbol : String)
    (h : (g.fill tokens).isDerivable s symbol = true) :
    ∃ best, (g.fill tokens).bestProb? s symbol = some best ∧
      (∃ t, g.Derives symbol (s.slice tokens) t best) ∧
      ∀ t v, g.Derives symbol (s.slice tokens) t v → v ≤ best := by
  obtain ⟨best, hbest⟩ := (isDerivable_fill_iff g tokens).mp h
  obtain ⟨t, _, htree⟩ := exists_bestParse g tokens hbest
  refine ⟨best, hbest, ⟨t, htree.derives⟩, ?_⟩
  intro u v hu
  obtain ⟨best', hbest', hle⟩ := exists_bestProb?_of_licenses g tokens hu.licensed
    (within_of_bestProb?_fill g tokens hbest) hu.rootLabel?_eq hu.leaves_eq
  obtain rfl : best = best' := Option.some.inj (hbest.symm.trans hbest')
  exact hle

/-- Three words have two trees, and the recorded probability is the higher of their values. -/
theorem bestProb?_isMaximum_doubling :
    (doubling.fill ["x", "x", "x"]).isDerivable ⟨0, 3⟩ "S" = true ∧
      ∃ best, (doubling.fill ["x", "x", "x"]).bestProb? ⟨0, 3⟩ "S" = some best ∧
        (∃ t, doubling.Derives "S" ["x", "x", "x"] t best) ∧
        ∀ t v, doubling.Derives "S" ["x", "x", "x"] t v → v ≤ best := by
  have h : (doubling.fill ["x", "x", "x"]).isDerivable ⟨0, 3⟩ "S" = true := by decide +kernel
  exact ⟨h, bestProb?_isMaximum doubling ["x", "x", "x"] ⟨0, 3⟩ "S" h⟩

end Grammar

end ChartParser
