import ChartParser.Proofs.Chart.Content
import ChartParser.Proofs.Grammar.Trees

/-! # Best derivations of the filled chart

All probabilities of a filled chart lie between positive zero and one. There the probability that a
cell keeps, the highest one of its derivations and that of the preferred derivation are the same
number. -/

namespace ChartParser

namespace Grammar

variable (g : Grammar) (tokens : List String)

theorem isDerivable_eq_isSome_bestProb? (chart : Chart) (s : Span) (symbol : String) :
    chart.isDerivable s symbol = (chart.bestProb? s symbol).isSome :=
  Cell.contains_eq_isSome_bestProb? _ _

theorem isDerivable_fill_iff {s : Span} {symbol : String} :
    (g.fill tokens).isDerivable s symbol = true ↔
      ∃ p, (g.fill tokens).bestProb? s symbol = some p := by
  rw [isDerivable_eq_isSome_bestProb?, Option.isSome_iff_exists]

theorem derivations_fill_ne_nil_iff {s : Span} {symbol : String} :
    (g.fill tokens).derivations s symbol ≠ [] ↔
      ∃ p, (g.fill tokens).bestProb? s symbol = some p := by
  rw [← Option.isSome_iff_exists, bestProb?_fill, ← Option.ne_none_iff_isSome, Ne, Ne,
    Derivation.bestProb?_eq_none]

/-- The best probability of a symbol over a span is that of one of its derivations there. -/
theorem exists_of_bestProb?_fill {s : Span} {symbol : String} {p : Binary64}
    (h : (g.fill tokens).bestProb? s symbol = some p) :
    ∃ d ∈ (g.fill tokens).derivations s symbol, d.prob = p := by
  rw [bestProb?_fill] at h
  exact Derivation.exists_of_bestProb? h

/-- No recorded probability leaves the unit interval, since products of narrower ones do not. -/
theorem inUnit_of_mem_derivations_fill {s : Span} {symbol : String} {d : Derivation}
    (h : d ∈ (g.fill tokens).derivations s symbol) : d.prob.InUnit := by
  generalize hwidth : s.width = width
  induction width using Nat.strongRecOn generalizing s symbol d with
  | _ width ih =>
      have hbest : ∀ {s' : Span} {symbol' : String} {p : Binary64}, s'.width < width →
          (g.fill tokens).bestProb? s' symbol' = some p → p.InUnit := by
        intro s' symbol' p hlt hp
        obtain ⟨d', hd', rfl⟩ := exists_of_bestProb?_fill g tokens hp
        exact ih s'.width hlt hd' rfl
      cases (mem_derivations_fill g tokens).mp h with
      | leaf _ rule => exact (g.faultless.isProbability _ rule).inUnit
      | branch rule first second =>
          have hstart := lt_of_bestProb?_fill g tokens first
          have hstop := lt_of_bestProb?_fill g tokens second
          obtain ⟨hleft, hright⟩ := Span.width_lt_of_split hstart hstop
          have hprob := (g.faultless.isProbability _ rule).inUnit
          have hp := hbest (hwidth ▸ hleft) first
          have hq := hbest (hwidth ▸ hright) second
          exact (hprob.mul hp).mul hq

theorem inUnit_of_bestProb?_fill {s : Span} {symbol : String} {p : Binary64}
    (h : (g.fill tokens).bestProb? s symbol = some p) : p.InUnit := by
  obtain ⟨d, hd, rfl⟩ := exists_of_bestProb?_fill g tokens h
  exact inUnit_of_mem_derivations_fill g tokens hd

/-- No derivation of a symbol over a span is more probable than the best. -/
theorem prob_le_of_bestProb?_fill {s : Span} {symbol : String} {p : Binary64} {d : Derivation}
    (h : (g.fill tokens).bestProb? s symbol = some p)
    (hd : d ∈ (g.fill tokens).derivations s symbol) : d.prob ≤ p := by
  rw [bestProb?_fill] at h
  refine Derivation.prob_le_of_bestProb? ?_ h d hd
  intro e he
  exact (inUnit_of_mem_derivations_fill g tokens he).not_isNaN

/-- The preferred derivation has the best probability. -/
theorem exists_best?_fill {s : Span} {symbol : String} {p : Binary64}
    (h : (g.fill tokens).bestProb? s symbol = some p) :
    ∃ d, Derivation.best? ((g.fill tokens).derivations s symbol) = some d ∧
      g.Justifies tokens (g.fill tokens) s symbol d ∧ d.prob = p := by
  cases hd : Derivation.best? ((g.fill tokens).derivations s symbol) with
  | none =>
      obtain ⟨d, hmem, _⟩ := exists_of_bestProb?_fill g tokens h
      simp [Derivation.best?_eq_none.mp hd] at hmem
  | some d =>
      rw [bestProb?_fill] at h
      refine ⟨d, rfl, (mem_derivations_fill g tokens).mp (Derivation.best?_spec hd).1, ?_⟩
      refine Derivation.prob_eq_of_best? ?_ hd h
      intro e he
      exact inUnit_of_mem_derivations_fill g tokens he

/-- A derivable symbol has derivations, and their probabilities are numbers from positive zero to
one. The probability that the cell keeps, the highest one of the derivations and that of the
preferred derivation are one number. -/
theorem bestProb?_agree (g : Grammar) (tokens : List String) (s : Span) (symbol : String)
    (h : (g.fill tokens).isDerivable s symbol = true) :
    let ds := (g.fill tokens).derivations s symbol
    ds ≠ [] ∧
      (∀ d ∈ ds, d.prob.negative = false ∧ .zero ≤ d.prob ∧ d.prob ≤ .one) ∧
      ∃ best, (g.fill tokens).bestProb? s symbol = some best ∧
        Derivation.bestProb? ds = some best ∧
        (Derivation.best? ds).map Derivation.prob = some best := by
  obtain ⟨best, hbest⟩ := (isDerivable_fill_iff g tokens).mp h
  obtain ⟨d, hd, _, hprob⟩ := exists_best?_fill g tokens hbest
  refine ⟨(derivations_fill_ne_nil_iff g tokens).mpr ⟨best, hbest⟩, ?_, best, hbest, ?_, ?_⟩
  · intro e he
    have hunit := inUnit_of_mem_derivations_fill g tokens he
    exact ⟨hunit.1, hunit.zero_le, hunit.le_one⟩
  · rw [← bestProb?_fill, hbest]
  · rw [hd, Option.map_some, hprob]

/-- Three derivations over three words agree on the value zero. -/
theorem bestProb?_agree_vanishing :
    (vanishing.fill ["x", "x", "x"]).isDerivable ⟨0, 3⟩ "S" = true ∧
      ((vanishing.fill ["x", "x", "x"]).derivations ⟨0, 3⟩ "S").length = 3 ∧
      (∀ d ∈ (vanishing.fill ["x", "x", "x"]).derivations ⟨0, 3⟩ "S",
        d.prob.negative = false ∧ .zero ≤ d.prob ∧ d.prob ≤ .one) ∧
      (vanishing.fill ["x", "x", "x"]).bestProb? ⟨0, 3⟩ "S" = some .zero ∧
      (Derivation.best? ((vanishing.fill ["x", "x", "x"]).derivations ⟨0, 3⟩ "S")).map
        Derivation.prob = some .zero := by
  have h : (vanishing.fill ["x", "x", "x"]).isDerivable ⟨0, 3⟩ "S" = true := by decide +kernel
  have hbest : (vanishing.fill ["x", "x", "x"]).bestProb? ⟨0, 3⟩ "S" = some .zero := by
    decide +kernel
  obtain ⟨_, hprobs, best, hkept, _, hpreferred⟩ :=
    bestProb?_agree vanishing ["x", "x", "x"] ⟨0, 3⟩ "S" h
  obtain rfl : best = .zero := Option.some.inj (hkept.symm.trans hbest)
  exact ⟨h, by decide +kernel, hprobs, hbest, hpreferred⟩

end Grammar

end ChartParser
