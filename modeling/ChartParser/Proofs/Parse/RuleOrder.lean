import ChartParser.Proofs.Grammar.Faultless
import ChartParser.Proofs.Parse.Completeness
import Mathlib.Data.List.Sort

/-! # Independence of the order of rules

Grammars with the same rules in another order list the derivations of a cell in another order. They
agree on the members of every cell, and by induction on the width of spans on its best probability;
the preferred derivation depends on no more than that, so both charts give the same trees. -/

namespace ChartParser

namespace Grammar

section Fill

variable (g : Grammar) (tokens : List String)

/-- No two derivations of a symbol over a span have one place. -/
theorem pairwise_derivations_fill (s : Span) (symbol : String) :
    ((g.fill tokens).derivations s symbol).Pairwise fun d e => ¬d.SamePlace e := by
  by_cases h : s.Within tokens.length
  · rw [derivations_fill g tokens h]
    exact g.pairwise_row tokens _ s symbol
  · simp [derivations_fill_of_not_within g tokens h]

theorem mem_derivable_fill {s : Span} {symbol : String} :
    symbol ∈ (g.fill tokens).derivable s ↔
      ∃ p, (g.fill tokens).bestProb? s symbol = some p := by
  rw [Chart.derivable, Cell.mem_symbols]
  exact isDerivable_fill_iff g tokens

end Fill

/-! ### Grammars with the same rules -/

section SameRules

variable {g g' : Grammar} (hrules : ∀ r, r ∈ g.rules ↔ r ∈ g'.rules) (tokens : List String)

include hrules

/-- A derivation of one chart is one of the other, if both agree on all narrower spans. -/
theorem mem_derivations_fill_of_narrower {s : Span} {symbol : String} {d : Derivation}
    (hnarrow : ∀ t : Span, t.width < s.width → ∀ symbol,
      (g.fill tokens).bestProb? t symbol = (g'.fill tokens).bestProb? t symbol)
    (hd : d ∈ (g.fill tokens).derivations s symbol) :
    d ∈ (g'.fill tokens).derivations s symbol := by
  rw [mem_derivations_fill] at hd ⊢
  cases hd with
  | leaf token rule => exact .leaf token ((hrules _).mp rule)
  | branch rule first second =>
      have hstart := lt_of_bestProb?_fill g tokens first
      have hstop := lt_of_bestProb?_fill g tokens second
      obtain ⟨hleft, hright⟩ := Span.width_lt_of_split hstart hstop
      exact .branch ((hrules _).mp rule) ((hnarrow _ hleft _).symm.trans first)
        ((hnarrow _ hright _).symm.trans second)

/-- The best probabilities of both charts agree. A span takes them from narrower spans only, so the
induction is on the width. -/
theorem bestProb?_fill_congr (s : Span) (symbol : String) :
    (g.fill tokens).bestProb? s symbol = (g'.fill tokens).bestProb? s symbol := by
  generalize hwidth : s.width = width
  induction width using Nat.strongRecOn generalizing s symbol with
  | _ width ih =>
      have hnarrow : ∀ t : Span, t.width < s.width → ∀ symbol,
          (g.fill tokens).bestProb? t symbol = (g'.fill tokens).bestProb? t symbol :=
        fun t ht symbol => ih t.width (hwidth ▸ ht) t symbol rfl
      have hmem : ∀ d, d ∈ (g.fill tokens).derivations s symbol ↔
          d ∈ (g'.fill tokens).derivations s symbol := by
        intro d
        constructor
        · exact mem_derivations_fill_of_narrower hrules tokens hnarrow
        · exact mem_derivations_fill_of_narrower (fun r => (hrules r).symm) tokens
            fun t ht symbol => (hnarrow t ht symbol).symm
      rw [bestProb?_fill, bestProb?_fill]
      exact Derivation.bestProb?_congr hmem fun d hd => inUnit_of_mem_derivations_fill g tokens hd

theorem mem_derivations_fill_congr {s : Span} {symbol : String} {d : Derivation} :
    d ∈ (g.fill tokens).derivations s symbol ↔ d ∈ (g'.fill tokens).derivations s symbol := by
  constructor
  · exact mem_derivations_fill_of_narrower hrules tokens fun t _ symbol =>
      bestProb?_fill_congr hrules tokens t symbol
  · exact mem_derivations_fill_of_narrower (fun r => (hrules r).symm) tokens fun t _ symbol =>
      (bestProb?_fill_congr hrules tokens t symbol).symm

theorem best?_derivations_fill_congr (s : Span) (symbol : String) :
    Derivation.best? ((g.fill tokens).derivations s symbol) =
      Derivation.best? ((g'.fill tokens).derivations s symbol) :=
  Derivation.best?_congr (fun _ => mem_derivations_fill_congr hrules tokens)
    ((pairwise_derivations_fill g tokens s symbol).imp fun hplace heq =>
      hplace (Derivation.preference_eq_iff.mp heq).2)

theorem derivable_fill_congr (s : Span) :
    (g.fill tokens).derivable s = (g'.fill tokens).derivable s := by
  refine (Cell.pairwise_symbols _).eq_of_mem_iff (Cell.pairwise_symbols _) ?_
  intro symbol
  change symbol ∈ (g.fill tokens).derivable s ↔ symbol ∈ (g'.fill tokens).derivable s
  rw [mem_derivable_fill, mem_derivable_fill, bestProb?_fill_congr hrules tokens]

theorem isDerivable_fill_congr (s : Span) (symbol : String) :
    (g.fill tokens).isDerivable s symbol = (g'.fill tokens).isDerivable s symbol := by
  rw [isDerivable_eq_isSome_bestProb?, isDerivable_eq_isSome_bestProb?,
    bestProb?_fill_congr hrules tokens]

/-- The same preferred derivations are followed in both charts. -/
theorem treeWithin_fill_congr (input : List String) (bound : Nat) (s : Span) (symbol : String) :
    (g.fill tokens).treeWithin input bound s symbol =
      (g'.fill tokens).treeWithin input bound s symbol := by
  induction bound generalizing s symbol with
  | zero => rfl
  | succ bound ih =>
      rw [Chart.treeWithin, Chart.treeWithin, best?_derivations_fill_congr hrules tokens s symbol]
      simp only [ih]

theorem bestParse_fill_congr (input : List String) (s : Span) (symbol : String) :
    (g.fill tokens).bestParse input s symbol = (g'.fill tokens).bestParse input s symbol := by
  rw [Chart.bestParse, Chart.bestParse, length_fill, length_fill,
    bestProb?_fill_congr hrules tokens s symbol,
    treeWithin_fill_congr hrules tokens input s.width s symbol]

theorem parse_congr (hstart : g.start = g'.start) : g.parse tokens = g'.parse tokens := by
  rw [parse_eq, parse_eq, hstart, isDerivable_fill_congr hrules tokens,
    bestParse_fill_congr hrules tokens]

end SameRules

/-- If a rule list makes a grammar, so does every permutation of it. Both charts of an input have
the same derivable symbols with the same best probabilities over every span, the same best parses
of every symbol over every span, and both grammars give the input the same parse or none. -/
theorem parse_perm {rules rules' : List Rule} {start : String} {g : Grammar}
    (hperm : rules.Perm rules') (h : ofRules rules start = .ok g) :
    ∃ g', ofRules rules' start = .ok g' ∧ ∀ tokens,
      (∀ s, (g'.fill tokens).derivable s = (g.fill tokens).derivable s) ∧
      (∀ s symbol,
        (g'.fill tokens).isDerivable s symbol = (g.fill tokens).isDerivable s symbol ∧
        (g'.fill tokens).bestProb? s symbol = (g.fill tokens).bestProb? s symbol ∧
        ∀ input, (g'.fill tokens).bestParse input s symbol =
          (g.fill tokens).bestParse input s symbol) ∧
      g'.parse tokens = g.parse tokens := by
  obtain ⟨g', h'⟩ := exists_ofRules_perm hperm ⟨g, h⟩
  obtain ⟨rfl, rfl⟩ := eq_of_ofRules h
  obtain ⟨rfl, hstart⟩ := eq_of_ofRules h'
  have hrules : ∀ r, r ∈ g'.rules ↔ r ∈ g.rules := fun r => hperm.symm.mem_iff
  refine ⟨g', h', ?_⟩
  intro tokens
  refine ⟨derivable_fill_congr hrules tokens, ?_, parse_congr hrules tokens hstart⟩
  intro s symbol
  exact ⟨isDerivable_fill_congr hrules tokens s symbol, bestProb?_fill_congr hrules tokens s symbol,
    fun input => bestParse_fill_congr hrules tokens input s symbol⟩

/-- Two readings of two words, equally probable and split at one place. -/
def twoReadings : Grammar where
  start := "R"
  rules := [.binary "R" "B" "A" ⟨false, 1021 * Binary64.fractions, by decide⟩,
    .binary "R" "A" "B" ⟨false, 1021 * Binary64.fractions, by decide⟩,
    .lexical "A" "x" .one, .lexical "B" "x" .one]
  index := _
  index_eq := rfl
  start_ne_empty := by decide
  rules_ne_nil := by decide
  faultless := ⟨by decide, by decide, by decide⟩

/-- The reading with the lesser symbols is taken, whether its rule comes last or first. -/
theorem parse_perm_twoReadings :
    twoReadings.rules.Perm twoReadings.rules.reverse ∧
      ofRules twoReadings.rules "R" = .ok twoReadings ∧
      ∃ g', ofRules twoReadings.rules.reverse "R" = .ok g' ∧
        g'.parse ["x", "x"] = twoReadings.parse ["x", "x"] ∧
        (g'.parse ["x", "x"]).map Parse.tree = some (.branch ⟨"R", ⟨0, 2⟩⟩
          [.branch ⟨"A", ⟨0, 1⟩⟩ [.leaf ⟨"x", ⟨0, 1⟩⟩],
            .branch ⟨"B", ⟨1, 2⟩⟩ [.leaf ⟨"x", ⟨1, 2⟩⟩]]) := by
  have hperm : twoReadings.rules.Perm twoReadings.rules.reverse := (List.reverse_perm _).symm
  have h : ofRules twoReadings.rules "R" = .ok twoReadings := ofRules_eq_ok_iff.mpr ⟨rfl, rfl⟩
  obtain ⟨g', h', hsame⟩ := parse_perm hperm h
  have hparse := (hsame ["x", "x"]).2.2
  refine ⟨hperm, h, g', h', hparse, ?_⟩
  rw [hparse]
  decide +kernel

end Grammar

end ChartParser
