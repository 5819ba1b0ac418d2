import ChartParser.Chart.Parse
import ChartParser.Proofs.Chart.Best
import ChartParser.Proofs.Grammar.Trees

/-! # The tree of a filled chart

Following the preferred derivations of a filled chart never gets stuck. The tree that it rebuilds
belongs to the grammar, its spans fit together, and its value is the best probability of the cell
where it started. -/

namespace ChartParser

namespace Grammar

/-- A tree of a symbol over a span of the tokens, with its value. -/
structure ParsesOver (g : Grammar) (tokens : List String) (s : Span) (symbol : String)
    (t : Tree String String) (v : Binary64) : Prop where
  root : ∃ children, t = .branch ⟨symbol, s⟩ children
  covers : t.Covers s
  licensed : g.Licenses t v
  leaves_eq : t.leaves = s.slice tokens

namespace ParsesOver

variable {g : Grammar} {tokens : List String}

theorem lexical {i : Nat} {word symbol : String} {p : Binary64} (htoken : tokens[i]? = some word)
    (hrule : Rule.lexical symbol word p ∈ g.rules) :
    g.ParsesOver tokens ⟨i, i + 1⟩ symbol
      (.branch ⟨symbol, ⟨i, i + 1⟩⟩ [.leaf ⟨word, ⟨i, i + 1⟩⟩]) p where
  root := ⟨_, rfl⟩
  covers := .lexical
  licensed := .lexical hrule
  leaves_eq := by rw [Tree.leaves_lexical, Span.slice_token htoken]

theorem binary {start split stop : Nat} {symbol left right : String} {prob p q : Binary64}
    {t u : Tree String String} (hstart : start < split) (hstop : split < stop)
    (hrule : Rule.binary symbol left right prob ∈ g.rules)
    (ht : g.ParsesOver tokens ⟨start, split⟩ left t p)
    (hu : g.ParsesOver tokens ⟨split, stop⟩ right u q) :
    g.ParsesOver tokens ⟨start, stop⟩ symbol (.branch ⟨symbol, ⟨start, stop⟩⟩ [t, u])
      (prob * p * q) := by
  obtain ⟨ts, rfl⟩ := ht.root
  obtain ⟨us, rfl⟩ := hu.root
  refine ⟨⟨_, rfl⟩, .binary hstart hstop ht.covers hu.covers, ?_, ?_⟩
  · exact .binary hrule ht.licensed hu.licensed
  · rw [Tree.leaves_binary, ht.leaves_eq, hu.leaves_eq,
      Span.slice_append (Nat.le_of_lt hstart) (Nat.le_of_lt hstop)]

theorem derives {s : Span} {symbol : String} {t : Tree String String} {v : Binary64}
    (h : g.ParsesOver tokens s symbol t v) : g.Derives symbol (s.slice tokens) t v := by
  obtain ⟨children, rfl⟩ := h.root
  exact ⟨h.licensed, rfl, h.leaves_eq⟩

end ParsesOver

variable (g : Grammar) (tokens : List String)

/-- A tree is found for every derivable symbol, and its value is the best probability. The width of
a span bounds the depth of the search, as both parts of a derivation are narrower. -/
theorem exists_treeWithin {bound : Nat} {s : Span} {symbol : String} {p : Binary64}
    (hbound : s.width ≤ bound) (h : (g.fill tokens).bestProb? s symbol = some p) :
    ∃ t, (g.fill tokens).treeWithin tokens bound s symbol = some t ∧
      g.ParsesOver tokens s symbol t p := by
  induction bound generalizing s symbol p with
  | zero =>
      have hs := (within_of_bestProb?_fill g tokens h).1
      unfold Span.width at hbound
      omega
  | succ bound ih =>
      obtain ⟨d, hbest, hd, rfl⟩ := exists_best?_fill g tokens h
      cases hd with
      | leaf token rule =>
          exact ⟨_, by simp [Chart.treeWithin, hbest, token], .lexical token rule⟩
      | branch rule first second =>
          have hstart := lt_of_bestProb?_fill g tokens first
          have hstop := lt_of_bestProb?_fill g tokens second
          obtain ⟨hleft, hright⟩ := Span.width_lt_of_split hstart hstop
          obtain ⟨t, ht, htree⟩ := ih (by omega) first
          obtain ⟨u, hu, hutree⟩ := ih (by omega) second
          refine ⟨_, ?_, .binary hstart hstop rule htree hutree⟩
          simp [Chart.treeWithin, hbest, ht, hu]

/-- The best parse of a derivable symbol. -/
theorem exists_bestParse {s : Span} {symbol : String} {p : Binary64}
    (h : (g.fill tokens).bestProb? s symbol = some p) :
    ∃ t, (g.fill tokens).bestParse tokens s symbol = some ⟨t, p⟩ ∧
      g.ParsesOver tokens s symbol t p := by
  obtain ⟨t, ht, htree⟩ := exists_treeWithin g tokens (Nat.le_refl s.width) h
  exact ⟨t, by simp [Chart.bestParse, h, ht], htree⟩

theorem bestParse_eq_none {s : Span} {symbol : String}
    (h : (g.fill tokens).bestProb? s symbol = none) :
    (g.fill tokens).bestParse tokens s symbol = none := by
  simp [Chart.bestParse, h]

/-- There is a best parse exactly for the derivable symbols. Its root has the symbol and the span,
its spans fit together, its branches apply rules, its leaves are the tokens of the span, its height
is at most the width of the span, and its probability is the one value of the tree. -/
theorem bestParse_spec (g : Grammar) (tokens : List String) (s : Span) (symbol : String) :
    let chart := g.fill tokens
    ((chart.bestParse tokens s symbol).isSome ↔ chart.isDerivable s symbol = true) ∧
    ∀ parse, chart.bestParse tokens s symbol = some parse →
      (∃ children, parse.tree = .branch ⟨symbol, s⟩ children) ∧
      parse.tree.Covers s ∧
      parse.tree.leaves = s.slice tokens ∧
      parse.tree.height ≤ s.width ∧
      ∀ v, g.Licenses parse.tree v ↔ v = parse.prob := by
  cases hp : (g.fill tokens).bestProb? s symbol with
  | none => simp [bestParse_eq_none g tokens hp, isDerivable_fill_iff, hp]
  | some p =>
      obtain ⟨t, hparse, htree⟩ := exists_bestParse g tokens hp
      refine ⟨by simp [hparse, isDerivable_fill_iff, hp], ?_⟩
      intro parse h
      obtain rfl : ⟨t, p⟩ = parse := Option.some.inj (hparse.symm.trans h)
      refine ⟨htree.root, htree.covers, htree.leaves_eq, ?_, ?_⟩
      · have hheight := htree.licensed.height_le_length_leaves
        rwa [htree.leaves_eq, Span.length_slice (within_of_bestProb?_fill g tokens hp)] at hheight
      · intro v
        constructor
        · exact fun hv => hv.unique htree.licensed
        · rintro rfl
          exact htree.licensed

end Grammar

end ChartParser
