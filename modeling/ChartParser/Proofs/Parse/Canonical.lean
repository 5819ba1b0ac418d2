import ChartParser.Proofs.Parse.Extraction
import ChartParser.Proofs.Tree.Rows
import ChartParser.Tree.Printer

/-! # The canonical best tree

Every constituent of a best parse is itself the best parse of its label over its span. Where several
rules and splits give it that value, it stands at the least of their places. -/

namespace ChartParser

/-- A tree that is found within a bound is found within every greater one. -/
theorem Chart.treeWithin_mono {chart : Chart} {tokens : List String} {bound : Nat} (bound' : Nat)
    {s : Span} {symbol : String} {t : Tree String String} (hbound : bound ≤ bound')
    (h : chart.treeWithin tokens bound s symbol = some t) :
    chart.treeWithin tokens bound' s symbol = some t := by
  induction bound generalizing bound' s symbol t with
  | zero => simp [treeWithin] at h
  | succ bound ih =>
      obtain ⟨bound', rfl⟩ : ∃ n, bound' = n + 1 := ⟨bound' - 1, by omega⟩
      have hle : bound ≤ bound' := by omega
      unfold treeWithin at h ⊢
      cases hd : Derivation.best? (chart.derivations s symbol) with
      | none => simp [hd] at h
      | some d =>
          cases d with
          | leaf p => simpa [hd] using h
          | branch split left right p =>
              simp only [hd, Option.bind_eq_bind, Option.bind_eq_some_iff] at h ⊢
              obtain ⟨first, hfirst, second, hsecond, htree⟩ := h
              exact ⟨first, ih bound' hle hfirst, second, ih bound' hle hsecond, htree⟩

namespace Grammar

variable (g : Grammar) (tokens : List String)

/-! ### One step of the search -/

theorem bestParse_fill_eq_some_iff {s : Span} {symbol : String} {parse : Parse} :
    (g.fill tokens).bestParse tokens s symbol = some parse ↔
      (g.fill tokens).bestProb? s symbol = some parse.prob ∧
        (g.fill tokens).treeWithin tokens s.width s symbol = some parse.tree := by
  obtain ⟨tree, prob⟩ := parse
  simp only [Chart.bestParse, length_fill, ne_eq, not_true_eq_false, if_false,
    Option.bind_eq_bind, Option.bind_eq_some_iff, Option.some.injEq, Parse.mk.injEq]
  constructor
  · rintro ⟨p, hp, t, ht, rfl, rfl⟩
    exact ⟨hp, ht⟩
  · rintro ⟨hp, ht⟩
    exact ⟨prob, hp, tree, ht, rfl, rfl⟩

theorem parsesOver_of_bestParse {s : Span} {symbol : String} {parse : Parse}
    (h : (g.fill tokens).bestParse tokens s symbol = some parse) :
    g.ParsesOver tokens s symbol parse.tree parse.prob := by
  obtain ⟨tree, prob⟩ := parse
  have hprob := ((bestParse_fill_eq_some_iff g tokens).mp h).1
  obtain ⟨t, ht, htree⟩ := exists_bestParse g tokens hprob
  obtain rfl : tree = t := congrArg Parse.tree (Option.some.inj (h.symm.trans ht))
  exact htree

/-- How a best parse is made from the preferred derivation: over one token from the word there, and
over a wider span from the best parses of both parts. -/
inductive BestStep : Span → String → Parse → Prop where
  | leaf {i : Nat} {word symbol : String} {p : Binary64} (token : tokens[i]? = some word)
      (rule : Rule.lexical symbol word p ∈ g.rules) :
      BestStep ⟨i, i + 1⟩ symbol
        ⟨.branch ⟨symbol, ⟨i, i + 1⟩⟩ [.leaf ⟨word, ⟨i, i + 1⟩⟩], p⟩
  | branch {start split stop : Nat} {symbol left right : String} {prob : Binary64}
      {first second : Parse} (rule : Rule.binary symbol left right prob ∈ g.rules)
      (preferred : Derivation.best? ((g.fill tokens).derivations ⟨start, stop⟩ symbol) =
        some (.branch split left right (prob * first.prob * second.prob)))
      (parse_first : (g.fill tokens).bestParse tokens ⟨start, split⟩ left = some first)
      (parse_second : (g.fill tokens).bestParse tokens ⟨split, stop⟩ right = some second) :
      BestStep ⟨start, stop⟩ symbol
        ⟨.branch ⟨symbol, ⟨start, stop⟩⟩ [first.tree, second.tree],
          prob * first.prob * second.prob⟩

theorem bestStep_of_bestParse {s : Span} {symbol : String} {parse : Parse}
    (h : (g.fill tokens).bestParse tokens s symbol = some parse) :
    g.BestStep tokens s symbol parse := by
  obtain ⟨tree, prob⟩ := parse
  obtain ⟨hprob, htree⟩ := (bestParse_fill_eq_some_iff g tokens).mp h
  obtain ⟨d, hd, hjustified, rfl⟩ := exists_best?_fill g tokens hprob
  cases hjustified with
  | leaf token rule =>
      have hroot := Chart.treeWithin_mono 1 (by simp) htree
      simp only [Chart.treeWithin, hd, token, Option.bind_eq_bind, Option.bind_some,
        Option.some.injEq] at hroot
      obtain rfl := hroot
      exact .leaf token rule
  | @branch start split stop _ left right prob p q rule first second =>
      have hstart := lt_of_bestProb?_fill g tokens first
      have hstop := lt_of_bestProb?_fill g tokens second
      obtain ⟨t, ht, _⟩ := exists_bestParse g tokens first
      obtain ⟨u, hu, _⟩ := exists_bestParse g tokens second
      have hleft := ((bestParse_fill_eq_some_iff g tokens).mp ht).2
      have hright := ((bestParse_fill_eq_some_iff g tokens).mp hu).2
      -- The parts are searched under a bound of their own, which is not below their widths.
      have hroot := Chart.treeWithin_mono (stop - start + 1) (Nat.le_succ _) htree
      have hnarrow : (Span.mk start split).width ≤ stop - start ∧
          (Span.mk split stop).width ≤ stop - start := by
        simp only [Span.width_mk]
        omega
      have hleft := Chart.treeWithin_mono (stop - start) hnarrow.1 hleft
      have hright := Chart.treeWithin_mono (stop - start) hnarrow.2 hright
      simp only [Chart.treeWithin, hd, hleft, hright, Option.bind_eq_bind, Option.bind_some,
        Option.some.injEq] at hroot
      obtain rfl := hroot
      exact .branch rule hd ht hu

/-! ### All constituents -/

/-- A constituent of a best parse is the best parse of its label over its span. The induction goes
down the tree, one step of the search after another. -/
theorem exists_bestParse_of_isPartOf {s : Span} {symbol : String} {parse : Parse}
    (h : (g.fill tokens).bestParse tokens s symbol = some parse) {label : Spanned String}
    {children : List (Tree String String)}
    (hpart : (Tree.branch label children).IsPartOf parse.tree) :
    ∃ p, (g.fill tokens).bestParse tokens label.span label.value =
      some ⟨.branch label children, p⟩ := by
  obtain ⟨tree, prob⟩ := parse
  induction tree generalizing s symbol prob with
  | leaf word =>
      have hnone := Tree.isPartOf_leaf_iff.mp hpart
      contradiction
  | branch root rootChildren ih =>
      rcases Tree.isPartOf_branch_iff.mp hpart with heq | ⟨t, hmem, hbelow⟩
      · obtain ⟨rfl, rfl⟩ := Tree.branch.inj heq
        have hroot := bestStep_of_bestParse g tokens h
        cases hroot with
        | leaf => exact ⟨_, h⟩
        | branch => exact ⟨_, h⟩
      · cases bestStep_of_bestParse g tokens h with
        | leaf =>
            rw [List.mem_singleton.mp hmem] at hbelow
            have hnone := Tree.isPartOf_leaf_iff.mp hbelow
            contradiction
        | branch rule preferred parse_first parse_second =>
            rcases List.mem_pair.mp hmem with rfl | rfl
            · exact ih _ hmem _ parse_first hbelow
            · exact ih _ hmem _ parse_second hbelow

/-! ### The place of a constituent -/

/-- A rule that joins a left and a right symbol at a split attains the best probability of a symbol
over a span. -/
def AttainedAt (s : Span) (symbol : String) : Nat × String × String → Prop
  | (split, left, right) => ∃ prob p q, Rule.binary symbol left right prob ∈ g.rules ∧
      (g.fill tokens).bestProb? ⟨s.start, split⟩ left = some p ∧
      (g.fill tokens).bestProb? ⟨split, s.stop⟩ right = some q ∧
      (g.fill tokens).bestProb? s symbol = some (prob * p * q)

/-- The preferred derivation attains the best probability, and at the least place of all. -/
theorem least_of_best? {s : Span} {symbol left right : String} {split : Nat} {p : Binary64}
    (hbest : (g.fill tokens).bestProb? s symbol = some p)
    (hd : Derivation.best? ((g.fill tokens).derivations s symbol) =
      some (.branch split left right p)) :
    ∀ place, g.AttainedAt tokens s symbol place →
      Derivation.PlaceLE (split, left, right) place := by
  rintro ⟨split', left', right'⟩ ⟨prob, p', q', rule, first, second, hvalue⟩
  obtain rfl : p = prob * p' * q' := Option.some.inj (hbest.symm.trans hvalue)
  have hmem := (mem_derivations_fill g tokens).mpr (.branch rule first second)
  exact Derivation.placeLE_of_best? hd hmem rfl

/-- The two children of a best parse are constituents that meet at the split of the least place. -/
theorem exists_least_of_bestParse {label : Spanned String} {t u : Tree String String}
    {best : Binary64} (h : (g.fill tokens).bestParse tokens label.span label.value =
      some ⟨.branch label [t, u], best⟩) :
    ∃ split left right ts us,
      t = .branch ⟨left, ⟨label.span.start, split⟩⟩ ts ∧
      u = .branch ⟨right, ⟨split, label.span.stop⟩⟩ us ∧
      g.AttainedAt tokens label.span label.value (split, left, right) ∧
      ∀ place, g.AttainedAt tokens label.span label.value place →
        Derivation.PlaceLE (split, left, right) place := by
  have hbest := ((bestParse_fill_eq_some_iff g tokens).mp h).1
  obtain ⟨symbol, s⟩ := label
  cases bestStep_of_bestParse g tokens h with
  | branch rule preferred parse_first parse_second =>
      obtain ⟨ts, ht⟩ := (parsesOver_of_bestParse g tokens parse_first).root
      obtain ⟨us, hu⟩ := (parsesOver_of_bestParse g tokens parse_second).root
      have hfirst := ((bestParse_fill_eq_some_iff g tokens).mp parse_first).1
      have hsecond := ((bestParse_fill_eq_some_iff g tokens).mp parse_second).1
      exact ⟨_, _, _, ts, us, ht, hu, ⟨_, _, _, rule, hfirst, hsecond, hbest⟩,
        least_of_best? g tokens hbest preferred⟩

/-- A derivable symbol has a best parse. Each constituent of it is the best parse of its own label
over its own span, and the value of the constituent is the best probability there. If it has two
children, they are constituents that meet at a split, and the split with their labels is the least
place, by split and then by the labels, of all that attain this probability. -/
theorem bestParse_canonical (g : Grammar) (tokens : List String) (s : Span) (symbol : String)
    (h : (g.fill tokens).isDerivable s symbol = true) :
    ∃ parse, (g.fill tokens).bestParse tokens s symbol = some parse ∧
      ∀ label children, (Tree.branch label children).IsPartOf parse.tree →
        ∃ best, (g.fill tokens).bestProb? label.span label.value = some best ∧
          (g.fill tokens).bestParse tokens label.span label.value =
            some ⟨.branch label children, best⟩ ∧
          g.Licenses (.branch label children) best ∧
          ∀ t u, children = [t, u] → ∃ split left right ts us,
            t = .branch ⟨left, ⟨label.span.start, split⟩⟩ ts ∧
            u = .branch ⟨right, ⟨split, label.span.stop⟩⟩ us ∧
            g.AttainedAt tokens label.span label.value (split, left, right) ∧
            ∀ place, g.AttainedAt tokens label.span label.value place →
              Derivation.PlaceLE (split, left, right) place := by
  obtain ⟨p, hp⟩ := (isDerivable_fill_iff g tokens).mp h
  obtain ⟨tree, hparse, _⟩ := exists_bestParse g tokens hp
  refine ⟨_, hparse, ?_⟩
  intro label children hpart
  obtain ⟨best, hpart⟩ := exists_bestParse_of_isPartOf g tokens hparse hpart
  have hbest := ((bestParse_fill_eq_some_iff g tokens).mp hpart).1
  have htree := parsesOver_of_bestParse g tokens hpart
  refine ⟨best, hbest, hpart, htree.licensed, ?_⟩
  rintro t u rfl
  exact exists_least_of_bestParse g tokens hpart

/-- All trees over three words have the value zero. The parse takes the first split at every
constituent, and there the lesser label on the left. -/
theorem bestParse_canonical_vanishing :
    (vanishing.fill ["x", "x", "x"]).isDerivable ⟨0, 3⟩ "S" = true ∧
      ∃ t u, (vanishing.fill ["x", "x", "x"]).bestParse ["x", "x", "x"] ⟨0, 3⟩ "S" =
          some ⟨.branch ⟨"S", ⟨0, 3⟩⟩ [t, u], .zero⟩ ∧
        t.render = "(R x)".toList ∧ u.render = "(S (R x) (S x))".toList ∧
        ∀ place, vanishing.AttainedAt ["x", "x", "x"] ⟨0, 3⟩ "S" place →
          Derivation.PlaceLE (1, "R", "S") place := by
  have h : (vanishing.fill ["x", "x", "x"]).isDerivable ⟨0, 3⟩ "S" = true := by decide +kernel
  let first : Tree String String := .branch ⟨"R", ⟨0, 1⟩⟩ [.leaf ⟨"x", ⟨0, 1⟩⟩]
  let second : Tree String String := .branch ⟨"S", ⟨1, 3⟩⟩
    [.branch ⟨"R", ⟨1, 2⟩⟩ [.leaf ⟨"x", ⟨1, 2⟩⟩], .branch ⟨"S", ⟨2, 3⟩⟩ [.leaf ⟨"x", ⟨2, 3⟩⟩]]
  have hparse : (vanishing.fill ["x", "x", "x"]).bestParse ["x", "x", "x"] ⟨0, 3⟩ "S" =
      some ⟨.branch ⟨"S", ⟨0, 3⟩⟩ [first, second], .zero⟩ := by decide +kernel
  obtain ⟨parse, hfound, hparts⟩ := bestParse_canonical vanishing ["x", "x", "x"] ⟨0, 3⟩ "S" h
  obtain rfl := Option.some.inj (hfound.symm.trans hparse)
  obtain ⟨_, _, _, _, hleast⟩ := hparts _ _ (.refl _)
  obtain ⟨split, left, right, ts, us, hfirst, hsecond, _, hle⟩ := hleast first second rfl
  obtain ⟨⟨rfl, rfl⟩, _⟩ := Tree.branch.inj hfirst
  obtain ⟨⟨rfl, _⟩, _⟩ := Tree.branch.inj hsecond
  exact ⟨h, first, second, hparse, by decide +kernel, by decide +kernel, hle⟩

end Grammar

end ChartParser
