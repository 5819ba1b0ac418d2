import ChartParser.Proofs.Parse.Extraction

/-! # Completeness and soundness of the chart

A symbol is derivable over a span in the filled chart exactly when the grammar has a derivation
tree of it over the tokens there. One direction reads the tree off the chart. The other follows a
given tree from its leaves up and finds a cell for each of its branches, at least as probable. -/

namespace ChartParser

namespace Grammar

variable (g : Grammar) (tokens : List String)

/-- A derivation in the filled chart is at most as probable as the best one, which thus exists. -/
theorem exists_bestProb?_of_justifies {s : Span} {symbol : String} {d : Derivation}
    (h : g.Justifies tokens (g.fill tokens) s symbol d) :
    ∃ best, (g.fill tokens).bestProb? s symbol = some best ∧ d.prob ≤ best := by
  have hd := (mem_derivations_fill g tokens).mpr h
  obtain ⟨best, hbest⟩ := (derivations_fill_ne_nil_iff g tokens).mp (List.ne_nil_of_mem hd)
  exact ⟨best, hbest, prob_le_of_bestProb?_fill g tokens hbest hd⟩

theorem exists_bestProb?_lexical {s : Span} {symbol word : String} {p : Binary64}
    (hs : s.Within tokens.length) (hrule : Rule.lexical symbol word p ∈ g.rules)
    (hslice : s.slice tokens = [word]) :
    ∃ best, (g.fill tokens).bestProb? s symbol = some best ∧ p ≤ best := by
  obtain ⟨start, stop⟩ := s
  obtain ⟨hstart, hstop⟩ := Span.within_mk.mp hs
  have hwidth := Span.length_slice hs
  rw [hslice, List.length_singleton, Span.width_mk] at hwidth
  obtain rfl : stop = start + 1 := by omega
  have htoken : tokens[start]? = some tokens[start] := List.getElem?_eq_getElem hstop
  rw [Span.slice_token htoken] at hslice
  obtain rfl := List.singleton_inj.mp hslice
  exact exists_bestProb?_of_justifies g tokens (.leaf htoken hrule)

/-- A tree over two parts is at most as probable as the derivation from the best of both parts. -/
theorem exists_bestProb?_binary {start split stop : Nat} {symbol left right : String}
    {prob p q p' q' : Binary64} (hrule : Rule.binary symbol left right prob ∈ g.rules)
    (hp : p.InUnit) (hq : q.InUnit)
    (hfirst : (g.fill tokens).bestProb? ⟨start, split⟩ left = some p') (hpp : p ≤ p')
    (hsecond : (g.fill tokens).bestProb? ⟨split, stop⟩ right = some q') (hqq : q ≤ q') :
    ∃ best, (g.fill tokens).bestProb? ⟨start, stop⟩ symbol = some best ∧ prob * p * q ≤ best := by
  obtain ⟨best, hbest, hle⟩ :=
    exists_bestProb?_of_justifies g tokens (.branch hrule hfirst hsecond)
  have hprob := (g.faultless.isProbability _ hrule).inUnit
  have hp' := inUnit_of_bestProb?_fill g tokens hfirst
  have hq' := inUnit_of_bestProb?_fill g tokens hsecond
  have hleft : prob * p ≤ prob * p' := hprob.mul_le_mul hprob hp hp' hprob.le_refl hpp
  have hboth : prob * p * q ≤ prob * p' * q' :=
    (hprob.mul hp).mul_le_mul (hprob.mul hp') hq hq' hleft hqq
  exact ⟨best, hbest, Binary64.le_trans hboth hle⟩

/-- No derivation tree over the tokens of a span has a value above the best probability there. -/
theorem exists_bestProb?_of_licenses {t : Tree String String} {v : Binary64}
    (h : g.Licenses t v) {s : Span} {symbol : String} (hs : s.Within tokens.length)
    (hroot : t.rootLabel? = some symbol) (hleaves : t.leaves = s.slice tokens) :
    ∃ best, (g.fill tokens).bestProb? s symbol = some best ∧ v ≤ best := by
  induction h generalizing s symbol with
  | lexical rule =>
      obtain rfl := Option.some.inj hroot
      exact exists_bestProb?_lexical g tokens hs rule hleaves.symm
  | binary rule first second ih ih' =>
      obtain rfl := Option.some.inj hroot
      obtain ⟨start, stop⟩ := s
      rw [Tree.leaves_binary] at hleaves
      obtain ⟨split, hstart, hstop, hslice, hslice'⟩ :=
        Span.exists_split_of_slice hs hleaves.symm first.leaves_ne_nil second.leaves_ne_nil
      obtain ⟨_, hlength⟩ := Span.within_mk.mp hs
      obtain ⟨p', hp', hpp⟩ :=
        ih (Span.within_mk.mpr ⟨hstart, by omega⟩) rfl hslice.symm
      obtain ⟨q', hq', hqq⟩ :=
        ih' (Span.within_mk.mpr ⟨hstop, hlength⟩) rfl hslice'.symm
      exact exists_bestProb?_binary g tokens rule first.inUnit second.inUnit hp' hpp hq' hqq

/-- A best probability stands for a derivation tree over the tokens of the span. -/
theorem exists_bestProb?_iff {s : Span} {symbol : String} :
    (∃ p, (g.fill tokens).bestProb? s symbol = some p) ↔
      s.start < s.stop ∧ s.stop ≤ tokens.length ∧
        ∃ t v, g.Derives symbol (s.slice tokens) t v := by
  constructor
  · rintro ⟨p, hp⟩
    obtain ⟨hstart, hstop⟩ := within_of_bestProb?_fill g tokens hp
    obtain ⟨t, _, htree⟩ := exists_bestParse g tokens hp
    exact ⟨hstart, hstop, t, p, htree.derives⟩
  · rintro ⟨hstart, hstop, t, v, ht⟩
    obtain ⟨best, hbest, _⟩ := exists_bestProb?_of_licenses g tokens ht.licensed ⟨hstart, hstop⟩
      ht.rootLabel?_eq ht.leaves_eq
    exact ⟨best, hbest⟩

theorem parse_eq : g.parse tokens =
    if (g.fill tokens).isDerivable ⟨0, tokens.length⟩ g.start then
      (g.fill tokens).bestParse tokens ⟨0, tokens.length⟩ g.start
    else none := by
  rw [parse, Chart.accepts, Chart.fullSpan, length_fill]

theorem isSome_parse_iff :
    (g.parse tokens).isSome ↔
      ∃ p, (g.fill tokens).bestProb? ⟨0, tokens.length⟩ g.start = some p := by
  rw [parse_eq, ← isDerivable_fill_iff]
  split
  · next h =>
    obtain ⟨p, hp⟩ := (isDerivable_fill_iff g tokens).mp h
    obtain ⟨t, ht, _⟩ := exists_bestParse g tokens hp
    simp [h, ht]
  · next h => simp [h]

/-- A parse is a tree of the start symbol over the whole input. -/
theorem parsesOver_of_parse {parse : Parse} (h : g.parse tokens = some parse) :
    g.ParsesOver tokens ⟨0, tokens.length⟩ g.start parse.tree parse.prob := by
  rw [parse_eq] at h
  split at h
  · next hderivable =>
    obtain ⟨p, hp⟩ := (isDerivable_fill_iff g tokens).mp hderivable
    obtain ⟨t, ht, htree⟩ := exists_bestParse g tokens hp
    obtain rfl : ⟨t, p⟩ = parse := Option.some.inj (ht.symm.trans h)
    exact htree
  · contradiction

theorem derives_of_parse {parse : Parse} (h : g.parse tokens = some parse) :
    g.Derives g.start tokens parse.tree parse.prob := by
  have hderives := (g.parsesOver_of_parse tokens h).derives
  rwa [Span.slice_full] at hderives

/-- A sentence with a derivation tree from the start symbol is parsed, and the parse is at least as
probable as the tree. -/
theorem exists_parse_of_derives {t : Tree String String} {v : Binary64}
    (h : g.Derives g.start tokens t v) :
    ∃ parse, g.parse tokens = some parse ∧ v ≤ parse.prob := by
  have hwithin : (Span.mk 0 tokens.length).Within tokens.length := by
    have hpos := List.length_pos_iff.mpr h.licensed.leaves_ne_nil
    rw [h.leaves_eq] at hpos
    exact Span.within_mk.mpr ⟨hpos, Nat.le_refl _⟩
  have hleaves : t.leaves = (Span.mk 0 tokens.length).slice tokens := by
    rw [h.leaves_eq, Span.slice_full]
  obtain ⟨best, hbest, hle⟩ :=
    exists_bestProb?_of_licenses g tokens h.licensed hwithin h.rootLabel?_eq hleaves
  obtain ⟨u, hu, _⟩ := exists_bestParse g tokens hbest
  refine ⟨⟨u, best⟩, ?_, hle⟩
  rw [parse_eq, if_pos ((isDerivable_fill_iff g tokens).mpr ⟨best, hbest⟩), hu]

/-- The empty input has no parse. -/
theorem parse_nil (g : Grammar) : g.parse [] = none := by
  rw [Option.eq_none_iff_forall_ne_some]
  intro parse hparse
  have hsome : (g.parse []).isSome := by simp [hparse]
  obtain ⟨p, hp⟩ := (isSome_parse_iff g []).mp hsome
  exact absurd (within_of_bestProb?_fill g [] hp).1 (Nat.lt_irrefl 0)

/-- A symbol is marked derivable over a span, is listed there and has derivations there exactly when
the span is one of the input and the symbol has a derivation tree over its tokens. An input has a
parse exactly when the start symbol has a derivation tree over all of it, and the empty input has
none. -/
theorem derivable_iff_exists_tree (g : Grammar) (tokens : List String) :
    (∀ s symbol,
      let chart := g.fill tokens
      let hasTree := s.start < s.stop ∧ s.stop ≤ tokens.length ∧
        ∃ t v, g.Derives symbol (s.slice tokens) t v
      (chart.isDerivable s symbol = true ↔ hasTree) ∧
      (symbol ∈ chart.derivable s ↔ hasTree) ∧
      (chart.derivations s symbol ≠ [] ↔ hasTree)) ∧
    ((g.parse tokens).isSome ↔ ∃ t v, g.Derives g.start tokens t v) ∧
    g.parse [] = none := by
  refine ⟨?_, ?_, g.parse_nil⟩
  · intro s symbol
    refine ⟨?_, ?_, ?_⟩
    · exact (isDerivable_fill_iff g tokens).trans (exists_bestProb?_iff g tokens)
    · rw [Chart.derivable, Cell.mem_symbols]
      exact (isDerivable_fill_iff g tokens).trans (exists_bestProb?_iff g tokens)
    · exact (derivations_fill_ne_nil_iff g tokens).trans (exists_bestProb?_iff g tokens)
  · rw [isSome_parse_iff, exists_bestProb?_iff, Span.slice_full]
    constructor
    · exact fun h => h.2.2
    · rintro ⟨t, v, ht⟩
      have hpos := List.length_pos_iff.mpr ht.licensed.leaves_ne_nil
      rw [ht.leaves_eq] at hpos
      exact ⟨hpos, Nat.le_refl _, t, v, ht⟩

end Grammar

end ChartParser
