import ChartParser.Proofs.Chart.Cell
import ChartParser.Proofs.Chart.Fixpoint
import ChartParser.Proofs.Grammar.Index

/-! # Content of the filled chart

The derivations over one token are those of its lexical rules. The derivations over a wider span
are listed by split, then by left symbol, then by rule, one for each rule whose two parts are
derivable. No two of them have one place, so the check for equal derivations leaves none out. -/

namespace ChartParser

/-! ### Rows over one token -/

namespace Grammar

variable (g : Grammar)

theorem rowOf_lexicalDerivations (word symbol : String) :
    Cell.rowOf symbol (g.lexicalDerivations word) =
      (g.lexicalRules word).filterMap fun e =>
        if e.head = symbol then some (.leaf e.prob) else none := by
  simp [Cell.rowOf, lexicalDerivations, List.filterMap_map]

theorem mem_rowOf_lexicalDerivations {word symbol : String} {d : Derivation} :
    d ∈ Cell.rowOf symbol (g.lexicalDerivations word) ↔
      ∃ p, Rule.lexical symbol word p ∈ g.rules ∧ d = .leaf p := by
  rw [rowOf_lexicalDerivations, List.mem_filterMap]
  constructor
  · rintro ⟨e, he, hd⟩
    by_cases hhead : e.head = symbol
    · rw [if_pos hhead] at hd
      exact ⟨e.prob, hhead ▸ g.mem_lexicalRules.mp he, (Option.some.inj hd).symm⟩
    · rw [if_neg hhead] at hd
      contradiction
  · rintro ⟨p, hrule, rfl⟩
    exact ⟨⟨symbol, p⟩, g.mem_lexicalRules.mpr hrule, by simp⟩

/-- A symbol has at most one rule for a word, so no row over a token has two entries. -/
theorem pairwise_rowOf_lexicalDerivations (word symbol : String) :
    (Cell.rowOf symbol (g.lexicalDerivations word)).Pairwise fun _ _ => False := by
  rw [rowOf_lexicalDerivations, List.pairwise_filterMap]
  refine (g.pairwise_lexicalRules word).imp ?_
  intro e e' hne d hd d' hd'
  by_cases hhead : e.head = symbol
  · by_cases hhead' : e'.head = symbol
    · exact hne (hhead.trans hhead'.symm)
    · simp [hhead'] at hd'
  · simp [hhead] at hd

end Grammar

/-! ### Rows over a wider span -/

namespace Chart

/-- The derivation of a symbol over a span by a rule, between a split and a left symbol, if it is a
rule of these symbols and both parts are derivable. -/
def branch? (chart : Chart) (s : Span) (symbol : String) (split : Nat) (left : String)
    (r : Rule) : Option Derivation :=
  match r.shape? with
  | some (.binary l right) =>
      if r.head = symbol ∧ l = left then
        match chart.bestProb? ⟨s.start, split⟩ left, chart.bestProb? ⟨split, s.stop⟩ right with
        | some p, some q => some (.branch split left right (r.prob * p * q))
        | _, _ => none
      else none
  | _ => none

theorem branch?_eq_some {chart : Chart} {s : Span} {symbol left : String} {split : Nat} {r : Rule}
    {d : Derivation} :
    chart.branch? s symbol split left r = some d ↔
      ∃ right prob p q, r = .binary symbol left right prob ∧
        chart.bestProb? ⟨s.start, split⟩ left = some p ∧
        chart.bestProb? ⟨split, s.stop⟩ right = some q ∧
        d = .branch split left right (prob * p * q) := by
  constructor
  · intro h
    unfold branch? at h
    split at h
    · next l right hshape =>
      split at h
      · next hsymbols =>
        obtain ⟨hhead, hleft⟩ := hsymbols
        subst hhead hleft
        split at h
        · next p q hp hq =>
          obtain rfl := Option.some.inj h
          exact ⟨right, r.prob, p, q, Rule.eq_binary_of_shape? hshape, hp, hq, rfl⟩
        · contradiction
      · contradiction
    · contradiction
  · rintro ⟨right, prob, p, q, rfl, hp, hq, rfl⟩
    simp [branch?, Rule.binary, Production.shape?, hp, hq]

end Chart

namespace Grammar

variable (g : Grammar)

/-- The derivations of a symbol over a span that a chart of its parts gives: by split, then by left
symbol, then by rule. -/
def branches (chart : Chart) (s : Span) (symbol : String) : List Derivation :=
  (List.range' (s.start + 1) (s.width - 1)).flatMap fun split =>
    (chart.derivable ⟨s.start, split⟩).flatMap fun left =>
      g.rules.filterMap (chart.branch? s symbol split left)

theorem mem_branches {chart : Chart} {s : Span} {symbol : String} {d : Derivation} :
    d ∈ g.branches chart s symbol ↔
      ∃ split left right prob p q, s.start < split ∧ split < s.stop ∧
        Rule.binary symbol left right prob ∈ g.rules ∧
        chart.bestProb? ⟨s.start, split⟩ left = some p ∧
        chart.bestProb? ⟨split, s.stop⟩ right = some q ∧
        d = .branch split left right (prob * p * q) := by
  simp only [branches, List.mem_flatMap, List.mem_filterMap, Chart.branch?_eq_some,
    List.mem_range'_1]
  constructor
  · rintro ⟨split, hsplit, left, _, _, hr, right, prob, p, q, rfl, hp, hq, rfl⟩
    simp only [Span.width] at hsplit
    exact ⟨split, left, right, prob, p, q, by omega, by omega, hr, hp, hq, rfl⟩
  · rintro ⟨split, left, right, prob, p, q, hstart, hstop, hr, hp, hq, rfl⟩
    have hleft : left ∈ chart.derivable ⟨s.start, split⟩ := by
      rw [Chart.derivable, Cell.mem_symbols, Cell.contains_eq_isSome_bestProb?]
      exact Option.isSome_of_mem hp
    refine ⟨split, ?_, left, hleft, _, hr, right, prob, p, q, rfl, hp, hq, rfl⟩
    simp only [Span.width]
    omega

private theorem flatMap_filterMap {α β γ : Type} (f : α → Option β) (h : β → List γ)
    (xs : List α) : (xs.filterMap f).flatMap h = xs.flatMap fun a => ((f a).map h).getD [] := by
  induction xs with
  | nil => rfl
  | cons x xs ih =>
      cases hx : f x with
      | none => simp [hx, ih]
      | some b => simp [hx, ih]

theorem rowOf_derivationsFrom {chart : Chart} {s : Span} {symbol left : String} {split : Nat}
    {p : Binary64} (hp : chart.bestProb? ⟨s.start, split⟩ left = some p) :
    Cell.rowOf symbol (g.derivationsFrom split (chart.cell ⟨split, s.stop⟩) left p) =
      g.rules.filterMap (chart.branch? s symbol split left) := by
  rw [Cell.rowOf, derivationsFrom, binaryRules_eq, List.filterMap_filterMap,
    List.filterMap_filterMap]
  congr 1
  funext r
  unfold Rule.asBinary? Chart.branch?
  cases hshape : r.shape? with
  | none => rfl
  | some shape =>
      cases shape with
      | lexical word => rfl
      | binary l right =>
          by_cases hleft : l = left
          · cases hq : (chart.cell ⟨split, s.stop⟩).bestProb? right with
            | none => simp [hleft, hq, Chart.bestProb?]
            | some q =>
                have hp' : (chart.cell ⟨s.start, split⟩).bestProb? left = some p := hp
                by_cases hhead : r.head = symbol
                · simp [hleft, hhead, hq, hp', Chart.bestProb?]
                · simp [hleft, hhead, hq]
          · simp [hleft]

theorem rowOf_binaryDerivations (chart : Chart) (s : Span) (symbol : String) :
    Cell.rowOf symbol (g.binaryDerivations chart s) = g.branches chart s symbol := by
  rw [Cell.rowOf, binaryDerivations, List.filterMap_flatMap]
  apply List.flatMap_congr
  intro split _
  rw [Cell.bestProbs_eq, flatMap_filterMap, List.filterMap_flatMap]
  apply List.flatMap_congr
  intro left hleft
  rw [Cell.mem_symbols, Cell.contains_eq_isSome_bestProb?, Option.isSome_iff_exists] at hleft
  obtain ⟨p, hp⟩ := hleft
  rw [hp]
  exact g.rowOf_derivationsFrom hp

theorem place_of_mem_filterMap_branch? {chart : Chart} {s : Span} {symbol left : String}
    {split : Nat} {d : Derivation}
    (h : d ∈ g.rules.filterMap (chart.branch? s symbol split left)) :
    d.split = split ∧ d.left = left := by
  obtain ⟨r, _, hr⟩ := List.mem_filterMap.mp h
  obtain ⟨_, _, _, _, _, _, _, rfl⟩ := Chart.branch?_eq_some.mp hr
  exact ⟨rfl, rfl⟩

/-- Two derivations of a symbol over a span differ in their split, their left or their right
symbol. -/
theorem pairwise_branches (chart : Chart) (s : Span) (symbol : String) :
    (g.branches chart s symbol).Pairwise fun d e => ¬d.SamePlace e := by
  unfold branches
  rw [List.pairwise_flatMap]
  constructor
  · intro split _
    rw [List.pairwise_flatMap]
    constructor
    · -- One split and one left symbol leave only the rule, so the right symbols differ.
      intro left _
      rw [List.pairwise_filterMap]
      refine g.pairwise_rules.imp ?_
      intro r r' hne d hd d' hd'
      obtain ⟨right, prob, _, _, rfl, _, _, rfl⟩ := Chart.branch?_eq_some.mp hd
      obtain ⟨right', prob', _, _, rfl, _, _, rfl⟩ := Chart.branch?_eq_some.mp hd'
      rintro ⟨_, _, hright⟩
      have hright : right = right' := hright
      exact hne (by simp [Rule.binary, hright])
    · refine (Cell.nodup_symbols _).imp ?_
      intro left left' hne d hd d' hd'
      have hleft := (g.place_of_mem_filterMap_branch? hd).2
      have hleft' := (g.place_of_mem_filterMap_branch? hd').2
      rintro ⟨_, heq, _⟩
      exact hne (hleft.symm.trans (heq.trans hleft'))
  · refine (List.nodup_iff_pairwise_ne.mp List.nodup_range').imp ?_
    intro split split' hne d hd d' hd'
    obtain ⟨left, _, hd⟩ := List.mem_flatMap.mp hd
    obtain ⟨left', _, hd'⟩ := List.mem_flatMap.mp hd'
    have hsplit := (g.place_of_mem_filterMap_branch? hd).1
    have hsplit' := (g.place_of_mem_filterMap_branch? hd').1
    rintro ⟨heq, _, _⟩
    exact hne (hsplit.symm.trans (heq.trans hsplit'))

/-! ### The cells of the filled chart -/

private theorem eq_singleton_of_pairwise_false {α : Type} {a : α} {xs : List α}
    (h : xs.Pairwise fun _ _ => False) (ha : a ∈ xs) : xs = [a] := by
  cases xs with
  | nil => simp at ha
  | cons x xs =>
      cases xs with
      | nil => rw [List.mem_singleton.mp ha]
      | cons y ys => exact (List.rel_of_pairwise_cons h (List.mem_cons_self (a := y))).elim

variable (tokens : List String)

/-- The derivations of a symbol over a span that the rules and a chart of its parts give. -/
def row (chart : Chart) (s : Span) (symbol : String) : List Derivation :=
  Cell.rowOf symbol (g.derivationsOver tokens chart s)

theorem pairwise_row (chart : Chart) (s : Span) (symbol : String) :
    (g.row tokens chart s symbol).Pairwise fun d e => ¬d.SamePlace e := by
  unfold row derivationsOver
  split
  · cases tokens[s.start]? with
    | none => simp [Cell.rowOf]
    | some word =>
        exact (g.pairwise_rowOf_lexicalDerivations word symbol).imp False.elim
  · rw [rowOf_binaryDerivations]
    exact g.pairwise_branches chart s symbol

theorem derivations_fill {s : Span} (h : s.Within tokens.length) (symbol : String) :
    (g.fill tokens).derivations s symbol = g.row tokens (g.fill tokens) s symbol := by
  have hrow := g.pairwise_row tokens (g.fill tokens) s symbol
  rw [Chart.derivations, cell_fill g tokens h]
  exact Cell.derivations_ofDerivations hrow

theorem derivations_fill_token {word : String} {i : Nat} (h : tokens[i]? = some word)
    (symbol : String) :
    (g.fill tokens).derivations ⟨i, i + 1⟩ symbol =
      Cell.rowOf symbol (g.lexicalDerivations word) := by
  have hi : i < tokens.length := (List.getElem?_eq_some_iff.mp h).1
  rw [derivations_fill g tokens (Span.within_mk.mpr ⟨Nat.lt_succ_self i, hi⟩)]
  simp [row, derivationsOver, h]

theorem derivations_fill_wide {start stop : Nat} (h : start + 2 ≤ stop)
    (hstop : stop ≤ tokens.length) (symbol : String) :
    (g.fill tokens).derivations ⟨start, stop⟩ symbol =
      g.branches (g.fill tokens) ⟨start, stop⟩ symbol := by
  have hwidth : stop - start ≠ 1 := by omega
  rw [derivations_fill g tokens (Span.within_mk.mpr ⟨by omega, hstop⟩),
    ← rowOf_binaryDerivations]
  simp [row, derivationsOver, hwidth]

theorem derivations_fill_of_not_within {s : Span} (h : ¬s.Within tokens.length)
    (symbol : String) : (g.fill tokens).derivations s symbol = [] := by
  rw [Chart.derivations, cell_fill_of_not_within g tokens h]
  rfl

/-- The best probability of a cell is the highest of its derivations. -/
theorem bestProb?_fill (s : Span) (symbol : String) :
    (g.fill tokens).bestProb? s symbol =
      Derivation.bestProb? ((g.fill tokens).derivations s symbol) := by
  by_cases h : s.Within tokens.length
  · have hrow := g.pairwise_row tokens (g.fill tokens) s symbol
    rw [derivations_fill g tokens h, Chart.bestProb?, cell_fill g tokens h]
    exact Cell.bestProb?_ofDerivations hrow
  · rw [derivations_fill_of_not_within g tokens h, Chart.bestProb?,
      cell_fill_of_not_within g tokens h]
    rfl

theorem within_of_bestProb?_fill {s : Span} {symbol : String} {p : Binary64}
    (h : (g.fill tokens).bestProb? s symbol = some p) : s.Within tokens.length := by
  by_contra hs
  rw [bestProb?_fill, derivations_fill_of_not_within g tokens hs] at h
  simp [Derivation.bestProb?] at h

theorem lt_of_bestProb?_fill {start stop : Nat} {symbol : String} {p : Binary64}
    (h : (g.fill tokens).bestProb? ⟨start, stop⟩ symbol = some p) : start < stop :=
  (within_of_bestProb?_fill g tokens h).1

/-- How a derivation of a symbol over a span comes about: by a lexical rule for the token there, or
by a binary rule from the best probabilities of two parts. -/
inductive Justifies (chart : Chart) : Span → String → Derivation → Prop where
  | leaf {i : Nat} {word symbol : String} {p : Binary64} (token : tokens[i]? = some word)
      (rule : Rule.lexical symbol word p ∈ g.rules) :
      Justifies chart ⟨i, i + 1⟩ symbol (.leaf p)
  | branch {start split stop : Nat} {symbol left right : String} {prob p q : Binary64}
      (rule : Rule.binary symbol left right prob ∈ g.rules)
      (first : chart.bestProb? ⟨start, split⟩ left = some p)
      (second : chart.bestProb? ⟨split, stop⟩ right = some q) :
      Justifies chart ⟨start, stop⟩ symbol (.branch split left right (prob * p * q))

/-- The filled chart records what its own cells justify and nothing else. -/
theorem mem_derivations_fill {s : Span} {symbol : String} {d : Derivation} :
    d ∈ (g.fill tokens).derivations s symbol ↔ g.Justifies tokens (g.fill tokens) s symbol d := by
  constructor
  · intro hd
    by_cases hs : s.Within tokens.length
    · obtain ⟨start, stop⟩ := s
      obtain ⟨hstart, hstop⟩ := Span.within_mk.mp hs
      by_cases hwide : start + 2 ≤ stop
      · rw [derivations_fill_wide g tokens hwide hstop, mem_branches] at hd
        obtain ⟨split, left, right, prob, p, q, _, _, hrule, hp, hq, rfl⟩ := hd
        exact .branch hrule hp hq
      · obtain rfl : stop = start + 1 := by omega
        have htoken : tokens[start]? = some tokens[start] := List.getElem?_eq_getElem hstop
        rw [derivations_fill_token g tokens htoken, mem_rowOf_lexicalDerivations] at hd
        obtain ⟨p, hrule, rfl⟩ := hd
        exact .leaf htoken hrule
    · simp [derivations_fill_of_not_within g tokens hs] at hd
  · intro hd
    cases hd with
    | @leaf _ _ _ p token rule =>
        rw [derivations_fill_token g tokens token, mem_rowOf_lexicalDerivations]
        exact ⟨p, rule, rfl⟩
    | @branch start split stop _ left right prob p q rule first second =>
        have hstart := lt_of_bestProb?_fill g tokens first
        obtain ⟨hstop, hle⟩ := Span.within_mk.mp (within_of_bestProb?_fill g tokens second)
        rw [derivations_fill_wide g tokens (by omega) hle, mem_branches]
        exact ⟨split, left, right, prob, p, q, hstart, hstop, rule, first, second, rfl⟩

/-- What the cells of the filled chart hold, in terms of the chart itself. Over one token a symbol
has the derivation by its lexical rule, if it has that rule. Over a wider span its derivations are
listed by split, then by left symbol in ascending order, then by rule, without omission and with no
place twice. -/
theorem content_fill (g : Grammar) (tokens : List String) :
    let chart := g.fill tokens
    (∀ i word symbol, tokens[i]? = some word →
      (∀ p, Rule.lexical symbol word p ∈ g.rules →
        chart.derivations ⟨i, i + 1⟩ symbol = [.leaf p]) ∧
      ((∀ p, Rule.lexical symbol word p ∉ g.rules) →
        chart.derivations ⟨i, i + 1⟩ symbol = [])) ∧
    (∀ start stop symbol, start + 2 ≤ stop → stop ≤ tokens.length →
      (chart.derivations ⟨start, stop⟩ symbol =
        (List.range' (start + 1) (stop - start - 1)).flatMap fun split =>
          (chart.derivable ⟨start, split⟩).flatMap fun left =>
            g.rules.filterMap (chart.branch? ⟨start, stop⟩ symbol split left)) ∧
      (chart.derivations ⟨start, stop⟩ symbol).Pairwise fun d e => ¬d.SamePlace e) ∧
    ∀ s, (chart.derivable s).Pairwise (· < ·) := by
  refine ⟨?_, ?_, fun s => Cell.pairwise_symbols _⟩
  · intro i word symbol hword
    rw [derivations_fill_token g tokens hword]
    constructor
    · intro p hrule
      have hleaf := g.mem_rowOf_lexicalDerivations.mpr ⟨p, hrule, rfl⟩
      exact eq_singleton_of_pairwise_false
        (g.pairwise_rowOf_lexicalDerivations word symbol) hleaf
    · intro hnone
      rw [List.eq_nil_iff_forall_not_mem]
      intro d hd
      obtain ⟨p, hrule, _⟩ := g.mem_rowOf_lexicalDerivations.mp hd
      exact hnone p hrule
  · intro start stop symbol hwide hstop
    rw [derivations_fill_wide g tokens hwide hstop]
    exact ⟨rfl, g.pairwise_branches _ _ symbol⟩

end Grammar

end ChartParser
