import ChartParser.Proofs.Counts.Productions
import ChartParser.Proofs.Parse.Completeness
import ChartParser.Proofs.Tree.Annotation

/-! # Training trees are covered

An estimated grammar has a rule for every constituent of the trees that it was estimated from, so
each of these trees is a derivation tree under the labels that were counted. A sentence of the
treebank is therefore parsed, and no less probable than its training tree makes it. -/

namespace ChartParser

namespace Grammar

variable {g : Grammar}

theorem exists_rule_of_mem {p : Production} (h : p ∈ g.rules.map Rule.toProduction) :
    ∃ prob, (⟨p, prob⟩ : Rule) ∈ g.rules := by
  obtain ⟨⟨p, prob⟩, hr, rfl⟩ := List.mem_map.mp h
  exact ⟨prob, hr⟩

/-- A grammar that has the productions of a tree licenses the tree under the counted labels. A child
is counted under the label that the production of its parent mentions. -/
theorem exists_licenses_withLabels {labelling : Labelling} {parent? : Option String}
    {t : Tree String String} {used : List Production}
    (h : t.productions labelling parent? = .ok used)
    (hrules : ∀ p ∈ used, p ∈ g.rules.map Rule.toProduction) :
    ∃ v, g.Licenses (t.withLabels labelling parent?) v := by
  induction h using Tree.productions_induction with
  | lexical parent? label word =>
      obtain ⟨prob, hrule⟩ := exists_rule_of_mem (List.forall_mem_singleton.mp hrules)
      rw [Tree.withLabels_branch]
      exact ⟨prob, .lexical hrule⟩
  | binary parent? label l ls r rs left right hleft hright ihleft ihright =>
      obtain ⟨hroot, hparts⟩ := List.forall_mem_cons.mp hrules
      obtain ⟨hleftRules, hrightRules⟩ := List.forall_mem_append.mp hparts
      obtain ⟨prob, hrule⟩ := exists_rule_of_mem hroot
      obtain ⟨p, hp⟩ := ihleft hleftRules
      obtain ⟨q, hq⟩ := ihright hrightRules
      rw [Tree.withLabels_branch] at hp hq
      refine ⟨prob * p * q, ?_⟩
      rw [Tree.withLabels_branch, List.map_cons, List.map_singleton, Tree.withLabels_branch,
        Tree.withLabels_branch]
      exact .binary hrule hp hq

/-- The words of a training tree with the start symbol at its root are parsed. The tree has a value
under its counted labels, and the parse is at least as probable. -/
theorem exists_parse_leaves {labelling : Labelling} {trees : List (Tree String String)}
    (h : estimate labelling trees = .ok g) {t : Tree String String} (ht : t ∈ trees)
    (hroot : t.rootLabel? = some g.start) :
    ∃ v parse, g.Licenses (t.withLabels labelling none) v ∧
      g.parse t.leaves = some parse ∧ v ≤ parse.prob := by
  obtain ⟨used, hused⟩ := exists_productions_of_estimate h t ht
  have hrules : ∀ p ∈ used, p ∈ g.rules.map Rule.toProduction := fun p hp =>
    (mem_productions_of_estimate h).mpr ⟨t, ht, used, hused, hp⟩
  obtain ⟨v, hv⟩ := exists_licenses_withLabels hused hrules
  have hderives : g.Derives g.start t.leaves (t.withLabels labelling none) v :=
    ⟨hv, (t.rootLabel?_withLabels_none labelling).trans hroot, t.leaves_withLabels labelling none⟩
  obtain ⟨parse, hparse, hle⟩ := exists_parse_of_derives g t.leaves hderives
  exact ⟨v, parse, hv, hparse, hle⟩

/-- A word under a label of its own. -/
def oneWord (i : Nat) : Tree String String :=
  .branch ⟨"S", ⟨i, i + 1⟩⟩ [.leaf ⟨"x", ⟨i, i + 1⟩⟩]

/-- Three words, the first two of them together. -/
def leftReading : Tree String String :=
  .branch ⟨"S", ⟨0, 3⟩⟩ [.branch ⟨"S", ⟨0, 2⟩⟩ [oneWord 0, oneWord 1], oneWord 2]

/-- Three words, the last two of them together. -/
def rightReading : Tree String String :=
  .branch ⟨"S", ⟨0, 3⟩⟩ [oneWord 0, .branch ⟨"S", ⟨1, 3⟩⟩ [oneWord 1, oneWord 2]]

/-- Two training trees of one sentence: the parse is as probable as either of them. -/
theorem exists_parse_leaves_rightReading :
    ∃ g, estimate .parent [leftReading, rightReading] = .ok g ∧
      rightReading ∈ [leftReading, rightReading] ∧ rightReading.rootLabel? = some g.start ∧
      ∃ v parse, g.Licenses (rightReading.withLabels .parent none) v ∧
        g.parse ["x", "x", "x"] = some parse ∧ v ≤ parse.prob := by
  have hstart : (estimate .parent [leftReading, rightReading]).toOption.map Grammar.start =
      some "S" := by
    decide +kernel
  cases h : estimate .parent [leftReading, rightReading] with
  | error error =>
      rw [h] at hstart
      contradiction
  | ok g =>
      rw [h] at hstart
      have hmem : rightReading ∈ [leftReading, rightReading] := by simp
      have hroot : rightReading.rootLabel? = some g.start := hstart.symm
      exact ⟨g, rfl, hmem, hroot, exists_parse_leaves h hmem hroot⟩

end Grammar

end ChartParser
