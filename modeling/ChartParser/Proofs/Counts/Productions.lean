import ChartParser.Proofs.Counts.Trained
import ChartParser.Proofs.Grammar.Trees

/-! # The rules of an estimated grammar

The rules of an estimated grammar are the productions of its trees, no more and no fewer, and its
start symbol depends on the labels at their roots alone. All three maps of the counts are followed
through the trees, one production and one root after another. -/

namespace ChartParser

open Std (ExtTreeMap)

namespace Tree

variable {labelling : Labelling}

/-- A production stands at some constituent of a tree that is counted. -/
def Uses (labelling : Labelling) (t : Tree String String) (p : Production) : Prop :=
  ∃ used, t.productions labelling none = .ok used ∧ p ∈ used

/-! ### Productions of a tree -/

/-- The production of a constituent over one word. -/
def lexicalProduction (labelling : Labelling) (parent? : Option String) (label word : String) :
    Production :=
  ⟨labelling.label parent? label, [.terminal word]⟩

/-- The production of a constituent over two others. -/
def binaryProduction (labelling : Labelling) (parent? : Option String)
    (label left right : String) : Production :=
  ⟨labelling.label parent? label, [.nonterminal (labelling.label (some label) left),
    .nonterminal (labelling.label (some label) right)]⟩

theorem productions_lexical (parent? : Option String) (label word : Spanned String) :
    (branch label [leaf word]).productions labelling parent? =
      .ok [lexicalProduction labelling parent? label.value word.value] :=
  rfl

theorem productions_binary {parent? : Option String} {label l r : Spanned String}
    {ls rs : List (Tree String String)} {left right : List Production}
    (hleft : (branch l ls).productions labelling (some label.value) = .ok left)
    (hright : (branch r rs).productions labelling (some label.value) = .ok right) :
    (branch label [branch l ls, branch r rs]).productions labelling parent? =
      .ok (binaryProduction labelling parent? label.value l.value r.value :: (left ++ right)) := by
  rw [productions, hleft, hright]
  rfl

/-- Induction over a tree that is counted: every constituent has one word or two constituents below
it, and those are counted under its bare label. -/
@[elab_as_elim]
theorem productions_induction
    {motive : ∀ (parent? : Option String) (t : Tree String String) (used : List Production),
      t.productions labelling parent? = .ok used → Prop}
    (lexical : ∀ parent? label word, motive parent? (.branch label [.leaf word])
      [lexicalProduction labelling parent? label.value word.value]
      (productions_lexical parent? label word))
    (binary : ∀ parent? label l ls r rs left right
      (hleft : (branch l ls).productions labelling (some label.value) = .ok left)
      (hright : (branch r rs).productions labelling (some label.value) = .ok right),
      motive (some label.value) (.branch l ls) left hleft →
      motive (some label.value) (.branch r rs) right hright →
      motive parent? (.branch label [.branch l ls, .branch r rs])
        (binaryProduction labelling parent? label.value l.value r.value :: (left ++ right))
        (productions_binary hleft hright))
    {parent? : Option String} {t : Tree String String} {used : List Production}
    (h : t.productions labelling parent? = .ok used) : motive parent? t used h := by
  fun_induction productions labelling parent? t generalizing used with
  | case1 => contradiction
  | case2 parent? label word =>
      cases h
      exact lexical parent? label word
  | case3 =>
      rename_i parent? label l ls r rs under ihleft ihright
      have hbind := h
      rw [productions] at hbind
      obtain ⟨left, hleft, hrest⟩ := bind_eq_ok_iff.mp hbind
      obtain ⟨right, hright, heq⟩ := bind_eq_ok_iff.mp hrest
      cases heq
      exact binary parent? label l ls r rs left right hleft hright (ihleft hleft) (ihright hright)
  | case4 parent? label children hlexical hbinary =>
      rw [productions.eq_4 labelling parent? label children hlexical hbinary] at h
      contradiction

end Tree

namespace RuleCounts

/-! ### One tree -/

variable {counts counts' : RuleCounts} {labelling : Labelling} {t : Tree String String}

/-- The uses of productions are tallied with their heads; roots and trees are left alone. -/
theorem foldl_countProduction (counts : RuleCounts) (ps : List Production) :
    ps.foldl countProduction counts =
      ⟨ps.foldl tally counts.productions, (ps.map (·.head)).foldl tally counts.heads,
        counts.roots, counts.trees⟩ := by
  induction ps generalizing counts with
  | nil => rfl
  | cons p ps ih => exact ih (counts.countProduction p)

/-- A counted tree has a root label and productions, and these are what is counted. -/
theorem exists_of_countTree (h : counts.countTree labelling t = .ok counts') :
    ∃ root used, t.rootLabel? = some root ∧ t.productions labelling none = .ok used ∧
      counts' = ⟨used.foldl tally counts.productions, (used.map (·.head)).foldl tally counts.heads,
        tally counts.roots root, counts.trees + 1⟩ := by
  cases t with
  | leaf word => contradiction
  | branch label children =>
      obtain ⟨used, hused, heq⟩ := bind_eq_ok_iff.mp h
      cases heq
      refine ⟨label.value, used, rfl, hused, ?_⟩
      rw [foldl_countProduction]

/-! ### A row of trees -/

variable {ts : List (Tree String String)}

theorem exists_productions_of_countTrees (h : counts.countTrees labelling ts = .ok counts') :
    ∀ t ∈ ts, ∃ used, t.productions labelling none = .ok used := by
  induction ts generalizing counts with
  | nil => simp
  | cons t ts ih =>
      obtain ⟨next, hnext, hrest⟩ := bind_eq_ok_iff.mp h
      obtain ⟨_, used, _, hused, _⟩ := exists_of_countTree hnext
      exact List.forall_mem_cons.mpr ⟨⟨used, hused⟩, ih hrest⟩

/-- The counted productions are those of the trees. -/
theorem mem_productions_of_countTrees (h : counts.countTrees labelling ts = .ok counts')
    {p : Production} :
    p ∈ counts'.productions ↔ (∃ t ∈ ts, t.Uses labelling p) ∨ p ∈ counts.productions := by
  induction ts generalizing counts with
  | nil =>
      cases h
      simp
  | cons t ts ih =>
      obtain ⟨next, hnext, hrest⟩ := bind_eq_ok_iff.mp h
      obtain ⟨_, used, _, hused, rfl⟩ := exists_of_countTree hnext
      have huses : t.Uses labelling p ↔ p ∈ used := by
        constructor
        · rintro ⟨used', hused', hp⟩
          obtain rfl := Except.ok.inj (hused.symm.trans hused')
          exact hp
        · exact fun hp => ⟨used, hused, hp⟩
      rw [ih hrest, mem_foldl_tally_iff, ← huses, List.exists_mem_cons_iff,
        or_left_comm, or_assoc]

/-- The counted roots are those of the trees, whatever the labelling. -/
theorem roots_of_countTrees (h : counts.countTrees labelling ts = .ok counts') :
    counts'.roots = (ts.filterMap Tree.rootLabel?).foldl tally counts.roots := by
  induction ts generalizing counts with
  | nil =>
      cases h
      rfl
  | cons t ts ih =>
      obtain ⟨next, hnext, hrest⟩ := bind_eq_ok_iff.mp h
      obtain ⟨root, _, hroot, _, rfl⟩ := exists_of_countTree hnext
      rw [ih hrest, List.filterMap_cons_some hroot, List.foldl_cons]

theorem map_toProduction_rules (counts : RuleCounts) :
    counts.rules.map Rule.toProduction = counts.productions.keys := by
  rw [rules, List.map_map, ← ExtTreeMap.map_fst_toList_eq_keys]
  rfl

end RuleCounts

namespace Grammar

variable {labelling labelling' : Labelling} {trees : List (Tree String String)} {g g' : Grammar}

theorem exists_counts_of_estimate (h : estimate labelling trees = .ok g) :
    ∃ counts, RuleCounts.empty.countTrees labelling trees = .ok counts ∧
      counts.start? = some g.start ∧ g.rules = counts.rules := by
  obtain ⟨counts, hcounts, hg⟩ := estimate_eq_ok_iff.mp h
  unfold RuleCounts.toGrammar at hg
  split at hg
  · contradiction
  · next start hstart =>
    obtain ⟨hrules, rfl⟩ := eq_of_ofRules hg
    exact ⟨counts, hcounts, hstart, hrules⟩

theorem exists_productions_of_estimate (h : estimate labelling trees = .ok g) :
    ∀ t ∈ trees, ∃ used, t.productions labelling none = .ok used := by
  obtain ⟨counts, hcounts, _, _⟩ := exists_counts_of_estimate h
  exact RuleCounts.exists_productions_of_countTrees hcounts

/-- A production is a rule of an estimated grammar exactly when a tree uses it. -/
theorem mem_productions_of_estimate (h : estimate labelling trees = .ok g) {p : Production} :
    p ∈ g.rules.map Rule.toProduction ↔ ∃ t ∈ trees, t.Uses labelling p := by
  obtain ⟨counts, hcounts, _, hrules⟩ := exists_counts_of_estimate h
  rw [hrules, RuleCounts.map_toProduction_rules, ExtTreeMap.mem_keys,
    RuleCounts.mem_productions_of_countTrees hcounts]
  simp [RuleCounts.empty]

/-- The start symbol of an estimated grammar is the label at the root of some tree. -/
theorem start_mem_of_estimate (h : estimate labelling trees = .ok g) :
    g.start ∈ trees.filterMap Tree.rootLabel? := by
  obtain ⟨counts, hcounts, hstart, _⟩ := exists_counts_of_estimate h
  have hmem := RuleCounts.start?_mem hstart
  rw [RuleCounts.roots_of_countTrees hcounts, mem_foldl_tally_iff] at hmem
  simpa [RuleCounts.empty] using hmem

/-- The start symbol does not depend on the labelling. -/
theorem start_eq_of_estimate (h : estimate labelling trees = .ok g)
    (h' : estimate labelling' trees = .ok g') : g.start = g'.start := by
  obtain ⟨counts, hcounts, hstart, _⟩ := exists_counts_of_estimate h
  obtain ⟨counts', hcounts', hstart', _⟩ := exists_counts_of_estimate h'
  have hroots : counts.roots = counts'.roots :=
    (RuleCounts.roots_of_countTrees hcounts).trans (RuleCounts.roots_of_countTrees hcounts').symm
  have heq : counts.start? = counts'.start? := by simp only [RuleCounts.start?, hroots]
  exact Option.some.inj (hstart.symm.trans (heq.trans hstart'))

end Grammar

end ChartParser
