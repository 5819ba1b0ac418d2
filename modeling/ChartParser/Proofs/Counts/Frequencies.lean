import ChartParser.Proofs.Binary64.Quotient
import ChartParser.Proofs.Counts.Exactness
import ChartParser.Proofs.Tree.Annotation

/-! # Estimation by relative frequency

Trees in normal form whose roots have names always give a grammar. Its rules are the productions of
the trees in ascending order, its probabilities relative frequencies, and its start symbol is the
label that most of the roots have. No label is left without a rule: where a constituent mentions
the label of a child, the child is a constituent under the same annotated label. -/

namespace ChartParser

open Std (ExtTreeMap)

/-! ### Constituents and their children -/

/-- A child that is no word is a constituent, below the label of its parent. -/
theorem Tree.mem_constituents_of_child {parent? : Option String} {t : Tree String String}
    {c : Constituent} {label : Spanned String} {children : List (Tree String String)}
    (hc : c ∈ t.constituents parent?) (hchild : .branch label children ∈ c.children) :
    ⟨some c.label, label.value, children⟩ ∈ t.constituents parent? := by
  induction t generalizing parent? with
  | leaf word => simp at hc
  | branch root ts ih =>
      rw [constituents_branch, List.mem_cons, List.mem_flatMap] at hc ⊢
      rcases hc with rfl | ⟨t, ht, hc⟩
      · exact .inr ⟨_, hchild, by simp⟩
      · exact .inr ⟨t, ht, ih t ht hc⟩

theorem Constituent.shape?_production {c : Constituent} (h : c.isNormal = true)
    (labelling : Labelling) : (c.production labelling).shape?.isSome = true := by
  rcases isNormal_iff.mp h with ⟨word, hchildren⟩ | ⟨l, ls, r, rs, hchildren⟩
  · simp [production, Production.shape?, hchildren, symbol]
  · simp [production, Production.shape?, hchildren, symbol]

namespace RuleCounts

/-! ### The start symbol -/

/-- The first of two counted labels is taken before the second: it is more frequent, or it is as
frequent and no larger. -/
def TakenBefore (a b : String × Nat) : Prop := b.2 < a.2 ∨ b.2 = a.2 ∧ a.1 ≤ b.1

theorem TakenBefore.refl (a : String × Nat) : TakenBefore a a := .inr ⟨rfl, String.le_refl a.1⟩

theorem TakenBefore.trans {a b c : String × Nat} (hab : TakenBefore a b) (hbc : TakenBefore b c) :
    TakenBefore a c := by
  rcases hab with hab | ⟨hab, hle⟩
  · rcases hbc with hbc | ⟨hbc, _⟩
    · exact .inl (Nat.lt_trans hbc hab)
    · exact .inl (hbc ▸ hab)
  · rcases hbc with hbc | ⟨hbc, hle'⟩
    · exact .inl (hab ▸ hbc)
    · exact .inr ⟨hbc.trans hab, String.le_trans hle hle'⟩

/-- Of two labels in ascending order the first one wins a tie. -/
theorem takenBefore_moreFrequent {a b : String × Nat} (h : a.1 ≤ b.1) :
    TakenBefore (moreFrequent a b) a ∧ TakenBefore (moreFrequent a b) b := by
  unfold moreFrequent
  split
  · next hlt => exact ⟨.inl hlt, .refl b⟩
  · next hge =>
    refine ⟨.refl a, ?_⟩
    rcases Nat.lt_or_eq_of_le (Nat.not_lt.mp hge) with hlt | heq
    · exact .inl hlt
    · exact .inr ⟨heq, h⟩

/-- The label found so far stays below the labels to come, whichever of two it is. -/
theorem takenBefore_foldl_moreFrequent {root : String × Nat} {roots : List (String × Nat)}
    (h : (root :: roots).Pairwise fun a b => a.1 ≤ b.1) :
    ∀ a ∈ root :: roots, TakenBefore (roots.foldl moreFrequent root) a := by
  induction roots generalizing root with
  | nil => simpa using TakenBefore.refl root
  | cons next roots ih =>
      obtain ⟨hroot, htail⟩ := List.pairwise_cons.mp h
      obtain ⟨hnext, hroots⟩ := List.pairwise_cons.mp htail
      obtain ⟨hle, hroot⟩ := List.forall_mem_cons.mp hroot
      obtain ⟨hbeforeRoot, hbeforeNext⟩ := takenBefore_moreFrequent hle
      have hsorted : (moreFrequent root next :: roots).Pairwise fun a b => a.1 ≤ b.1 := by
        refine List.pairwise_cons.mpr ⟨fun a ha => ?_, hroots⟩
        unfold moreFrequent
        split
        · exact hnext a ha
        · exact hroot a ha
      obtain ⟨hbest, hrest⟩ := List.forall_mem_cons.mp (ih hsorted)
      refine List.forall_mem_cons.mpr ⟨hbest.trans hbeforeRoot, ?_⟩
      exact List.forall_mem_cons.mpr ⟨hbest.trans hbeforeNext, hrest⟩

/-- The start symbol is taken before every counted root. -/
theorem takenBefore_of_start? {counts : RuleCounts} {start : String}
    (h : counts.start? = some start) {root : String} (hroot : root ∈ counts.roots) :
    TakenBefore (start, counts.roots[start]?.getD 0) (root, counts.roots[root]?.getD 0) := by
  unfold start? at h
  split at h
  · contradiction
  · next first others hentries =>
    obtain rfl := Option.some.inj h
    have hsorted : (first :: others).Pairwise fun a b => a.1 ≤ b.1 := by
      rw [← hentries]
      refine ExtTreeMap.ordered_keys_toList.imp fun hlt => ?_
      exact Std.le_of_lt (compareOfLessAndEq_eq_lt.mp hlt)
    have hbest : others.foldl moreFrequent first ∈ counts.roots.toList := by
      rw [hentries]
      exact foldl_moreFrequent_mem first others
    obtain ⟨n, hn⟩ := ExtTreeMap.mem_iff_isSome_getElem?.trans Option.isSome_iff_exists |>.mp hroot
    have hentry : (root, n) ∈ first :: others := by
      rw [← hentries]
      exact ExtTreeMap.mem_toList_iff_getElem?_eq_some.mpr hn
    rw [ExtTreeMap.mem_toList_iff_getElem?_eq_some.mp hbest, hn]
    exact takenBefore_foldl_moreFrequent hsorted _ hentry

theorem exists_start? {counts : RuleCounts} {root : String} (h : root ∈ counts.roots) :
    ∃ start, counts.start? = some start := by
  unfold start?
  split
  · next hentries =>
    have hempty := ExtTreeMap.toList_eq_nil_iff.mp hentries
    simp [hempty] at h
  · exact ⟨_, rfl⟩

/-- The start symbol is the least of the most frequent labels. -/
theorem exists_start?_of_roots {counts : RuleCounts} {roots : List String}
    (h : counts.roots = roots.foldl tally ∅) (hne : roots ≠ []) :
    ∃ start, counts.start? = some start ∧ start ∈ roots ∧
      ∀ root ∈ roots, roots.count root ≤ roots.count start ∧
        (roots.count root = roots.count start → start ≤ root) := by
  have hmem : ∀ root, root ∈ counts.roots ↔ root ∈ roots := by
    intro root
    rw [h, mem_foldl_tally_empty_iff]
  have hcount : ∀ root, counts.roots[root]?.getD 0 = roots.count root := by
    intro root
    rw [h, getD_foldl_tally]
  obtain ⟨root, hroot⟩ := List.exists_mem_of_ne_nil roots hne
  obtain ⟨start, hstart⟩ := exists_start? ((hmem root).mpr hroot)
  refine ⟨start, hstart, (hmem start).mp (start?_mem hstart), fun root hroot => ?_⟩
  have hbefore := takenBefore_of_start? hstart ((hmem root).mpr hroot)
  simp only [TakenBefore, hcount] at hbefore
  rcases hbefore with hlt | ⟨heq, hle⟩
  · exact ⟨Nat.le_of_lt hlt, fun heq => absurd heq (Nat.ne_of_lt hlt)⟩
  · exact ⟨Nat.le_of_eq heq, fun _ => hle⟩

/-! ### The productions of a treebank -/

variable {labelling : Labelling} {trees : List (Tree String String)}
variable {jobs : List (Labelling × Tree String String)}

/-- Trees in normal form are counted one after another without a fault. -/
theorem countTrees_eq_countEach (counts : RuleCounts) (h : ∀ t ∈ trees, t.isCountable = true) :
    counts.countTrees labelling trees =
      .ok (counts.countEach (trees.map (Prod.mk labelling))) := by
  induction trees generalizing counts with
  | nil => rfl
  | cons t ts ih =>
      obtain ⟨ht, hts⟩ := List.forall_mem_cons.mp h
      obtain ⟨next, hnext⟩ := exists_countTree_eq_ok counts labelling ht
      rw [List.map_cons, countEach_cons_of_counted hnext, ← ih next hts]
      exact congrArg (· >>= _) hnext

theorem rootLabels_ne_nil (hne : trees ≠ []) (h : ∀ t ∈ trees, t.isCountable = true) :
    trees.filterMap Tree.rootLabel? ≠ [] := by
  obtain ⟨t, ht⟩ := List.exists_mem_of_ne_nil trees hne
  have hcountable := h t ht
  cases t with
  | leaf word => contradiction
  | branch label children =>
      exact List.ne_nil_of_mem (List.mem_filterMap.mpr ⟨_, ht, rfl⟩)

theorem mem_uses_iff {p : Production} :
    p ∈ uses jobs ↔ ∃ job ∈ jobs, ∃ c ∈ job.2.constituents none, c.production job.1 = p := by
  simp [uses]

/-- A label on a right-hand side heads the production of the child that has it. -/
theorem exists_head_of_mem_body {p : Production} (hp : p ∈ uses jobs) {label : String}
    (hlabel : .nonterminal label ∈ p.body) : ∃ q ∈ uses jobs, q.head = label := by
  obtain ⟨job, hjob, c, hc, rfl⟩ := mem_uses_iff.mp hp
  obtain ⟨child, hchild, hsymbol⟩ := List.mem_map.mp hlabel
  cases child with
  | leaf word => contradiction
  | branch l ls =>
      have hchild := Tree.mem_constituents_of_child hc hchild
      refine ⟨_, mem_uses_iff.mpr ⟨job, hjob, _, hchild, rfl⟩, ?_⟩
      exact Symbol.nonterminal.inj hsymbol

theorem shape?_of_mem_uses (h : ∀ job ∈ jobs, job.2.isCountable = true) {p : Production}
    (hp : p ∈ uses jobs) : p.shape?.isSome = true := by
  obtain ⟨job, hjob, c, hc, rfl⟩ := mem_uses_iff.mp hp
  have hcountable := h job hjob
  rw [Tree.isCountable, Bool.and_eq_true, List.all_eq_true] at hcountable
  exact Constituent.shape?_production (hcountable.2 c hc) job.1

/-- The label of a root heads the production at the root, under whatever labelling. -/
theorem exists_head_of_mem_rootLabels {root : String} (hroot : root ∈ rootLabels jobs) :
    ∃ q ∈ uses jobs, q.head = root := by
  obtain ⟨job, hjob, hlabel⟩ := List.mem_filterMap.mp hroot
  cases ht : job.2 with
  | leaf word =>
      rw [ht] at hlabel
      contradiction
  | branch label children =>
      rw [ht] at hlabel
      obtain rfl := Option.some.inj hlabel
      have hc : ⟨none, label.value, children⟩ ∈ job.2.constituents none := by simp [ht]
      refine ⟨_, mem_uses_iff.mpr ⟨job, hjob, _, hc, rfl⟩, ?_⟩
      exact job.1.label_none label.value

/-! ### Rules and their probabilities -/

/-- The counts hold the multiplicities of productions and of their heads. -/
structure Tallies (counts : RuleCounts) (used : List Production) : Prop where
  productions : counts.productions = used.foldl tally ∅
  heads : counts.heads = (used.map (·.head)).foldl tally ∅

/-- The rules are listed in ascending order. -/
theorem pairwise_rules (counts : RuleCounts) :
    (counts.rules.map Rule.toProduction).Pairwise fun p q => compare p q = .lt := by
  rw [map_toProduction_rules]
  exact ExtTreeMap.ordered_keys

theorem nodup_rules (counts : RuleCounts) : (counts.rules.map Rule.toProduction).Nodup := by
  rw [map_toProduction_rules]
  exact ExtTreeMap.nodup_keys

/-- The number of uses of the productions with a head. -/
def total (used : List Production) (head : String) : Nat := used.countP (·.head = head)

theorem count_map_head (used : List Production) (head : String) :
    (used.map (·.head)).count head = total used head := by
  rw [List.count, List.countP_map]
  rfl

theorem rootLabels_map (labelling : Labelling) (trees : List (Tree String String)) :
    rootLabels (trees.map (Prod.mk labelling)) = trees.filterMap Tree.rootLabel? :=
  List.filterMap_map

theorem exists_countTrees (labelling : Labelling) (h : ∀ t ∈ trees, t.isCountable = true) :
    ∃ counts, empty.countTrees labelling trees = .ok counts ∧
      counts.Tallies (uses (trees.map (Prod.mk labelling))) ∧
      counts.roots = (trees.filterMap Tree.rootLabel?).foldl tally ∅ := by
  have hcounted : counted (trees.map (Prod.mk labelling)) = trees.map (Prod.mk labelling) :=
    List.filter_eq_self.mpr (by simpa using h)
  refine ⟨_, countTrees_eq_countEach empty h, ?_⟩
  rw [countEach_eq, hcounted, rootLabels_map]
  exact ⟨⟨rfl, rfl⟩, rfl⟩

namespace Tallies

variable {counts : RuleCounts} {used : List Production}

theorem mem_rules_iff (h : counts.Tallies used) {p : Production} :
    p ∈ counts.rules.map Rule.toProduction ↔ p ∈ used := by
  rw [map_toProduction_rules, ExtTreeMap.mem_keys, h.productions, mem_foldl_tally_empty_iff]

theorem entry_eq (h : counts.Tallies used) {p : Production} {n : Nat}
    (hentry : (p, n) ∈ counts.productions.toList) : p ∈ used ∧ n = used.count p := by
  rw [ExtTreeMap.mem_toList_iff_getElem?_eq_some, h.productions, getElem?_foldl_tally] at hentry
  split at hentry
  · next hmem => exact ⟨hmem, by simpa using hentry.symm⟩
  · simp at hentry

/-- A rule is as probable as its production is frequent among those with its head. -/
theorem prob_eq (h : counts.Tallies used) {r : Rule} (hr : r ∈ counts.rules) :
    r.prob = Binary64.ofNat (used.count r.toProduction) / Binary64.ofNat (total used r.head) := by
  obtain ⟨⟨p, n⟩, hentry, rfl⟩ := List.mem_map.mp hr
  obtain ⟨hmem, rfl⟩ := h.entry_eq hentry
  have hhead : counts.heads[p.head]? = some (total used p.head) := by
    rw [h.heads, getElem?_foldl_tally, if_pos (List.mem_map_of_mem hmem), count_map_head]
    simp
  simp only [hhead, Option.getD_some]

theorem isProbability (h : counts.Tallies used) (hword : ∀ head, total used head < 2 ^ 64)
    {r : Rule} (hr : r ∈ counts.rules) : r.prob.IsProbability := by
  have hmem : r.toProduction ∈ used := h.mem_rules_iff.mp (List.mem_map_of_mem hr)
  have hle : used.count r.toProduction ≤ total used r.head := by
    refine List.countP_mono_left fun p _ hp => ?_
    simp [eq_of_beq hp]
  rw [h.prob_eq hr]
  exact Binary64.isProbability_div_ofNat (List.count_pos_iff.mpr hmem) hle (hword r.head)

/-- The uses of the rules with a head add up to the uses of the head. -/
theorem sum_rules (h : counts.Tallies used) (head : String) :
    ((counts.rules.filter (·.head = head)).map fun r => used.count r.toProduction).sum =
      total used head := by
  have hentries : (counts.rules.filter (·.head = head)).map (fun r => used.count r.toProduction) =
      (counts.productions.toList.filter (·.1.head = head)).map (·.2) := by
    rw [rules, List.filter_map, List.map_map]
    refine List.map_congr_left fun entry hentry => ?_
    exact (h.entry_eq (List.mem_filter.mp hentry).1).2.symm
  rw [hentries, h.productions, sum_filter_foldl_tally used (·.head = head), total]

theorem faultless_rules (h : counts.Tallies used)
    (hnormal : ∀ p ∈ used, p.shape?.isSome = true) (hword : ∀ head, total used head < 2 ^ 64) :
    Faultless counts.rules where
  isProbability _ hr := h.isProbability hword hr
  isNormal _ hr := hnormal _ (h.mem_rules_iff.mp (List.mem_map_of_mem hr))
  nodup := counts.nodup_rules

theorem exists_rule_of_head (h : counts.Tallies used) {label : String}
    (hlabel : ∃ q ∈ used, q.head = label) : ∃ r ∈ counts.rules, r.head = label := by
  obtain ⟨q, hq, hhead⟩ := hlabel
  obtain ⟨r, hr, rfl⟩ := List.mem_map.mp (h.mem_rules_iff.mpr hq)
  exact ⟨r, hr, hhead⟩

end Tallies

end RuleCounts

namespace Grammar

open RuleCounts

/-- Trees in normal form are counted, and their counts make a grammar, if there is a tree, no label
is empty and the uses of every head fit into a machine word. The rules are the productions of the
trees in ascending order. A rule is as probable as its production is frequent among those with its
head, and the frequencies of the rules with one head add up. Every label on a right-hand side heads
a rule. The start symbol heads one too; it is the label of a root, no root label is more frequent,
and no smaller one is as frequent. -/
theorem estimate_spec (labelling : Labelling) {trees : List (Tree String String)}
    (hne : trees ≠ []) (hnormal : ∀ t ∈ trees, t.isCountable = true)
    (hnamed : ∀ t ∈ trees, ∀ label ∈ t.labels, label ≠ "")
    (hword : ∀ head, total (uses (trees.map (Prod.mk labelling))) head < 2 ^ 64) :
    let used := uses (trees.map (Prod.mk labelling))
    let roots := trees.filterMap Tree.rootLabel?
    ∃ counts g, RuleCounts.empty.countTrees labelling trees = .ok counts ∧
      counts.toGrammar = .ok g ∧ estimate labelling trees = .ok g ∧
      (g.rules.map Rule.toProduction).Pairwise (fun p q => compare p q = .lt) ∧
      (∀ p, p ∈ g.rules.map Rule.toProduction ↔ p ∈ used) ∧
      (∀ r ∈ g.rules, r.prob.IsProbability ∧ r.prob =
        Binary64.ofNat (used.count r.toProduction) / Binary64.ofNat (total used r.head)) ∧
      (∀ head, ((g.rules.filter (·.head = head)).map fun r => used.count r.toProduction).sum =
        total used head) ∧
      (∀ r ∈ g.rules, ∀ label, .nonterminal label ∈ r.body → ∃ r' ∈ g.rules, r'.head = label) ∧
      (∃ r ∈ g.rules, r.head = g.start) ∧ g.start ∈ roots ∧
      ∀ root ∈ roots, roots.count root ≤ roots.count g.start ∧
        (roots.count root = roots.count g.start → g.start ≤ root) := by
  intro used roots
  have hjobs : ∀ job ∈ trees.map (Prod.mk labelling), job.2.isCountable = true := by
    simpa using hnormal
  obtain ⟨counts, hcount, htallies, hroots⟩ := exists_countTrees labelling hnormal
  obtain ⟨start, hstart, hmem, hfirst⟩ :=
    exists_start?_of_roots hroots (rootLabels_ne_nil hne hnormal)
  have hhead : ∃ r ∈ counts.rules, r.head = start := by
    refine htallies.exists_rule_of_head (exists_head_of_mem_rootLabels ?_)
    rwa [rootLabels_map]
  have hfaultless : Faultless counts.rules :=
    htallies.faultless_rules (fun _ => shape?_of_mem_uses hjobs) hword
  have hstartNe : start ≠ "" := by
    obtain ⟨t, ht, hroot⟩ := List.mem_filterMap.mp hmem
    exact hnamed t ht start (Tree.mem_labels_of_rootLabel? hroot)
  have hrulesNe : counts.rules ≠ [] := by
    obtain ⟨r, hr, _⟩ := hhead
    exact List.ne_nil_of_mem hr
  obtain ⟨g, hg⟩ := exists_ofRules_iff.mpr ⟨hstartNe, hrulesNe, hfaultless⟩
  have hgrammar : counts.toGrammar = .ok g := by
    rw [RuleCounts.toGrammar, hstart]
    exact hg
  obtain ⟨hrules, rfl⟩ := eq_of_ofRules hg
  refine ⟨counts, g, hcount, hgrammar, estimate_eq_ok_iff.mpr ⟨counts, hcount, hgrammar⟩, ?_⟩
  rw [hrules]
  refine ⟨counts.pairwise_rules, fun p => htallies.mem_rules_iff, ?_, htallies.sum_rules, ?_,
    hhead, hmem, hfirst⟩
  · intro r hr
    exact ⟨htallies.isProbability hword hr, htallies.prob_eq hr⟩
  · intro r hr label hlabel
    have hp : r.toProduction ∈ used := htallies.mem_rules_iff.mp (List.mem_map_of_mem hr)
    exact htallies.exists_rule_of_head (exists_head_of_mem_body hp hlabel)

/-- Two trees with different roots, both over the label `A`. -/
def tiedRoots : List (Tree String String) :=
  [.branch ⟨"S", ⟨0, 2⟩⟩ [.branch ⟨"A", ⟨0, 1⟩⟩ [.leaf ⟨"a", ⟨0, 1⟩⟩],
      .branch ⟨"A", ⟨1, 2⟩⟩ [.leaf ⟨"b", ⟨1, 2⟩⟩]],
    .branch ⟨"R", ⟨0, 2⟩⟩ [.branch ⟨"A", ⟨0, 1⟩⟩ [.leaf ⟨"a", ⟨0, 1⟩⟩],
      .branch ⟨"A", ⟨1, 2⟩⟩ [.leaf ⟨"a", ⟨1, 2⟩⟩]]]

/-- The smaller root is the start symbol, though it comes last. The words of `A` are shared out
under the first root alone. -/
theorem estimate_spec_tiedRoots :
    tiedRoots ≠ [] ∧ (∀ t ∈ tiedRoots, t.isCountable = true) ∧
      (∀ t ∈ tiedRoots, ∀ label ∈ t.labels, label ≠ "") ∧
      (∀ head, total (uses (tiedRoots.map (Prod.mk .parent))) head < 2 ^ 64) ∧
      ∃ g, estimate .parent tiedRoots = .ok g ∧ g.start = "R" ∧
        ∀ r ∈ g.rules, r.head = "A^S" → r.prob = Binary64.ofNat 1 / Binary64.ofNat 2 := by
  have hne : tiedRoots ≠ [] := by decide
  have hnormal : ∀ t ∈ tiedRoots, t.isCountable = true := by decide +kernel
  have hnamed : ∀ t ∈ tiedRoots, ∀ label ∈ t.labels, label ≠ "" := by decide +kernel
  have hlength : (uses (tiedRoots.map (Prod.mk .parent))).length = 6 := by decide +kernel
  have hword : ∀ head, total (uses (tiedRoots.map (Prod.mk .parent))) head < 2 ^ 64 := by
    intro head
    refine Nat.lt_of_le_of_lt List.countP_le_length ?_
    rw [hlength]
    decide
  obtain ⟨_, g, _, _, hestimate, _, hrules, hprobs, _, _, _, hroot, hfirst⟩ :=
    estimate_spec .parent hne hnormal hnamed hword
  refine ⟨hne, hnormal, hnamed, hword, g, hestimate, ?_, ?_⟩
  · have hroots : tiedRoots.filterMap Tree.rootLabel? = ["S", "R"] := by decide +kernel
    rw [hroots] at hroot hfirst
    rcases List.mem_cons.mp hroot with hstart | hstart
    · -- the other root is as frequent and smaller
      obtain ⟨_, htie⟩ := hfirst "R" (by simp)
      rw [hstart] at htie
      exact absurd (htie (by decide)) (by decide)
    · exact List.mem_singleton.mp hstart
  · have hcounts : ∀ p ∈ uses (tiedRoots.map (Prod.mk .parent)), p.head = "A^S" →
        (uses (tiedRoots.map (Prod.mk .parent))).count p = 1 ∧
          total (uses (tiedRoots.map (Prod.mk .parent))) p.head = 2 := by
      decide +kernel
    intro r hr hhead
    have hp := (hrules r.toProduction).mp (List.mem_map_of_mem hr)
    obtain ⟨hcount, htotal⟩ := hcounts r.toProduction hp hhead
    rw [(hprobs r hr).2, hcount, htotal]

end Grammar

end ChartParser
