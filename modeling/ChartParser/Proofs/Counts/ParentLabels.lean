import ChartParser.Proofs.Counts.Coverage

/-! # Grammars with parent labels

A grammar estimated under parent labels is a refinement of the grammar of the bare labels. Below a
label with a bare part `A` its rules mention only labels that end in `^A`, and without the carets
they are rules of the bare grammar. So each of its trees carries the labels that annotation gives to
the bare tree, and the bare tree belongs to the bare grammar. -/

namespace ChartParser

open Labelling (IsBare bareLabel)

/-! ### Productions without carets -/

/-- The symbol with its bare label, if it is a label. -/
def Symbol.withBareLabel : Symbol → Symbol
  | terminal word => terminal word
  | nonterminal label => nonterminal (bareLabel label)

namespace Production

/-- The production with the bare labels of its symbols. -/
def withBareLabels (p : Production) : Production := ⟨bareLabel p.head, p.body.map (·.withBareLabel)⟩

/-- Every label of the body carries the bare label of the head, and nothing beside it. -/
def IsAnnotated (p : Production) : Prop :=
  ∀ label, .nonterminal label ∈ p.body → label = bareLabel label ++ "^" ++ bareLabel p.head

theorem IsAnnotated.binary {head left right : String} {prob : Binary64}
    (h : (Rule.binary head left right prob).IsAnnotated) :
    left = bareLabel left ++ "^" ++ bareLabel head ∧
      right = bareLabel right ++ "^" ++ bareLabel head :=
  ⟨h left List.mem_cons_self, h right (List.mem_cons_of_mem _ List.mem_cons_self)⟩

/-- Productions as they are counted under parent labels. -/
theorem isAnnotated_binaryProduction {above left right : String} (habove : IsBare above)
    (hleft : IsBare left) (hright : IsBare right) (parent? : Option String) :
    (Tree.binaryProduction .parent parent? above left right).IsAnnotated := by
  intro label hmem
  rw [Tree.binaryProduction, habove.bareLabel_label]
  rcases List.mem_pair.mp hmem with heq | heq
  · cases heq
    rw [hleft.bareLabel_label, Labelling.label_parent_some]
  · cases heq
    rw [hright.bareLabel_label, Labelling.label_parent_some]

theorem isAnnotated_lexicalProduction (labelling : Labelling) (parent? : Option String)
    (label word : String) : (Tree.lexicalProduction labelling parent? label word).IsAnnotated := by
  intro other hmem
  cases List.mem_singleton.mp hmem

theorem withBareLabels_lexicalProduction {label : String} (h : IsBare label)
    (parent? : Option String) (word : String) :
    (Tree.lexicalProduction .parent parent? label word).withBareLabels =
      Tree.lexicalProduction .bare parent? label word := by
  simp [Tree.lexicalProduction, withBareLabels, Symbol.withBareLabel, h.bareLabel_label]

theorem withBareLabels_binaryProduction {above left right : String} (habove : IsBare above)
    (hleft : IsBare left) (hright : IsBare right) (parent? : Option String) :
    (Tree.binaryProduction .parent parent? above left right).withBareLabels =
      Tree.binaryProduction .bare parent? above left right := by
  simp [Tree.binaryProduction, withBareLabels, Symbol.withBareLabel, habove.bareLabel_label,
    hleft.bareLabel_label, hright.bareLabel_label]

end Production

namespace Tree

variable {parent? : Option String} {t : Tree String String} {used : List Production}

theorem isBare_of_labels {label : Spanned String} {children : List (Tree String String)}
    (h : ∀ l ∈ (branch label children).labels, IsBare l) :
    IsBare label.value ∧ ∀ t ∈ children, ∀ l ∈ t.labels, IsBare l := by
  rw [labels_branch, List.forall_mem_cons] at h
  exact ⟨h.1, fun t ht l hl => h.2 l (List.mem_flatMap.mpr ⟨t, ht, hl⟩)⟩

/-- What is counted under parent labels is annotated, and without the carets it is what is counted
under bare labels. -/
theorem productions_parent (hlabels : ∀ l ∈ t.labels, IsBare l)
    (h : t.productions .parent parent? = .ok used) :
    (∀ p ∈ used, p.IsAnnotated) ∧
      t.productions .bare parent? = .ok (used.map (·.withBareLabels)) := by
  induction h using productions_induction with
  | lexical parent? label word =>
      obtain ⟨hlabel, _⟩ := isBare_of_labels hlabels
      constructor
      · exact List.forall_mem_singleton.mpr
          (Production.isAnnotated_lexicalProduction .parent parent? label.value word.value)
      · rw [productions_lexical, List.map_singleton,
          Production.withBareLabels_lexicalProduction hlabel]
  | binary parent? label l ls r rs left right _ _ ihleft ihright =>
      obtain ⟨hlabel, hchildren⟩ := isBare_of_labels hlabels
      obtain ⟨hls, hchildren⟩ := List.forall_mem_cons.mp hchildren
      have hrs := List.forall_mem_singleton.mp hchildren
      obtain ⟨hl, _⟩ := isBare_of_labels hls
      obtain ⟨hr, _⟩ := isBare_of_labels hrs
      obtain ⟨hleft, hleftBare⟩ := ihleft hls
      obtain ⟨hright, hrightBare⟩ := ihright hrs
      constructor
      · refine List.forall_mem_cons.mpr ⟨?_, List.forall_mem_append.mpr ⟨hleft, hright⟩⟩
        exact Production.isAnnotated_binaryProduction hlabel hl hr parent?
      · rw [productions_binary hleftBare hrightBare, List.map_cons, List.map_append,
          Production.withBareLabels_binaryProduction hlabel hl hr]

theorem OfAtoms.isAtom_of_mem_labels {t : Tree String String} (h : t.OfAtoms) :
    ∀ label ∈ t.labels, Treebank.IsAtom label := by
  induction h with
  | leaf => simp [labels]
  | branch hlabel _ ih =>
      rw [labels_branch, List.forall_mem_cons]
      refine ⟨hlabel, fun other hother => ?_⟩
      obtain ⟨t, ht, hmem⟩ := List.mem_flatMap.mp hother
      exact ih t ht other hmem

end Tree

namespace Grammar

/-! ### Trees of a grammar with annotated rules -/

section

variable {g g' : Grammar} {t : Tree String String} {v : Binary64}

/-- Below every label stands its bare part, behind a caret. -/
theorem Licenses.edge_eq (h : g.Licenses t v) (hrules : ∀ r ∈ g.rules, r.toProduction.IsAnnotated) :
    ∀ edge ∈ t.edges, edge.2 = bareLabel edge.2 ++ "^" ++ bareLabel edge.1 := by
  induction h with
  | lexical => simp [Tree.edges, Tree.edgesAll, Tree.rootLabel?]
  | binary rule _ _ ih ih' =>
      obtain ⟨hleft, hright⟩ := (hrules _ rule).binary
      rw [Tree.edges_binary]
      refine List.forall_mem_append.mpr ⟨?_, ?_⟩
      · exact List.forall_mem_cons.mpr ⟨hleft, ih⟩
      · exact List.forall_mem_cons.mpr ⟨hright, ih'⟩

/-- Annotation gives the labels back that were taken from a tree, if it gives back the root. -/
theorem Licenses.withLabels_withBareLabels (h : g.Licenses t v)
    (hrules : ∀ r ∈ g.rules, r.toProduction.IsAnnotated) {parent? : Option String}
    (hroot : t.rootLabel?.map (Labelling.parent.label parent? ∘ bareLabel) = t.rootLabel?) :
    t.withBareLabels.withLabels .parent parent? = t := by
  induction h generalizing parent? with
  | @lexical label word p rule =>
      have hlabel : Labelling.parent.label parent? (bareLabel label.value) = label.value :=
        Option.some.inj hroot
      simp [hlabel]
  | @binary label left right ts us prob p q rule first second ih ih' =>
      have hlabel : Labelling.parent.label parent? (bareLabel label.value) = label.value :=
        Option.some.inj hroot
      obtain ⟨hleft, hright⟩ := (hrules _ rule).binary
      have ht := @ih (some (bareLabel label.value)) (congrArg some hleft.symm)
      have hu := @ih' (some (bareLabel label.value)) (congrArg some hright.symm)
      rw [Tree.withBareLabels_branch, Tree.withLabels_branch]
      simp only [List.map_cons, List.map_nil, ht, hu, hlabel]

/-- Under its bare labels a tree belongs to any grammar to which the rules do. -/
theorem Licenses.exists_withBareLabels (h : g.Licenses t v)
    (hrules : ∀ r ∈ g.rules, r.toProduction.withBareLabels ∈ g'.rules.map Rule.toProduction) :
    ∃ w, g'.Licenses t.withBareLabels w := by
  induction h with
  | lexical rule =>
      obtain ⟨prob, hrule⟩ := exists_rule_of_mem (hrules _ rule)
      rw [Tree.withBareLabels_branch]
      exact ⟨prob, .lexical hrule⟩
  | binary rule _ _ ih ih' =>
      obtain ⟨prob, hrule⟩ := exists_rule_of_mem (hrules _ rule)
      obtain ⟨p, hp⟩ := ih
      obtain ⟨q, hq⟩ := ih'
      rw [Tree.withBareLabels_branch] at hp hq
      refine ⟨prob * p * q, ?_⟩
      rw [Tree.withBareLabels_branch, List.map_cons, List.map_singleton,
        Tree.withBareLabels_branch, Tree.withBareLabels_branch]
      exact .binary hrule hp hq

end

/-! ### Estimated grammars -/

section

variable {trees : List (Tree String String)} {annotated bare : Grammar}

theorem isAnnotated_of_estimate (hlabels : ∀ t ∈ trees, ∀ label ∈ t.labels, IsBare label)
    (h : estimate .parent trees = .ok annotated) :
    ∀ r ∈ annotated.rules, r.toProduction.IsAnnotated := by
  intro r hr
  obtain ⟨t, ht, used, hused, hmem⟩ :=
    (mem_productions_of_estimate h).mp (List.mem_map_of_mem hr)
  exact (Tree.productions_parent (hlabels t ht) hused).1 r.toProduction hmem

theorem withBareLabels_mem_of_estimate (hlabels : ∀ t ∈ trees, ∀ label ∈ t.labels, IsBare label)
    (h : estimate .parent trees = .ok annotated) (hbare : estimate .bare trees = .ok bare) :
    ∀ r ∈ annotated.rules, r.toProduction.withBareLabels ∈ bare.rules.map Rule.toProduction := by
  intro r hr
  obtain ⟨t, ht, used, hused, hmem⟩ :=
    (mem_productions_of_estimate h).mp (List.mem_map_of_mem hr)
  have husedBare := (Tree.productions_parent (hlabels t ht) hused).2
  exact (mem_productions_of_estimate hbare).mpr
    ⟨t, ht, _, husedBare, List.mem_map_of_mem hmem⟩

theorem isBare_start_of_estimate {labelling : Labelling} {g : Grammar}
    (hlabels : ∀ t ∈ trees, ∀ label ∈ t.labels, IsBare label)
    (h : estimate labelling trees = .ok g) : IsBare g.start := by
  obtain ⟨t, ht, hroot⟩ := List.mem_filterMap.mp (start_mem_of_estimate h)
  exact hlabels t ht g.start (Tree.mem_labels_of_rootLabel? hroot)

/-- A parse by a grammar with parent labels has the bare start symbol at its root, every other label
of it is the bare label of its constituent with that of the constituent above, and both grammars
agree on the bare tree: annotation gives the parse back, and the bare grammar has the tree and
parses the sentence. -/
theorem parse_estimate_parent {text : List Char} {tokens : List String} {parse : Parse}
    (hread : Treebank.read text = .ok trees)
    (hcaret : ∀ t ∈ trees, ∀ label ∈ t.labels, '^' ∉ label.toList)
    (hannotated : estimate .parent trees = .ok annotated)
    (hbare : estimate .bare trees = .ok bare) (hparse : annotated.parse tokens = some parse) :
    annotated.start = bare.start ∧ '^' ∉ bare.start.toList ∧
      parse.tree.rootLabel? = some bare.start ∧
      (∀ edge ∈ parse.tree.edges, edge.2 = bareLabel edge.2 ++ "^" ++ bareLabel edge.1) ∧
      parse.tree.withBareLabels.withLabels .parent none = parse.tree ∧
      (∃ v, bare.Licenses parse.tree.withBareLabels v) ∧
      (bare.parse tokens).isSome := by
  have hlabels : ∀ t ∈ trees, ∀ label ∈ t.labels, IsBare label := fun t ht label hlabel =>
    ⟨((Treebank.ofAtoms_of_read hread t ht).isAtom_of_mem_labels label hlabel).ne_empty,
      hcaret t ht label hlabel⟩
  have hstart : annotated.start = bare.start := start_eq_of_estimate hannotated hbare
  have hstartBare : IsBare bare.start := isBare_start_of_estimate hlabels hbare
  have hrules := isAnnotated_of_estimate hlabels hannotated
  have hderives := (annotated.parsesOver_of_parse tokens hparse).derives
  have hroot : parse.tree.rootLabel? = some bare.start := by
    rw [hderives.rootLabel?_eq, hstart]
  have hbareRoot : bareLabel bare.start = bare.start :=
    Labelling.bareLabel_of_not_mem hstartBare.not_mem
  obtain ⟨w, hw⟩ := hderives.licensed.exists_withBareLabels
    (withBareLabels_mem_of_estimate hlabels hannotated hbare)
  refine ⟨hstart, hstartBare.not_mem, hroot, hderives.licensed.edge_eq hrules, ?_, ⟨w, hw⟩, ?_⟩
  · refine hderives.licensed.withLabels_withBareLabels hrules ?_
    rw [hroot, Option.map_some, Function.comp_apply, Labelling.label_none, hbareRoot]
  · have hwords : parse.tree.withBareLabels.leaves = tokens := by
      rw [Tree.leaves_withBareLabels, hderives.leaves_eq, Span.slice_full]
    have hbareDerives : bare.Derives bare.start tokens parse.tree.withBareLabels w :=
      ⟨hw, by rw [Tree.rootLabel?_withBareLabels, hroot, Option.map_some, hbareRoot], hwords⟩
    obtain ⟨_, hparse', _⟩ := bare.exists_parse_of_derives tokens hbareDerives
    simp [hparse']

end

/-- Two trees in which the label `NP` stands under two others. -/
def nounPhrases : List Char :=
  "(S (NP (D a) (N dog)) (V barks))
  (S (NP (D a) (N cat)) (VP (V saw) (NP (D the) (N bird))))".toList

/-- A sentence of neither tree: the verb of the first one goes with a noun of the second. -/
theorem parse_estimate_parent_nounPhrases :
    ∃ trees annotated bare parse, Treebank.read nounPhrases = .ok trees ∧
      (∀ t ∈ trees, ∀ label ∈ t.labels, '^' ∉ label.toList) ∧
      estimate .parent trees = .ok annotated ∧ estimate .bare trees = .ok bare ∧
      annotated.parse ["a", "bird", "barks"] = some parse ∧
      annotated.start = bare.start ∧ '^' ∉ bare.start.toList ∧
      parse.tree.rootLabel? = some bare.start ∧
      (∀ edge ∈ parse.tree.edges, edge.2 = bareLabel edge.2 ++ "^" ++ bareLabel edge.1) ∧
      parse.tree.withBareLabels.withLabels .parent none = parse.tree ∧
      (∃ v, bare.Licenses parse.tree.withBareLabels v) ∧
      (bare.parse ["a", "bird", "barks"]).isSome := by
  have hrun : ((Treebank.read nounPhrases).toOption.any fun trees =>
      decide (∀ t ∈ trees, ∀ label ∈ t.labels, '^' ∉ label.toList) &&
        (estimate .parent trees).toOption.any fun annotated =>
          (estimate .bare trees).toOption.isSome &&
            (annotated.parse ["a", "bird", "barks"]).isSome) = true := by
    decide +kernel
  cases hread : Treebank.read nounPhrases with
  | error fault =>
      rw [hread] at hrun
      contradiction
  | ok trees =>
      cases hannotated : estimate .parent trees with
      | error error => simp [Except.toOption, hread, hannotated] at hrun
      | ok annotated =>
          cases hbare : estimate .bare trees with
          | error error => simp [Except.toOption, hread, hannotated, hbare] at hrun
          | ok bare =>
              simp only [Except.toOption, hread, hannotated, hbare, Option.any_some,
                Option.isSome_some, Bool.true_and, Bool.and_eq_true, decide_eq_true_eq] at hrun
              obtain ⟨hcaret, hsome⟩ := hrun
              obtain ⟨parse, hparse⟩ := Option.isSome_iff_exists.mp hsome
              exact ⟨trees, annotated, bare, parse, rfl, hcaret, hannotated, hbare, hparse,
                parse_estimate_parent hread hcaret hannotated hbare hparse⟩

end Grammar

end ChartParser
