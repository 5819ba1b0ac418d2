import ChartParser.Proofs.Counts.Constituents
import ChartParser.Proofs.Counts.ParentLabels

/-! # Bare labels of parses

The bare labels of a parse by a grammar with parent labels come from the constituents of the
treebank. A caret in a label of the treebank is not told apart from the one that annotation puts
behind it: such a label comes back as its part in front of the first caret, or with the label of its
parent if it starts with a caret. All other labels come back as they were. -/

namespace ChartParser

open Labelling (bareLabel)

/-! ### Labels that come back -/

namespace Labelling

/-- A label that starts with a caret is its own bare label. -/
theorem bareLabel_of_head {label : String} (h : label.toList.head? = some '^') :
    bareLabel label = label := by
  obtain ⟨rest, hrest⟩ := List.head?_eq_some_iff.mp h
  simp [bareLabel, hrest]

theorem eq_or_not_mem_bareLabel (label : String) :
    bareLabel label = label ∧ (label = "" ∨ label.toList.head? = some '^') ∨
      '^' ∉ (bareLabel label).toList := by
  unfold bareLabel
  split
  · next hnil =>
    left
    refine ⟨rfl, ?_⟩
    cases hchars : label.toList with
    | nil => exact .inl (String.toList_eq_nil_iff.mp hchars)
    | cons c rest =>
        rw [hchars, List.takeWhile_cons] at hnil
        split at hnil
        · contradiction
        · next hcaret => exact .inr (by simpa using hcaret)
  · right
    intro hmem
    rw [String.toList_ofList] at hmem
    simpa using List.mem_takeWhile_imp hmem

/-- A bare label is the label itself if no caret divides it. -/
theorem bareLabel_eq_self_iff {label : String} :
    bareLabel label = label ↔ '^' ∉ label.toList ∨ label.toList.head? = some '^' := by
  constructor
  · intro h
    rcases eq_or_not_mem_bareLabel label with ⟨_, rfl | hhead⟩ | hmem
    · exact .inl (by simp)
    · exact .inr hhead
    · exact .inl (h ▸ hmem)
  · rintro (hmem | hhead)
    · exact bareLabel_of_not_mem hmem
    · exact bareLabel_of_head hhead

theorem bareLabel_append_eq_iff {bare : String} (hne : bare ≠ "") (above : String) :
    bareLabel (bare ++ "^" ++ above) = bare ↔ '^' ∉ bare.toList := by
  constructor
  · intro h
    rcases eq_or_not_mem_bareLabel (bare ++ "^" ++ above) with ⟨hself, _⟩ | hmem
    · -- the annotated label is longer than the bare one
      have hlength := congrArg String.length (h.symm.trans hself)
      have hcaret : "^".length = 1 := rfl
      rw [String.length_append, String.length_append] at hlength
      omega
    · rwa [h] at hmem
  · exact fun h => IsBare.bareLabel_append ⟨hne, h⟩ above

end Labelling

namespace Constituent

/-- The label of the constituent comes back when the caret and the label above are taken off. -/
def Restored (c : Constituent) : Prop :=
  '^' ∉ c.label.toList ∨ c.parent? = none ∧ c.label.toList.head? = some '^'

instance : DecidablePred Restored := fun c =>
  inferInstanceAs (Decidable ('^' ∉ c.label.toList ∨ c.parent? = none ∧ _))

theorem bareLabel_eq_label_iff {c : Constituent} (hne : c.label ≠ "") :
    bareLabel (Labelling.parent.label c.parent? c.label) = c.label ↔ c.Restored := by
  cases hparent : c.parent? with
  | none => simpa [Restored, hparent] using Labelling.bareLabel_eq_self_iff
  | some above =>
      rw [Labelling.label_parent_some, Labelling.bareLabel_append_eq_iff hne]
      simp [Restored, hparent]

end Constituent

theorem Tree.label_mem_of_mem_constituents {t : Tree String String} {parent? : Option String}
    {c : Constituent} (h : c ∈ t.constituents parent?) : c.label ∈ t.labels := by
  induction t generalizing parent? with
  | leaf word => simp at h
  | branch label children ih =>
      rw [constituents_branch, List.mem_cons, List.mem_flatMap] at h
      rw [labels_branch, List.mem_cons, List.mem_flatMap]
      rcases h with rfl | ⟨t, ht, hmem⟩
      · exact .inl rfl
      · exact .inr ⟨t, ht, ih t ht hmem⟩

namespace Grammar

variable {trees : List (Tree String String)} {g : Grammar}

/-- The rules of an estimated grammar stand at constituents of its trees. -/
theorem exists_constituent_of_rule {labelling : Labelling} (h : estimate labelling trees = .ok g)
    {r : Rule} (hr : r ∈ g.rules) :
    ∃ t ∈ trees, ∃ c ∈ t.constituents none, r.toProduction = c.production labelling := by
  obtain ⟨t, ht, used, hused, hmem⟩ :=
    (mem_productions_of_estimate h).mp (List.mem_map_of_mem hr)
  obtain ⟨_, rfl⟩ := Tree.productions_eq_ok_iff.mp hused
  obtain ⟨c, hc, heq⟩ := List.mem_map.mp hmem
  exact ⟨t, ht, c, hc, heq.symm⟩

/-- Every bare label of a parse is taken from the annotated label of a constituent of the treebank,
and it is the label of that constituent exactly if no caret is in it, or the constituent is a root
and starts with one. So if this holds of all constituents, the bare labels of every parse occur in
the treebank. -/
theorem labels_withBareLabels_parse {text : List Char} {tokens : List String} {parse : Parse}
    (hread : Treebank.read text = .ok trees) (hestimate : estimate .parent trees = .ok g)
    (hparse : g.parse tokens = some parse) :
    (∀ label ∈ parse.tree.withBareLabels.labels, ∃ t ∈ trees, ∃ c ∈ t.constituents none,
      label = bareLabel (Labelling.parent.label c.parent? c.label) ∧
        (label = c.label ↔ c.Restored)) ∧
    ((∀ t ∈ trees, ∀ c ∈ t.constituents none, c.Restored) →
      ∀ label ∈ parse.tree.withBareLabels.labels, ∃ t ∈ trees, label ∈ t.labels) := by
  have horigin : ∀ label ∈ parse.tree.withBareLabels.labels,
      ∃ t ∈ trees, ∃ c ∈ t.constituents none,
        label = bareLabel (Labelling.parent.label c.parent? c.label) ∧
          (label = c.label ↔ c.Restored) := by
    intro label hlabel
    rw [Tree.labels_withBareLabels, List.mem_map] at hlabel
    obtain ⟨annotated, hannotated, rfl⟩ := hlabel
    have hlicensed := (g.derives_of_parse tokens hparse).licensed
    obtain ⟨r, hr, rfl⟩ := hlicensed.exists_rule_of_mem_labels hannotated
    obtain ⟨t, ht, c, hc, hproduction⟩ := exists_constituent_of_rule hestimate hr
    have hhead : r.head = Labelling.parent.label c.parent? c.label :=
      congrArg Production.head hproduction
    have hatom := (Treebank.ofAtoms_of_read hread t ht).isAtom_of_mem_labels c.label
      (Tree.label_mem_of_mem_constituents hc)
    refine ⟨t, ht, c, hc, by rw [hhead], ?_⟩
    rw [hhead]
    exact Constituent.bareLabel_eq_label_iff hatom.ne_empty
  refine ⟨horigin, fun hrestored label hlabel => ?_⟩
  obtain ⟨t, ht, c, hc, _, hiff⟩ := horigin label hlabel
  refine ⟨t, ht, ?_⟩
  rw [hiff.mpr (hrestored t ht c hc)]
  exact Tree.label_mem_of_mem_constituents hc

/-- A check of the trees of a text and of the grammar estimated from them. -/
theorem exists_estimate_of_check {text : List Char} {labelling : Labelling}
    {check : List (Tree String String) → Grammar → Bool}
    (h : ((Treebank.read text).toOption.any fun trees =>
      (estimate labelling trees).toOption.any (check trees)) = true) :
    ∃ trees g, Treebank.read text = .ok trees ∧ estimate labelling trees = .ok g ∧
      check trees g = true := by
  cases hread : Treebank.read text with
  | error fault =>
      rw [hread] at h
      contradiction
  | ok trees =>
      cases hestimate : estimate labelling trees with
      | error error => simp [Except.toOption, hread, hestimate] at h
      | ok g =>
          refine ⟨trees, g, rfl, hestimate, ?_⟩
          simpa [Except.toOption, hread, hestimate] using h

/-- Two trees with a caret in front of their root label and nowhere else. -/
def caretRoots : List Char := "(^S (A a) (B b)) (^S (A c) (B d))".toList

/-- The labels of a sentence that is in neither tree come back, that of the root included. -/
theorem labels_withBareLabels_parse_caretRoots :
    ∃ trees g parse, Treebank.read caretRoots = .ok trees ∧ estimate .parent trees = .ok g ∧
      g.parse ["a", "d"] = some parse ∧
      (∀ t ∈ trees, ∀ c ∈ t.constituents none, c.Restored) ∧
      (∀ label ∈ parse.tree.withBareLabels.labels, ∃ t ∈ trees, ∃ c ∈ t.constituents none,
        label = bareLabel (Labelling.parent.label c.parent? c.label) ∧
          (label = c.label ↔ c.Restored)) ∧
      ∀ label ∈ parse.tree.withBareLabels.labels, ∃ t ∈ trees, label ∈ t.labels := by
  have hcheck : ((Treebank.read caretRoots).toOption.any fun trees =>
      (estimate .parent trees).toOption.any fun g =>
        (g.parse ["a", "d"]).isSome &&
          decide (∀ t ∈ trees, ∀ c ∈ t.constituents none, c.Restored)) = true := by
    decide +kernel
  obtain ⟨trees, g, hread, hestimate, h⟩ := exists_estimate_of_check hcheck
  rw [Bool.and_eq_true, Option.isSome_iff_exists, decide_eq_true_eq] at h
  obtain ⟨⟨parse, hparse⟩, hrestored⟩ := h
  obtain ⟨horigin, hoccurs⟩ := labels_withBareLabels_parse hread hestimate hparse
  exact ⟨trees, g, parse, hread, hestimate, hparse, hrestored, horigin, hoccurs hrestored⟩

/-- A tree with a caret inside a label. -/
def caretInside : List Char := "(S (NP^X a) (B b))".toList

/-- The sentence of the tree is parsed, and one of the bare labels is none of the treebank's. -/
theorem exists_label_not_mem_treebank :
    ∃ trees g parse label, Treebank.read caretInside = .ok trees ∧
      estimate .parent trees = .ok g ∧ g.parse ["a", "b"] = some parse ∧
      label ∈ parse.tree.withBareLabels.labels ∧ ∀ t ∈ trees, label ∉ t.labels := by
  have hcheck : ((Treebank.read caretInside).toOption.any fun trees =>
      (estimate .parent trees).toOption.any fun g =>
        (g.parse ["a", "b"]).any fun parse =>
          decide ("NP" ∈ parse.tree.withBareLabels.labels ∧ ∀ t ∈ trees, "NP" ∉ t.labels)) =
      true := by
    decide +kernel
  obtain ⟨trees, g, hread, hestimate, h⟩ := exists_estimate_of_check hcheck
  obtain ⟨parse, hparse, hlabel⟩ := (Option.any_eq_true _ _).mp h
  exact ⟨trees, g, parse, "NP", hread, hestimate, hparse, of_decide_eq_true hlabel⟩

end Grammar

end ChartParser
