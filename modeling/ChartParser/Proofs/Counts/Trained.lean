import ChartParser.Chart.Parse
import ChartParser.Counts.Estimate
import ChartParser.Proofs.Counts.Tally
import ChartParser.Proofs.GrammarText.Document
import ChartParser.Proofs.Treebank.Atoms

/-! # Trained grammars read back

The labels and words of a grammar that was estimated from a treebank text are atoms of that text, or
two atoms with a caret between them. Neither a blank nor a line end occurs in them, so the text of
the grammar is read back whole. -/

namespace ChartParser

open Std (ExtTreeMap)
open Treebank

/-! ### Atoms as symbols of a grammar -/

theorem Treebank.IsAtom.writable {name : String} (h : IsAtom name) : Writable name where
  ne_empty := h.ne_empty
  not_mem hmem := absurd (h.not_isBlank '\n' hmem) (by decide)

theorem Treebank.IsAtom.endsBlank_eq_false {name : String} (h : IsAtom name) :
    Text.endsBlank name.toList = false :=
  Text.endsBlank_eq_false_iff.mpr fun c hc => h.not_isBlank c (List.mem_of_getLast? hc)

/-- A label under its parent is an atom as well: the caret is no blank and no parenthesis. -/
theorem Labelling.isAtom_label {labelling : Labelling} {parent? : Option String} {bare : String}
    (hparent : ∀ above ∈ parent?, IsAtom above) (hbare : IsAtom bare) :
    IsAtom (labelling.label parent? bare) := by
  cases labelling with
  | bare => exact hbare
  | parent =>
      cases parent? with
      | none => exact hbare
      | some above =>
          have habove := hparent above rfl
          have hchars : (Labelling.parent.label (some above) bare).toList =
              bare.toList ++ '^' :: above.toList := by
            simp [label]
          refine ⟨?_, ?_⟩
          · intro hempty
            simp [hempty] at hchars
          · intro c hc
            rw [hchars, List.mem_append, List.mem_cons] at hc
            rcases hc with hc | rfl | hc
            · exact hbare.chars c hc
            · decide
            · exact habove.chars c hc

/-- A production whose labels and words are atoms. -/
structure Production.OfAtoms (p : Production) : Prop where
  head : IsAtom p.head
  body : ∀ x ∈ p.body, IsAtom x.name

theorem Production.OfAtoms.writable {p : Production} (h : p.OfAtoms) : p.Writable where
  head := h.head.writable
  body x hx := (h.body x hx).writable

/-! ### Productions of a tree -/

theorem Tree.ofAtoms_of_productions {labelling : Labelling} {parent? : Option String}
    {t : Tree String String} {ps : List Production} (hparent : ∀ above ∈ parent?, IsAtom above)
    (ht : t.OfAtoms) (h : t.productions labelling parent? = .ok ps) : ∀ p ∈ ps, p.OfAtoms := by
  fun_induction Tree.productions labelling parent? t generalizing ps with
  | case1 => contradiction
  | case2 parent? label word =>
      cases h
      obtain ⟨hlabel, hword⟩ := ofAtoms_branch_iff.mp ht
      rw [List.forall_mem_singleton, ofAtoms_leaf_iff] at hword
      have hproduction : Production.OfAtoms
          ⟨labelling.label parent? label.value, [.terminal word.value]⟩ :=
        ⟨labelling.isAtom_label hparent hlabel, List.forall_mem_singleton.mpr hword⟩
      exact List.forall_mem_singleton.mpr hproduction
  | case3 =>
      rename_i parent? label l ls r rs under ihleft ihright
      obtain ⟨left, hleft, h⟩ := bind_eq_ok_iff.mp h
      obtain ⟨right, hright, h⟩ := bind_eq_ok_iff.mp h
      cases h
      obtain ⟨hlabel, hchildren⟩ := ofAtoms_branch_iff.mp ht
      obtain ⟨hl, hchildren⟩ := List.forall_mem_cons.mp hchildren
      have hr := List.forall_mem_singleton.mp hchildren
      have habove : ∀ above ∈ some label.value, IsAtom above := by simpa using hlabel
      have hleftLabel : IsAtom (labelling.label (some label.value) l.value) :=
        labelling.isAtom_label habove (ofAtoms_branch_iff.mp hl).1
      have hrightLabel : IsAtom (labelling.label (some label.value) r.value) :=
        labelling.isAtom_label habove (ofAtoms_branch_iff.mp hr).1
      have hproduction : Production.OfAtoms ⟨labelling.label parent? label.value,
          [.nonterminal (labelling.label (some label.value) l.value),
            .nonterminal (labelling.label (some label.value) r.value)]⟩ := by
        refine ⟨labelling.isAtom_label hparent hlabel, List.forall_mem_cons.mpr ⟨hleftLabel, ?_⟩⟩
        exact List.forall_mem_singleton.mpr hrightLabel
      refine List.forall_mem_cons.mpr ⟨hproduction, List.forall_mem_append.mpr ?_⟩
      exact ⟨ihleft habove hl hleft, ihright habove hr hright⟩
  | case4 => contradiction

/-! ### Counts -/

namespace RuleCounts

/-- Counts of productions and roots that are made of atoms. -/
structure OfAtoms (counts : RuleCounts) : Prop where
  productions : ∀ p ∈ counts.productions, p.OfAtoms
  roots : ∀ root ∈ counts.roots, IsAtom root

theorem mem_of_mem_toList {α : Type} [Ord α] [Std.TransOrd α] [Std.LawfulEqOrd α]
    {counts : ExtTreeMap α Nat} {entry : α × Nat} (h : entry ∈ counts.toList) :
    entry.1 ∈ counts := by
  have hget := ExtTreeMap.mem_toList_iff_getElem?_eq_some.mp h
  rw [ExtTreeMap.mem_iff_isSome_getElem?, hget]
  rfl

theorem OfAtoms.countProduction {counts : RuleCounts} {p : Production} (h : counts.OfAtoms)
    (hp : p.OfAtoms) : (counts.countProduction p).OfAtoms where
  productions q hq := by
    rcases mem_tally_iff.mp hq with rfl | hq
    · exact hp
    · exact h.productions q hq
  roots := h.roots

theorem OfAtoms.foldl_countProduction {counts : RuleCounts} {ps : List Production}
    (h : counts.OfAtoms) (hps : ∀ p ∈ ps, p.OfAtoms) :
    (ps.foldl RuleCounts.countProduction counts).OfAtoms := by
  induction ps generalizing counts with
  | nil => exact h
  | cons p ps ih =>
      obtain ⟨hp, hps⟩ := List.forall_mem_cons.mp hps
      exact ih (h.countProduction hp) hps

theorem OfAtoms.countTree {counts counts' : RuleCounts} {labelling : Labelling}
    {t : Tree String String} (h : counts.OfAtoms) (ht : t.OfAtoms)
    (hcount : counts.countTree labelling t = .ok counts') : counts'.OfAtoms := by
  cases ht with
  | leaf => contradiction
  | branch hlabel hchildren =>
      obtain ⟨used, hused, heq⟩ := bind_eq_ok_iff.mp hcount
      cases heq
      have hproductions : ∀ p ∈ used, p.OfAtoms :=
        Tree.ofAtoms_of_productions (by simp) (.branch hlabel hchildren) hused
      have hcounted := h.foldl_countProduction hproductions
      refine ⟨hcounted.productions, ?_⟩
      intro root hroot
      rcases mem_tally_iff.mp hroot with rfl | hroot
      · exact hlabel
      · exact hcounted.roots root hroot

theorem OfAtoms.countTrees {counts counts' : RuleCounts} {labelling : Labelling}
    {ts : List (Tree String String)} (h : counts.OfAtoms) (hts : ∀ t ∈ ts, t.OfAtoms)
    (hcount : counts.countTrees labelling ts = .ok counts') : counts'.OfAtoms := by
  induction ts generalizing counts with
  | nil =>
      cases hcount
      exact h
  | cons t ts ih =>
      obtain ⟨ht, hts⟩ := List.forall_mem_cons.mp hts
      obtain ⟨next, hnext, hrest⟩ := bind_eq_ok_iff.mp hcount
      exact ih (h.countTree ht hnext) hts hrest

theorem foldl_moreFrequent_mem (root : String × Nat) (roots : List (String × Nat)) :
    roots.foldl moreFrequent root ∈ root :: roots := by
  induction roots generalizing root with
  | nil => simp
  | cons next roots ih =>
      have hstep : moreFrequent root next = root ∨ moreFrequent root next = next := by
        unfold moreFrequent
        split
        · exact .inr rfl
        · exact .inl rfl
      rw [List.foldl_cons]
      rcases List.mem_cons.mp (ih (moreFrequent root next)) with hfirst | hlater
      · rw [hfirst]
        rcases hstep with hroot | hnext
        · simp [hroot]
        · simp [hnext]
      · exact List.mem_cons_of_mem _ (List.mem_cons_of_mem _ hlater)

/-- The start symbol is one of the counted roots. -/
theorem start?_mem {counts : RuleCounts} {start : String} (h : counts.start? = some start) :
    start ∈ counts.roots := by
  unfold start? at h
  split at h
  · contradiction
  · next root roots hroots =>
    cases h
    apply mem_of_mem_toList
    rw [hroots]
    exact foldl_moreFrequent_mem root roots

theorem OfAtoms.rules {counts : RuleCounts} (h : counts.OfAtoms) :
    ∀ r ∈ counts.rules, r.toProduction.OfAtoms := by
  intro r hr
  obtain ⟨⟨p, n⟩, hentry, rfl⟩ := List.mem_map.mp hr
  exact h.productions p (mem_of_mem_toList hentry)

theorem ofAtoms_empty : empty.OfAtoms where
  productions p hp := by simp [empty] at hp
  roots root hroot := by simp [empty] at hroot

end RuleCounts

namespace Grammar

/-- A grammar whose labels and words are atoms. -/
structure OfAtoms (g : Grammar) : Prop where
  start : IsAtom g.start
  rules : ∀ r ∈ g.rules, r.toProduction.OfAtoms

theorem OfAtoms.writable {g : Grammar} (h : g.OfAtoms) : g.Writable where
  start := h.start.writable
  rules r hr := (h.rules r hr).writable

theorem ofAtoms_of_toGrammar {counts : RuleCounts} {g : Grammar} (h : counts.OfAtoms)
    (hg : counts.toGrammar = .ok g) : g.OfAtoms := by
  unfold RuleCounts.toGrammar at hg
  split at hg
  · contradiction
  · next start hstart =>
    obtain ⟨hrules, rfl⟩ := eq_of_ofRules hg
    exact ⟨h.roots g.start (RuleCounts.start?_mem hstart), hrules ▸ h.rules⟩

theorem estimate_eq_ok_iff {labelling : Labelling} {trees : List (Tree String String)}
    {g : Grammar} : estimate labelling trees = .ok g ↔
      ∃ counts, RuleCounts.empty.countTrees labelling trees = .ok counts ∧
        counts.toGrammar = .ok g := by
  unfold estimate
  cases RuleCounts.empty.countTrees labelling trees with
  | error fault => simp
  | ok counts => simp [mapError_eq_ok_iff]

/-- A grammar estimated from trees made of atoms is made of atoms. -/
theorem ofAtoms_of_estimate {labelling : Labelling} {trees : List (Tree String String)}
    {g : Grammar} (htrees : ∀ t ∈ trees, t.OfAtoms) (h : estimate labelling trees = .ok g) :
    g.OfAtoms := by
  obtain ⟨counts, hcounts, hg⟩ := estimate_eq_ok_iff.mp h
  exact ofAtoms_of_toGrammar (RuleCounts.ofAtoms_empty.countTrees htrees hcounts) hg

/-- What was trained is read back: the text of an estimated grammar describes a grammar with the
same start symbol and rules, and with the same parse of every sentence. -/
theorem ofText_render_estimate {text : List Char} {trees : List (Tree String String)}
    {labelling : Labelling} {g : Grammar} (hread : Treebank.read text = .ok trees)
    (hestimate : estimate labelling trees = .ok g) :
    ∃ g', ofText g.render = .ok g' ∧ g'.start = g.start ∧ g'.rules = g.rules ∧
      ∀ tokens, g'.parse tokens = g.parse tokens := by
  have hatoms := ofAtoms_of_estimate (ofAtoms_of_read hread) hestimate
  refine ⟨g, ?_, rfl, rfl, fun _ => rfl⟩
  exact ofText_render_of_writable hatoms.writable hatoms.start.endsBlank_eq_false

/-- A tree whose labels and words are out of place in grammar text, and one of its parts alone. -/
def oddTreebank : List Char := "(%start (->[| #) (\\ \"\")) (->[| #)".toList

/-- The labels stay apart under their parents, and all of them are written and read. -/
theorem ofText_render_estimate_oddTreebank :
    ∃ trees g, Treebank.read oddTreebank = .ok trees ∧ estimate .parent trees = .ok g ∧
      ∃ g', ofText g.render = .ok g' ∧ g'.start = g.start ∧ g'.rules = g.rules ∧
        ∀ tokens, g'.parse tokens = g.parse tokens := by
  have htrained : ((Treebank.read oddTreebank).toOption.bind fun trees =>
      (estimate .parent trees).toOption).isSome = true := by
    decide +kernel
  cases hread : Treebank.read oddTreebank with
  | error fault =>
      rw [hread] at htrained
      contradiction
  | ok trees =>
      rw [hread] at htrained
      cases hestimate : estimate .parent trees with
      | error error =>
          simp [Except.toOption, hestimate] at htrained
      | ok g => exact ⟨trees, g, rfl, hestimate, ofText_render_estimate hread hestimate⟩

end Grammar

end ChartParser
