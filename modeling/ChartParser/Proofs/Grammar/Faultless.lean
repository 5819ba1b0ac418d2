import ChartParser.Grammar.Basic
import Mathlib.Data.List.Nodup

/-! # Which rule lists make a grammar

A rule list and a start symbol make a grammar exactly when nothing is wrong with them, and the
grammar is then determined by the two. In particular a grammar can be made again from its own rules,
and the order of the rules does not decide whether they make a grammar. -/

namespace ChartParser

open Std (ExtTreeSet)

/-- A list without a fault passes every check, if no production of it has been seen before. -/
theorem firstFault_eq_none {seen : ExtTreeSet Production} {rules : List Rule}
    (h : Faultless rules) (hseen : ∀ r ∈ rules, r.toProduction ∉ seen) :
    firstFault seen rules = none := by
  induction rules generalizing seen with
  | nil => rfl
  | cons r rules ih =>
      obtain ⟨hprob, hprobs⟩ := List.forall_mem_cons.mp h.isProbability
      obtain ⟨hnormal, hnormals⟩ := List.forall_mem_cons.mp h.isNormal
      obtain ⟨hnew, hnodup⟩ := List.nodup_cons.mp h.nodup
      obtain ⟨hr, hrs⟩ := List.forall_mem_cons.mp hseen
      have hnone : r.shape?.isNone = false := by simpa using hnormal
      have htail : ∀ r' ∈ rules, r'.toProduction ∉ seen.insert r.toProduction := by
        intro r' hr'
        have hne : r.toProduction ≠ r'.toProduction := by
          intro heq
          exact hnew (heq ▸ List.mem_map_of_mem hr')
        simpa [hne] using hrs r' hr'
      simpa [firstFault, hprob, hr, hnone] using ih ⟨hprobs, hnormals, hnodup⟩ htail

theorem Faultless.perm {rules rules' : List Rule} (h : Faultless rules)
    (hperm : rules.Perm rules') : Faultless rules' where
  isProbability r hr := h.isProbability r (hperm.mem_iff.mpr hr)
  isNormal r hr := h.isNormal r (hperm.mem_iff.mpr hr)
  nodup := (hperm.map Rule.toProduction).nodup_iff.mp h.nodup

namespace Grammar

/-- A grammar has nothing beside its start symbol and its rules. -/
theorem ext {g g' : Grammar} (hstart : g.start = g'.start) (hrules : g.rules = g'.rules) :
    g = g' := by
  obtain ⟨start, rules, index, index_eq, _, _, _⟩ := g
  obtain ⟨start', rules', index', index_eq', _, _, _⟩ := g'
  simp only at hstart hrules
  subst hstart hrules index_eq index_eq'
  rfl

/-- Nothing but the checks stands between a rule list and its grammar. -/
theorem exists_ofRules_iff {rules : List Rule} {start : String} :
    (∃ g, ofRules rules start = .ok g) ↔ start ≠ "" ∧ rules ≠ [] ∧ Faultless rules := by
  constructor
  · rintro ⟨g, h⟩
    unfold ofRules at h
    split at h
    · contradiction
    · next hempty =>
      obtain ⟨hstart, hrules⟩ := not_or.mp hempty
      split at h
      · contradiction
      · next hfault => exact ⟨hstart, hrules, (faultless_of_firstFault hfault).1⟩
  · rintro ⟨hstart, hrules, hfaultless⟩
    have hfault : firstFault ∅ rules = none := firstFault_eq_none hfaultless (by simp)
    unfold ofRules
    rw [dif_neg (not_or.mpr ⟨hstart, hrules⟩)]
    split
    · next hsome => simp [hfault] at hsome
    · exact ⟨_, rfl⟩

theorem eq_of_ofRules {rules : List Rule} {start : String} {g : Grammar}
    (h : ofRules rules start = .ok g) : g.rules = rules ∧ g.start = start := by
  unfold ofRules at h
  split at h
  · contradiction
  · split at h
    · contradiction
    · obtain rfl := Except.ok.inj h
      exact ⟨rfl, rfl⟩

theorem ofRules_eq_ok_iff {rules : List Rule} {start : String} {g : Grammar} :
    ofRules rules start = .ok g ↔ g.rules = rules ∧ g.start = start := by
  constructor
  · exact eq_of_ofRules
  · rintro ⟨rfl, rfl⟩
    obtain ⟨g', hg'⟩ := exists_ofRules_iff.mpr ⟨g.start_ne_empty, g.rules_ne_nil, g.faultless⟩
    obtain ⟨hrules, hstart⟩ := eq_of_ofRules hg'
    rwa [ext hstart hrules] at hg'

theorem exists_ofRules_perm {rules rules' : List Rule} {start : String} (h : rules.Perm rules')
    (hrules : ∃ g, ofRules rules start = .ok g) : ∃ g, ofRules rules' start = .ok g := by
  obtain ⟨hstart, hne, hfaultless⟩ := exists_ofRules_iff.mp hrules
  refine exists_ofRules_iff.mpr ⟨hstart, ?_, hfaultless.perm h⟩
  rintro rfl
  exact hne h.eq_nil

end Grammar

end ChartParser
