import ChartParser.Proofs.Binary64.RoundingError
import ChartParser.Proofs.Grammar.Faultless
import ChartParser.Proofs.Grammar.Index

/-! # Refused rule lists

A rule list is refused for the first rule that is wrong by itself or in its place. One rule may be
wrong in several ways: an improbable rule is refused as such, whatever else is wrong with it, and
a repeated rule whatever its form. A list that is not refused is found again in the indexes of its
grammar, look-up by look-up. -/

namespace ChartParser

open Std (ExtTreeSet)

/-! ### One rule behind others -/

namespace Rule

/-- The probability is a number above zero and not above one. -/
def IsProbable (r : Rule) : Prop :=
  r.prob.isNaN = false ∧ r.prob.isInfinite = false ∧ 0 < r.prob.toRat ∧ r.prob.toRat ≤ 1

/-- The right-hand side is one word or exactly two labels. -/
def IsNormal (r : Rule) : Prop :=
  (∃ word, r.body = [.terminal word]) ∨
    ∃ left right, r.body = [.nonterminal left, .nonterminal right]

/-- One of the rules has the same head and the same right-hand side. -/
def Repeats (r : Rule) (before : List Rule) : Prop :=
  ∃ r' ∈ before, r'.head = r.head ∧ r'.body = r.body

/-- Something is wrong with a rule that stands behind others. -/
def Violates (r : Rule) (before : List Rule) : Prop :=
  ¬r.IsProbable ∨ r.Repeats before ∨ ¬r.IsNormal

/-- What a rule that stands behind others is refused for. -/
inductive RefusedFor (r : Rule) (before : List Rule) : GrammarError → Prop where
  | probability (improbable : ¬r.IsProbable) : RefusedFor r before (.badProbability r)
  | repetition (probable : r.IsProbable) (repeats : r.Repeats before) :
      RefusedFor r before (.duplicateRule r)
  | form (probable : r.IsProbable) (new : ¬r.Repeats before) (abnormal : ¬r.IsNormal) :
      RefusedFor r before (.notNormalForm r)

variable {r : Rule} {before : List Rule}

theorem isProbable_iff : r.IsProbable ↔ r.prob.IsProbability :=
  Binary64.isProbability_iff.symm

theorem isNormal_iff : r.IsNormal ↔ r.shape?.isSome = true := by
  unfold Production.shape?
  constructor
  · rintro (⟨word, hbody⟩ | ⟨left, right, hbody⟩)
    · rw [hbody]
      rfl
    · rw [hbody]
      rfl
  · intro h
    split at h
    · next word hbody => exact .inl ⟨word, hbody⟩
    · next left right hbody => exact .inr ⟨left, right, hbody⟩
    · contradiction

theorem toProduction_eq_iff {r r' : Rule} :
    r.toProduction = r'.toProduction ↔ r.head = r'.head ∧ r.body = r'.body := by
  obtain ⟨⟨head, body⟩, prob⟩ := r
  obtain ⟨⟨head', body'⟩, prob'⟩ := r'
  exact Iff.of_eq (Production.mk.injEq head body head' body')

theorem repeats_iff : r.Repeats before ↔ r.toProduction ∈ before.map Rule.toProduction := by
  rw [List.mem_map]
  constructor
  · rintro ⟨r', hr', hsame⟩
    exact ⟨r', hr', toProduction_eq_iff.mpr hsame⟩
  · rintro ⟨r', hr', heq⟩
    exact ⟨r', hr', toProduction_eq_iff.mp heq⟩

/-- The text of a refusal ends with the refused rule. -/
theorem RefusedFor.message_eq {fault : GrammarError} (h : r.RefusedFor before fault) :
    ∃ reason, fault.message = reason ++ toString r := by
  cases h with
  | probability => exact ⟨_, rfl⟩
  | repetition => exact ⟨_, rfl⟩
  | form => exact ⟨_, rfl⟩

/-- Whatever is wrong with a rule, it is refused for one thing. -/
theorem exists_refusedFor_iff : (∃ fault, r.RefusedFor before fault) ↔ r.Violates before := by
  constructor
  · rintro ⟨fault, h⟩
    cases h with
    | probability himprobable => exact .inl himprobable
    | repetition _ hrepeats => exact .inr (.inl hrepeats)
    | form _ _ habnormal => exact .inr (.inr habnormal)
  · intro h
    by_cases hprobable : r.IsProbable
    · by_cases hrepeats : r.Repeats before
      · exact ⟨_, .repetition hprobable hrepeats⟩
      · have habnormal : ¬r.IsNormal := by
          rcases h with himprobable | hrepeated | habnormal
          · exact absurd hprobable himprobable
          · exact absurd hrepeated hrepeats
          · exact habnormal
        exact ⟨_, .form hprobable hrepeats habnormal⟩
    · exact ⟨_, .probability hprobable⟩

/-- A rule is refused for one thing only. -/
theorem RefusedFor.unique {fault fault' : GrammarError} (h : r.RefusedFor before fault)
    (h' : r.RefusedFor before fault') : fault = fault' := by
  cases h with
  | probability himprobable =>
      cases h' with
      | probability => rfl
      | repetition hprobable => exact absurd hprobable himprobable
      | form hprobable => exact absurd hprobable himprobable
  | repetition hprobable hrepeats =>
      cases h' with
      | probability himprobable => exact absurd hprobable himprobable
      | repetition => rfl
      | form _ hnew => exact absurd hrepeats hnew
  | form hprobable hnew =>
      cases h' with
      | probability himprobable => exact absurd hprobable himprobable
      | repetition _ hrepeats => exact absurd hrepeats hnew
      | form => rfl

theorem RefusedFor.eq_iff {fault fault' : GrammarError} (h : r.RefusedFor before fault) :
    fault = fault' ↔ r.RefusedFor before fault' := by
  constructor
  · rintro rfl
    exact h
  · exact h.unique

theorem RefusedFor.violates {fault : GrammarError} (h : r.RefusedFor before fault) :
    r.Violates before :=
  exists_refusedFor_iff.mp ⟨fault, h⟩

end Rule

/-! ### The first refused rule -/

section

variable {before rules : List Rule} {r : Rule} {fault : GrammarError}

/-- `FirstRefused before rules fault` says that some rule of the list is refused for the fault, and
nothing is wrong with the rules in front of it. Other rules stand before the list. -/
def FirstRefused (before rules : List Rule) (fault : GrammarError) : Prop :=
  ∃ front r rest, rules = front ++ r :: rest ∧
    (∀ front' r' rest', front = front' ++ r' :: rest' → ¬r'.Violates (before ++ front')) ∧
      r.RefusedFor (before ++ front) fault

theorem not_firstRefused_nil : ¬FirstRefused before [] fault := by
  rintro ⟨front, r, rest, heq, _⟩
  simp at heq

/-- Either the first rule is refused or nothing is wrong with it, and then the others count. -/
theorem firstRefused_cons_iff :
    FirstRefused before (r :: rules) fault ↔
      r.RefusedFor before fault ∨
        ¬r.Violates before ∧ FirstRefused (before ++ [r]) rules fault := by
  constructor
  · rintro ⟨front, r', rest, heq, hfront, hrefused⟩
    cases front with
    | nil =>
        obtain ⟨rfl, rfl⟩ := List.cons.inj heq
        rw [List.append_nil] at hrefused
        exact .inl hrefused
    | cons r₀ front =>
        obtain ⟨rfl, rfl⟩ := List.cons.inj heq
        have hfirst : ¬r.Violates before := by simpa using hfront [] r front rfl
        refine .inr ⟨hfirst, front, r', rest, rfl, ?_, by simpa using hrefused⟩
        intro front' r'' rest' hsplit
        simpa using hfront (r :: front') r'' rest' (by rw [hsplit, List.cons_append])
  · rintro (hrefused | ⟨hfirst, front, r', rest, rfl, hfront, hrefused⟩)
    · exact ⟨[], r, rules, rfl, by simp, by simpa using hrefused⟩
    · refine ⟨r :: front, r', rest, rfl, ?_, by simpa using hrefused⟩
      intro front' r'' rest' hsplit
      cases front' with
      | nil =>
          obtain ⟨rfl, _⟩ := List.cons.inj hsplit
          simpa using hfirst
      | cons r₀ front' =>
          obtain ⟨rfl, htail⟩ := List.cons.inj hsplit
          simpa using hfront front' r'' rest' htail

/-- The check of one rule, against the productions of the rules before it. -/
theorem firstFault_cons_eq_some_iff {seen : ExtTreeSet Production}
    (hseen : ∀ p, p ∈ seen ↔ p ∈ before.map Rule.toProduction) :
    firstFault seen (r :: rules) = some fault ↔
      r.RefusedFor before fault ∨
        ¬r.Violates before ∧ firstFault (seen.insert r.toProduction) rules = some fault := by
  have hrepeats : r.Repeats before ↔ r.toProduction ∈ seen := Rule.repeats_iff.trans (hseen _).symm
  have hrefused : ∀ {fault' : GrammarError}, r.RefusedFor before fault' →
      (some fault' = some fault ↔ r.RefusedFor before fault ∨
        ¬r.Violates before ∧ firstFault (seen.insert r.toProduction) rules = some fault) := by
    intro fault' h
    rw [Option.some_inj, h.eq_iff]
    simp [h.violates]
  rw [firstFault]
  split
  · next himprobable => exact hrefused (.probability (mt Rule.isProbable_iff.mp himprobable))
  · next hprobable =>
    have hprobable := Rule.isProbable_iff.mpr (not_not.mp hprobable)
    split
    · next hmem => exact hrefused (.repetition hprobable (hrepeats.mpr hmem))
    · next hmem =>
      have hnew := mt hrepeats.mp hmem
      split
      · next hnone =>
        have habnormal : ¬r.IsNormal := by simpa [Rule.isNormal_iff] using hnone
        exact hrefused (.form hprobable hnew habnormal)
      · next hnone =>
        have hnormal : r.IsNormal := by
          simpa [Rule.isNormal_iff, Option.isSome_iff_ne_none] using hnone
        have hviolates : ¬r.Violates before := by simp [Rule.Violates, hprobable, hnew, hnormal]
        have hnone : ¬r.RefusedFor before fault := mt Rule.RefusedFor.violates hviolates
        simp [hviolates, hnone]

/-- The check of a rule list finds the first rule with something wrong. -/
theorem firstFault_eq_some_iff {seen : ExtTreeSet Production}
    (hseen : ∀ p, p ∈ seen ↔ p ∈ before.map Rule.toProduction) :
    firstFault seen rules = some fault ↔ FirstRefused before rules fault := by
  induction rules generalizing seen before with
  | nil => simp [firstFault, not_firstRefused_nil]
  | cons r rules ih =>
      have hinsert : ∀ p, p ∈ seen.insert r.toProduction ↔
          p ∈ (before ++ [r]).map Rule.toProduction := by
        intro p
        rw [ExtTreeSet.mem_insert, Std.LawfulEqOrd.compare_eq_iff_eq, hseen, List.map_append,
          List.mem_append, List.map_singleton, List.mem_singleton, or_comm, @eq_comm _ p]
      rw [firstFault_cons_eq_some_iff hseen, ih hinsert, firstRefused_cons_iff]

end

namespace Grammar

variable {rules : List Rule} {start : String}

/-- Without a start symbol or without rules there is nothing to check. -/
theorem ofRules_of_empty (h : start = "" ∨ rules = []) :
    ofRules rules start = .error .noStartSymbol := by
  rw [ofRules, dif_pos h]

/-- A refusal names the first rule with something wrong. -/
theorem ofRules_eq_error_iff (hstart : start ≠ "") (hrules : rules ≠ []) {fault : GrammarError} :
    ofRules rules start = .error fault ↔ FirstRefused [] rules fault := by
  have hseen : ∀ p,
      p ∈ (∅ : ExtTreeSet Production) ↔ p ∈ ([] : List Rule).map Rule.toProduction := by
    simp
  rw [← firstFault_eq_some_iff hseen, ofRules, dif_neg (not_or.mpr ⟨hstart, hrules⟩)]
  split
  · next fault' hfault => rw [hfault, Except.error.injEq, Option.some_inj]
  · next hnone => simp [hnone]

end Grammar

/-- The checks of a rule list, rule by rule. -/
theorem faultless_iff {rules : List Rule} :
    Faultless rules ↔ (∀ r ∈ rules, r.IsProbable) ∧ (∀ r ∈ rules, r.IsNormal) ∧
      rules.Pairwise fun r r' => ¬(r.head = r'.head ∧ r.body = r'.body) := by
  have hnodup : (rules.map Rule.toProduction).Nodup ↔
      rules.Pairwise fun r r' => ¬(r.head = r'.head ∧ r.body = r'.body) := by
    rw [List.Nodup, List.pairwise_map]
    simp only [ne_eq, Rule.toProduction_eq_iff]
  simp only [Rule.isProbable_iff, Rule.isNormal_iff, ← hnodup]
  constructor
  · intro h
    exact ⟨h.isProbability, h.isNormal, h.nodup⟩
  · rintro ⟨hprobable, hnormal, hnew⟩
    exact ⟨hprobable, hnormal, hnew⟩

/-! ### Look-ups -/

/-- The part of a list that a partial function keeps, if it keeps the elements with a property and
leaves them as they are. -/
theorem filterMap_eq_filter_of_forall {α : Type} {f : α → Option α} {p : α → Bool} {l : List α}
    (hkeep : ∀ a ∈ l, p a = true → f a = some a) (hdrop : ∀ a ∈ l, p a = false → f a = none) :
    l.filterMap f = l.filter p := by
  rw [← List.filterMap_eq_filter]
  apply List.filterMap_congr
  intro a ha
  cases hp : p a with
  | true => rw [hkeep a ha hp, Option.guard, if_pos hp]
  | false => rw [hdrop a ha hp, Option.guard, if_neg (by simp [hp])]

namespace Grammar

variable (g : Grammar)

/-- The lexical rules of a word, as rules, are the rules with that word. -/
theorem map_lexicalRules (word : String) :
    (g.lexicalRules word).map (fun e => Rule.lexical e.head word e.prob) =
      g.rules.filter (·.body = [.terminal word]) := by
  rw [lexicalRules_eq, List.map_filterMap]
  apply filterMap_eq_filter_of_forall
  · intro r _ hbody
    have hr : r = Rule.lexical r.head word r.prob := by
      obtain ⟨⟨head, body⟩, prob⟩ := r
      simpa [Rule.lexical] using hbody
    rw [Rule.asLexical?_eq_some (e := ⟨r.head, r.prob⟩).mpr hr, Option.map_some, ← hr]
  · intro r _ hbody
    cases hentry : r.asLexical? word with
    | none => rfl
    | some e =>
        rw [Rule.asLexical?_eq_some.mp hentry] at hbody
        simp [Rule.lexical] at hbody

/-- The binary rules of a left symbol, as rules, are those whose right-hand side starts with it. -/
theorem map_binaryRules (left : String) :
    (g.binaryRules left).map (fun e => Rule.binary e.head left e.right e.prob) =
      g.rules.filter (·.body.head? = some (.nonterminal left)) := by
  rw [binaryRules_eq, List.map_filterMap]
  apply filterMap_eq_filter_of_forall
  · intro r hr hhead
    simp only [decide_eq_true_eq] at hhead
    rcases Rule.isNormal_iff.mpr (g.faultless.isNormal r hr) with ⟨word, hbody⟩ | ⟨l, right, hbody⟩
    · simp [hbody] at hhead
    · obtain rfl : l = left := by simpa [hbody] using hhead
      have hbinary : r = Rule.binary r.head l right r.prob := by
        obtain ⟨⟨head, body⟩, prob⟩ := r
        simpa [Rule.binary] using hbody
      rw [Rule.asBinary?_eq_some (e := ⟨r.head, right, r.prob⟩).mpr hbinary, Option.map_some,
        ← hbinary]
  · intro r _ hhead
    cases hentry : r.asBinary? left with
    | none => rfl
    | some e =>
        rw [Rule.asBinary?_eq_some.mp hentry] at hhead
        simp [Rule.binary] at hhead

/-- A rule list and a start symbol make a grammar exactly if there are both, every rule is probable
and in normal form, and no rule is repeated. Otherwise the refusal carries the first rule that is
wrong by itself or repeats one before it. The grammar has the rules as they were given, and a
look-up lists what the matching rules say, in their order. -/
theorem ofRules_spec (rules : List Rule) (start : String) :
    ((∃ g, ofRules rules start = .ok g) ↔
      start ≠ "" ∧ rules ≠ [] ∧ (∀ r ∈ rules, r.IsProbable) ∧ (∀ r ∈ rules, r.IsNormal) ∧
        rules.Pairwise fun r r' => ¬(r.head = r'.head ∧ r.body = r'.body)) ∧
    (start = "" ∨ rules = [] → ofRules rules start = .error .noStartSymbol) ∧
    (start ≠ "" → rules ≠ [] → ∀ fault, ofRules rules start = .error fault ↔
      ∃ front r rest, rules = front ++ r :: rest ∧
        (∀ front' r' rest', front = front' ++ r' :: rest' → ¬r'.Violates front') ∧
          r.RefusedFor front fault ∧ ∃ reason, fault.message = reason ++ toString r) ∧
    ∀ g, ofRules rules start = .ok g →
      g.rules = rules ∧ g.start = start ∧
        (∀ word, (g.lexicalRules word).map (fun e => Rule.lexical e.head word e.prob) =
          rules.filter (·.body = [.terminal word])) ∧
        ∀ left, (g.binaryRules left).map (fun e => Rule.binary e.head left e.right e.prob) =
          rules.filter (·.body.head? = some (.nonterminal left)) := by
  refine ⟨?_, ofRules_of_empty, ?_, ?_⟩
  · rw [exists_ofRules_iff, faultless_iff]
  · intro hstart hrules fault
    rw [ofRules_eq_error_iff hstart hrules]
    constructor
    · rintro ⟨front, r, rest, heq, hfront, hrefused⟩
      exact ⟨front, r, rest, heq, hfront, hrefused, hrefused.message_eq⟩
    · rintro ⟨front, r, rest, heq, hfront, hrefused, _⟩
      exact ⟨front, r, rest, heq, hfront, hrefused⟩
  · intro g hg
    obtain ⟨rfl, rfl⟩ := eq_of_ofRules hg
    exact ⟨rfl, rfl, g.map_lexicalRules, g.map_binaryRules⟩

/-- A rule, the same rule without a chance, and a rule with nothing on its right-hand side. -/
def threeRules : List Rule := [.lexical "S" "x" .one, .lexical "S" "x" .zero, ⟨⟨"S", []⟩, .one⟩]

/-- The second rule repeats the first, but it is refused for its probability, and before the
third. -/
theorem ofRules_spec_threeRules :
    "S" ≠ "" ∧ threeRules ≠ [] ∧
      ofRules threeRules "S" = .error (.badProbability (.lexical "S" "x" .zero)) := by
  have hstart : "S" ≠ "" := by decide
  have hrules : threeRules ≠ [] := by decide
  have hfirst : ¬(Rule.lexical "S" "x" .one).Violates [] := by
    rintro (himprobable | ⟨r, hr, _⟩ | habnormal)
    · exact himprobable (Rule.isProbable_iff.mpr (by decide))
    · exact List.not_mem_nil hr
    · exact habnormal (.inl ⟨"x", rfl⟩)
  have himprobable : ¬(Rule.lexical "S" "x" .zero).IsProbable :=
    mt Rule.isProbable_iff.mp (by decide)
  obtain ⟨_, _, hrefusal, _⟩ := ofRules_spec threeRules "S"
  refine ⟨hstart, hrules, (hrefusal hstart hrules _).mpr ?_⟩
  refine ⟨[.lexical "S" "x" .one], _, [⟨⟨"S", []⟩, .one⟩], rfl, ?_, .probability himprobable,
    _, rfl⟩
  intro front r rest hsplit
  cases front with
  | nil =>
      obtain ⟨rfl, _⟩ := List.cons.inj hsplit
      exact hfirst
  | cons r' front => simp at hsplit

end Grammar

end ChartParser
