import ChartParser.Grammar.Basic
import Mathlib.Data.List.Nodup

/-! # The index of a grammar

A look-up in the index agrees with a scan of the rules: it lists what the matching rules say, in
their order. Since no two rules share a production, a look-up says nothing twice. -/

namespace ChartParser

open Std (ExtTreeMap)

/-! ### The two forms of a rule -/

namespace Rule

/-- The rule that replaces a label by a word. -/
def lexical (head word : String) (prob : Binary64) : Rule := ⟨⟨head, [.terminal word]⟩, prob⟩

/-- The rule that replaces a label by two labels. -/
def binary (head left right : String) (prob : Binary64) : Rule :=
  ⟨⟨head, [.nonterminal left, .nonterminal right]⟩, prob⟩

theorem eq_lexical_of_shape? {r : Rule} {word : String}
    (h : r.shape? = some (.lexical word)) : r = lexical r.head word r.prob := by
  obtain ⟨⟨head, body⟩, prob⟩ := r
  simp only [Production.shape?] at h
  split at h <;> simp_all [lexical]

theorem eq_binary_of_shape? {r : Rule} {left right : String}
    (h : r.shape? = some (.binary left right)) : r = binary r.head left right r.prob := by
  obtain ⟨⟨head, body⟩, prob⟩ := r
  simp only [Production.shape?] at h
  split at h <;> simp_all [binary]

/-- What a rule says about a word, if it replaces a label by that word. -/
def asLexical? (word : String) (r : Rule) : Option LexicalEntry :=
  match r.shape? with
  | some (.lexical w) => if w = word then some ⟨r.head, r.prob⟩ else none
  | _ => none

/-- What a rule says about a left symbol, if it replaces a label by two and that is the first. -/
def asBinary? (left : String) (r : Rule) : Option BinaryEntry :=
  match r.shape? with
  | some (.binary l right) => if l = left then some ⟨r.head, right, r.prob⟩ else none
  | _ => none

theorem asLexical?_eq_some {word : String} {r : Rule} {e : LexicalEntry} :
    r.asLexical? word = some e ↔ r = lexical e.head word e.prob := by
  constructor
  · intro h
    unfold asLexical? at h
    split at h
    · next w hs =>
      split at h
      · next hw =>
        subst hw
        obtain rfl := Option.some.inj h
        exact eq_lexical_of_shape? hs
      · contradiction
    · contradiction
  · rintro rfl
    simp [asLexical?, lexical, Production.shape?]

theorem asBinary?_eq_some {left : String} {r : Rule} {e : BinaryEntry} :
    r.asBinary? left = some e ↔ r = binary e.head left e.right e.prob := by
  constructor
  · intro h
    unfold asBinary? at h
    split at h
    · next l right hs =>
      split at h
      · next hl =>
        subst hl
        obtain rfl := Option.some.inj h
        exact eq_binary_of_shape? hs
      · contradiction
    · contradiction
  · rintro rfl
    simp [asBinary?, binary, Production.shape?]

end Rule

/-! ### Look-ups are scans -/

namespace RuleIndex

theorem getD_push {α : Type} (map : ExtTreeMap String (List α)) (key k : String) (a : α) :
    (push map key a)[k]?.getD [] = if key = k then a :: map[k]?.getD [] else map[k]?.getD [] := by
  by_cases h : key = k
  · subst h
    simp [push]
  · simp [push, ExtTreeMap.getElem?_alter, h]

theorem byWord_ofRules (rules : List Rule) (word : String) :
    (ofRules rules).byWord[word]?.getD [] = rules.filterMap (Rule.asLexical? word) := by
  induction rules with
  | nil => simp [ofRules, empty]
  | cons r rules ih =>
      change (add r (ofRules rules)).byWord[word]?.getD [] = _
      rw [List.filterMap_cons, ← ih]
      unfold add Rule.asLexical?
      cases hs : r.shape? with
      | none => rfl
      | some shape =>
          cases shape with
          | lexical w =>
              simp only [getD_push]
              by_cases hw : w = word
              · simp [hw]
              · simp [hw]
          | binary left right => rfl

theorem byLeft_ofRules (rules : List Rule) (left : String) :
    (ofRules rules).byLeft[left]?.getD [] = rules.filterMap (Rule.asBinary? left) := by
  induction rules with
  | nil => simp [ofRules, empty]
  | cons r rules ih =>
      change (add r (ofRules rules)).byLeft[left]?.getD [] = _
      rw [List.filterMap_cons, ← ih]
      unfold add Rule.asBinary?
      cases hs : r.shape? with
      | none => rfl
      | some shape =>
          cases shape with
          | lexical word => rfl
          | binary l right =>
              simp only [getD_push]
              by_cases hl : l = left
              · simp [hl]
              · simp [hl]

end RuleIndex

namespace Grammar

variable (g : Grammar)

theorem lexicalRules_eq (word : String) :
    g.lexicalRules word = g.rules.filterMap (Rule.asLexical? word) := by
  rw [lexicalRules, g.index_eq, RuleIndex.byWord_ofRules]

theorem binaryRules_eq (left : String) :
    g.binaryRules left = g.rules.filterMap (Rule.asBinary? left) := by
  rw [binaryRules, g.index_eq, RuleIndex.byLeft_ofRules]

theorem mem_lexicalRules {word : String} {e : LexicalEntry} :
    e ∈ g.lexicalRules word ↔ Rule.lexical e.head word e.prob ∈ g.rules := by
  rw [lexicalRules_eq, List.mem_filterMap]
  constructor
  · rintro ⟨r, hr, he⟩
    rwa [← Rule.asLexical?_eq_some.mp he]
  · intro hr
    exact ⟨_, hr, Rule.asLexical?_eq_some.mpr rfl⟩

/-! ### No rule twice -/

theorem pairwise_rules : g.rules.Pairwise fun r r' => r.toProduction ≠ r'.toProduction :=
  List.pairwise_map.mp g.faultless.nodup

/-- A word has at most one rule for each head. -/
theorem pairwise_lexicalRules (word : String) :
    (g.lexicalRules word).Pairwise fun e e' => e.head ≠ e'.head := by
  rw [lexicalRules_eq, List.pairwise_filterMap]
  refine g.pairwise_rules.imp ?_
  intro r r' hne e he e' he' hhead
  rw [Rule.asLexical?_eq_some.mp he, Rule.asLexical?_eq_some.mp he'] at hne
  exact hne (by simp [Rule.lexical, hhead])

/-- Rules with one production are one rule, so their probabilities agree. -/
theorem prob_eq_of_mem {r r' : Rule} (hr : r ∈ g.rules) (hr' : r' ∈ g.rules)
    (h : r.toProduction = r'.toProduction) : r.prob = r'.prob := by
  have hnodup := g.faultless.nodup
  rw [List.inj_on_of_nodup_map hnodup hr hr' h]

end Grammar

end ChartParser
