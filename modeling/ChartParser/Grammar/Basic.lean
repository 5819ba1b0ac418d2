import ChartParser.Event
import ChartParser.Binary64.Order
import ChartParser.Rule
import Std.Data.ExtTreeMap
import Std.Data.ExtTreeSet

/-! Grammars in Chomsky normal form with their indexes. A grammar exists only for a rule list that
passes every check, and its indexes are determined by that list. -/

namespace ChartParser

open Std (ExtTreeMap ExtTreeSet)

/-- What a lexical rule says about its word. -/
structure LexicalEntry where
  head : String
  prob : Binary64
deriving DecidableEq

/-- What a binary rule says about its left symbol. -/
structure BinaryEntry where
  head : String
  right : String
  prob : Binary64
deriving DecidableEq

/-- The rules of a grammar by the word or by the left symbol on their right-hand side. -/
structure RuleIndex where
  byWord : ExtTreeMap String (List LexicalEntry)
  byLeft : ExtTreeMap String (List BinaryEntry)

namespace RuleIndex

def empty : RuleIndex := ⟨∅, ∅⟩

/-- Puts an entry in front of the others under its key. -/
def push {α : Type} (map : ExtTreeMap String (List α)) (key : String) (a : α) :
    ExtTreeMap String (List α) :=
  map.alter key fun entries? => some (a :: entries?.getD [])

/-- Enters a rule in front of those of the same word or left symbol. -/
def add (r : Rule) (index : RuleIndex) : RuleIndex :=
  match r.shape? with
  | some (.lexical word) => { index with byWord := push index.byWord word ⟨r.head, r.prob⟩ }
  | some (.binary left right) =>
      { index with byLeft := push index.byLeft left ⟨r.head, right, r.prob⟩ }
  | none => index

/-- The index of a rule list. Entries under one key are in the order of the list. -/
def ofRules (rules : List Rule) : RuleIndex := rules.foldr add empty

end RuleIndex

/-- Why a rule list and a start symbol make no grammar. -/
inductive GrammarError where
  | noStartSymbol
  | badProbability (rule : Rule)
  | duplicateRule (rule : Rule)
  | notNormalForm (rule : Rule)
deriving DecidableEq

namespace GrammarError

def message : GrammarError → String
  | noStartSymbol => "grammar has no start symbol"
  | badProbability rule => "rule probability must be in (0, 1]: " ++ toString rule
  | duplicateRule rule => "duplicate rule: " ++ toString rule
  | notNormalForm rule => "rule is not in chomsky normal form: " ++ toString rule

end GrammarError

/-- The first fault of a rule list, given the productions seen before it. The probability of a rule
is looked at first and its form last. -/
def firstFault (seen : ExtTreeSet Production) : List Rule → Option GrammarError
  | [] => none
  | r :: rules =>
      if ¬ r.prob.IsProbability then some (.badProbability r)
      else if r.toProduction ∈ seen then some (.duplicateRule r)
      else if r.shape?.isNone then some (.notNormalForm r)
      else firstFault (seen.insert r.toProduction) rules

/-- What a rule list without a fault satisfies. -/
structure Faultless (rules : List Rule) : Prop where
  isProbability : ∀ r ∈ rules, r.prob.IsProbability
  isNormal : ∀ r ∈ rules, r.shape?.isSome
  nodup : (rules.map Rule.toProduction).Nodup

theorem faultless_of_firstFault {seen : ExtTreeSet Production} {rules : List Rule}
    (h : firstFault seen rules = none) :
    Faultless rules ∧ ∀ r ∈ rules, r.toProduction ∉ seen := by
  induction rules generalizing seen with
  | nil => exact ⟨⟨by simp, by simp, by simp⟩, by simp⟩
  | cons r rules ih =>
      unfold firstFault at h
      split at h
      · contradiction
      split at h
      · contradiction
      split at h
      · contradiction
      next hp hs hn =>
        obtain ⟨hf, hr⟩ := ih h
        have hne : ∀ r' ∈ rules, r.toProduction ≠ r'.toProduction := fun r' h' he =>
          hr r' h' (by simp [he])
        refine ⟨⟨?_, ?_, ?_⟩, ?_⟩
        · exact List.forall_mem_cons.2 ⟨Decidable.not_not.1 hp, hf.isProbability⟩
        · refine List.forall_mem_cons.2 ⟨?_, hf.isNormal⟩
          cases he : r.shape? with
          | none => simp [he] at hn
          | some s => rfl
        · simpa [hf.nodup] using fun r' h' he => hne r' h' he.symm
        · refine List.forall_mem_cons.2 ⟨hs, fun r' h' hm => hr r' h' ?_⟩
          simp [hm]

/-- A grammar in Chomsky normal form: a start symbol, its rules in their given order, and the index
of the rules. -/
structure Grammar where
  start : String
  rules : List Rule
  index : RuleIndex
  index_eq : index = .ofRules rules
  start_ne_empty : start ≠ ""
  rules_ne_nil : rules ≠ []
  faultless : Faultless rules

namespace Grammar

/-- The grammar of a rule list and a start symbol, or the first thing wrong with them. -/
def ofRules (rules : List Rule) (start : String) : Except GrammarError Grammar :=
  if h : start = "" ∨ rules = [] then .error .noStartSymbol
  else
    match hf : firstFault ∅ rules with
    | some fault => .error fault
    | none => .ok {
        start, rules
        index := .ofRules rules
        index_eq := rfl
        start_ne_empty := fun hs => h (.inl hs)
        rules_ne_nil := fun hr => h (.inr hr)
        faultless := (faultless_of_firstFault hf).1 }

/-- The lexical rules of a word, in the order of the rules. -/
def lexicalRules (g : Grammar) (word : String) : List LexicalEntry :=
  g.index.byWord[word]?.getD []

/-- The binary rules with a given left symbol, in the order of the rules. -/
def binaryRules (g : Grammar) (left : String) : List BinaryEntry :=
  g.index.byLeft[left]?.getD []

/-- The labels that head a rule. -/
def heads (g : Grammar) : ExtTreeSet String := .ofList (g.rules.map (·.head))

/-- The events reported when a grammar comes into being. -/
def indexEvents (g : Grammar) : List Event :=
  (if g.start ∈ g.heads then [] else [.startHeadsNoRule g.start]) ++
    [.grammarIndexed g.rules.length g.index.byWord.size g.heads.size g.start]

/-- Reports on a grammar that was made, if one was. -/
def announce {ε : Type} (result : Except ε Grammar) : Logged (Except ε Grammar) :=
  match result with
  | .error e => ⟨.error e, []⟩
  | .ok g => ⟨.ok g, g.indexEvents⟩

/-- Makes a grammar and reports on it. -/
def ofRulesLogged (rules : List Rule) (start : String) : Logged (Except GrammarError Grammar) :=
  announce (ofRules rules start)

end Grammar

end ChartParser
