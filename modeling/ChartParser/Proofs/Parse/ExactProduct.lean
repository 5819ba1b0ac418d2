import ChartParser.Proofs.Binary64.RoundingError
import ChartParser.Proofs.Counts.Constituents
import ChartParser.Proofs.Grammar.Faultless
import ChartParser.Proofs.Parse.Completeness

/-! # Parses and exact products

The chart compares rounded products, so the parse is the most probable tree up to rounding. The
exact product of a tree takes the probabilities of its rules as the rational numbers they denote.
The value of the tree is made from it by two roundings for every branch over two parts, and this
bounds what the parse can lose against any other tree. -/

namespace ChartParser

open Binary64 (unitRoundoff halfUnit)

/-- Without annotation the constituent above makes no difference. -/
theorem Tree.map_production_constituents (parent? : Option String) (t : Tree String String) :
    (t.constituents parent?).map (·.production .bare) =
      (t.constituents none).map (·.production .bare) := by
  cases t with
  | leaf word => rfl
  | branch label children =>
      rw [constituents_branch, constituents_branch]
      rfl

namespace Grammar

/-- The rule of a production, if there is one. -/
def rule? (g : Grammar) (production : Production) : Option Rule :=
  g.rules.find? (·.toProduction = production)

/-- The rules that a tree applies, from the root down and from left to right. -/
def rulesOf (g : Grammar) (t : Tree String String) : List Rule :=
  ((t.constituents none).map (·.production .bare)).filterMap g.rule?

/-- The product of the probabilities of the rules that a tree applies, without any rounding. -/
def exactProb (g : Grammar) (t : Tree String String) : ℚ :=
  ((g.rulesOf t).map (·.prob.toRat)).prod

variable {g : Grammar} {t : Tree String String} {v : Binary64}

/-- A rule is found under its production, which no other rule has. -/
theorem rule?_toProduction {r : Rule} (h : r ∈ g.rules) : g.rule? r.toProduction = some r := by
  obtain ⟨found, hfound⟩ : ∃ found, g.rule? r.toProduction = some found :=
    Option.isSome_iff_exists.mp (List.find?_isSome.mpr ⟨r, h, by simp⟩)
  have hproduction : found.toProduction = r.toProduction := by
    simpa using List.find?_some hfound
  have hmem : found ∈ g.rules := List.mem_of_find?_eq_some hfound
  rw [hfound, List.inj_on_of_nodup_map g.faultless.nodup hmem h hproduction]

theorem rulesOf_lexical {label word : Spanned String} {p : Binary64}
    (rule : Rule.lexical label.value word.value p ∈ g.rules) :
    g.rulesOf (.branch label [.leaf word]) = [.lexical label.value word.value p] := by
  have hproduction : (Constituent.mk none label.value [.leaf word]).production .bare =
      (Rule.lexical label.value word.value p).toProduction := rfl
  rw [rulesOf, Tree.constituents_branch, List.flatMap_singleton, Tree.constituents_leaf,
    List.map_singleton, hproduction, List.filterMap_cons_some (rule?_toProduction rule),
    List.filterMap_nil]

theorem rulesOf_binary {label left right : Spanned String} {ts us : List (Tree String String)}
    {p : Binary64} (rule : Rule.binary label.value left.value right.value p ∈ g.rules) :
    g.rulesOf (.branch label [.branch left ts, .branch right us]) =
      .binary label.value left.value right.value p ::
        (g.rulesOf (.branch left ts) ++ g.rulesOf (.branch right us)) := by
  have hproduction : (Constituent.mk none label.value
      [.branch left ts, .branch right us]).production .bare =
        (Rule.binary label.value left.value right.value p).toProduction := rfl
  rw [rulesOf, Tree.constituents_branch, List.flatMap_cons, List.flatMap_singleton, List.map_cons,
    List.map_append, Tree.map_production_constituents (some label.value),
    Tree.map_production_constituents (some label.value), hproduction,
    List.filterMap_cons_some (rule?_toProduction rule), List.filterMap_append]
  rfl

theorem exactProb_lexical {label word : Spanned String} {p : Binary64}
    (rule : Rule.lexical label.value word.value p ∈ g.rules) :
    g.exactProb (.branch label [.leaf word]) = p.toRat := by
  simp [exactProb, rulesOf_lexical rule, Rule.lexical]

theorem exactProb_binary {label left right : Spanned String} {ts us : List (Tree String String)}
    {p : Binary64} (rule : Rule.binary label.value left.value right.value p ∈ g.rules) :
    g.exactProb (.branch label [.branch left ts, .branch right us]) =
      p.toRat * g.exactProb (.branch left ts) * g.exactProb (.branch right us) := by
  simp [exactProb, rulesOf_binary rule, Rule.binary, mul_assoc]

namespace Licenses

theorem exactProb_mem (h : g.Licenses t v) : 0 ≤ g.exactProb t ∧ g.exactProb t ≤ 1 := by
  induction h with
  | lexical rule =>
      have hprob := (g.faultless.isProbability _ rule).inUnit
      rw [exactProb_lexical rule]
      exact ⟨hprob.toRat_nonneg, hprob.toRat_le_one⟩
  | binary rule _ _ ih ih' =>
      have hprob := (g.faultless.isProbability _ rule).inUnit
      rw [exactProb_binary rule]
      refine ⟨mul_nonneg (mul_nonneg hprob.toRat_nonneg ih.1) ih'.1, ?_⟩
      exact mul_le_one₀ (mul_le_one₀ hprob.toRat_le_one ih.1 ih.2) ih'.1 ih'.2

/-- The value of a tree is its exact product after two roundings for every branch over two parts,
of which there is one less than leaves. -/
theorem approximates (h : g.Licenses t v) :
    v.Approximates (g.exactProb t) (2 * (t.leaves.length - 1)) := by
  induction h with
  | lexical rule =>
      rw [exactProb_lexical rule]
      exact .refl _
  | binary rule first second ih ih' =>
      have hprob := (g.faultless.isProbability _ rule).inUnit
      have hlength := List.length_pos_iff.mpr first.leaves_ne_nil
      have hlength' := List.length_pos_iff.mpr second.leaves_ne_nil
      have hleft := Binary64.Approximates.refl _ |>.mul hprob first.inUnit first.exactProb_mem ih
      have hboth := hleft.mul (hprob.mul first.inUnit) second.inUnit second.exactProb_mem ih'
      rw [exactProb_binary rule, Tree.leaves_binary, List.length_append]
      refine Eq.subst (motive := Binary64.Approximates _ _) ?_ hboth
      omega

end Licenses

/-- No derivation tree has a higher value than the parse. The exact products of both lie within
`k` roundings of their values, `k` being twice the number of branches over two parts, so another
tree can have the greater exact product only within these. Where nothing was rounded, it cannot. -/
theorem exactProb_parse {g : Grammar} {tokens : List String} {parse : Parse}
    (h : g.parse tokens = some parse) :
    let k := 2 * (tokens.length - 1)
    let a := g.exactProb parse.tree
    g.Derives g.start tokens parse.tree parse.prob ∧
      parse.prob.Approximates a k ∧
      ∀ t v, g.Derives g.start tokens t v →
        let b := g.exactProb t
        v ≤ parse.prob ∧
          (1 - unitRoundoff) ^ k * b - k * halfUnit ≤
            (1 + unitRoundoff) ^ k * (a + k * halfUnit) ∧
          (v.toRat = b → parse.prob.toRat = a → b ≤ a) := by
  have hparse := g.derives_of_parse tokens h
  have happrox := hparse.licensed.approximates
  rw [hparse.leaves_eq] at happrox
  refine ⟨hparse, happrox, ?_⟩
  intro t v ht
  obtain ⟨found, hfound, hle⟩ := exists_parse_of_derives g tokens ht
  obtain rfl : parse = found := Option.some.inj (h.symm.trans hfound)
  have hvalues := ht.licensed.inUnit.toRat_mono hparse.licensed.inUnit hle
  have hlower := ht.licensed.approximates.lower
  rw [ht.leaves_eq] at hlower
  refine ⟨hle, hlower.trans (hvalues.trans happrox.upper), ?_⟩
  intro hexact hexact'
  rwa [hexact, hexact'] at hvalues

/-- Three words have two trees, and neither of their products is rounded. -/
theorem exactProb_parse_doubling :
    ∃ parse, doubling.parse ["x", "x", "x"] = some parse ∧
      parse.prob.Approximates (doubling.exactProb parse.tree) 4 ∧
      ∀ t v, doubling.Derives "S" ["x", "x", "x"] t v →
        v.toRat = doubling.exactProb t → parse.prob.toRat = doubling.exactProb parse.tree →
          doubling.exactProb t ≤ doubling.exactProb parse.tree := by
  have hsome : (doubling.parse ["x", "x", "x"]).isSome := by decide +kernel
  obtain ⟨parse, hparse⟩ := Option.isSome_iff_exists.mp hsome
  obtain ⟨-, happrox, hothers⟩ := exactProb_parse hparse
  refine ⟨parse, hparse, happrox, ?_⟩
  intro t v ht
  exact (hothers t v ht).2.2

/-- A branch of the start symbol over two words, each under a label of its own. -/
def pairTree (left first right second : String) : Tree String String :=
  .branch ⟨"S", ⟨0, 2⟩⟩ [.branch ⟨left, ⟨0, 1⟩⟩ [.leaf ⟨first, ⟨0, 1⟩⟩],
    .branch ⟨right, ⟨1, 2⟩⟩ [.leaf ⟨second, ⟨1, 2⟩⟩]]

/-- The reading by `C` and `D` where the parse is the one by `A` and `B`. -/
theorem exists_derives_closeReadings {first second : String} {prob p q : Binary64}
    (htree : (closeReadings.parse [first, second]).map Parse.tree =
      some (pairTree "A" first "B" second))
    (hbinary : Rule.binary "S" "C" "D" prob ∈ closeReadings.rules)
    (hfirst : Rule.lexical "C" first p ∈ closeReadings.rules)
    (hsecond : Rule.lexical "D" second q ∈ closeReadings.rules)
    (hlt : closeReadings.exactProb (pairTree "A" first "B" second) <
      closeReadings.exactProb (pairTree "C" first "D" second)) :
    ∃ parse t v, closeReadings.parse [first, second] = some parse ∧
      closeReadings.Derives "S" [first, second] t v ∧
      closeReadings.exactProb parse.tree < closeReadings.exactProb t := by
  obtain ⟨parse, hparse, hparsed⟩ := Option.map_eq_some_iff.mp htree
  refine ⟨parse, pairTree "C" first "D" second, prob * p * q, hparse, ?_, ?_⟩
  · exact ⟨.binary hbinary (.lexical hfirst) (.lexical hsecond), rfl, rfl⟩
  · rwa [hparsed]

/-- The parse of an accepted grammar need not have the greatest exact product, be it that the
products round together or that they round to zero. -/
theorem exists_exactProb_parse_lt :
    ofRules closeReadings.rules "S" = .ok closeReadings ∧
      ∀ tokens ∈ [["x", "y"], ["u", "v"]], ∃ parse t v,
        closeReadings.parse tokens = some parse ∧ closeReadings.Derives "S" tokens t v ∧
        closeReadings.exactProb parse.tree < closeReadings.exactProb t := by
  refine ⟨ofRules_eq_ok_iff.mpr ⟨rfl, rfl⟩, ?_⟩
  intro tokens htokens
  rcases List.mem_pair.mp htokens with rfl | rfl
  · exact exists_derives_closeReadings (by decide +kernel) (List.mem_of_getElem? (i := 1) rfl)
      (List.mem_of_getElem? (i := 4) rfl) (List.mem_of_getElem? (i := 5) rfl) (by decide +kernel)
  · exact exists_derives_closeReadings (by decide +kernel) (List.mem_of_getElem? (i := 1) rfl)
      (List.mem_of_getElem? (i := 8) rfl) (List.mem_of_getElem? (i := 9) rfl) (by decide +kernel)

end Grammar

end ChartParser
