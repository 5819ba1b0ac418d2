import ChartParser.Proofs.Binary64.UnitInterval
import ChartParser.Proofs.Chart.Table
import ChartParser.Proofs.Grammar.Index
import ChartParser.Tree.Basic

/-! # Trees of a grammar

A tree belongs to a grammar when every branch of it applies a rule. Its value is computed from the
leaves up, in the floating-point arithmetic of charts. Neither depends on a chart or on spans; that
the spans of a tree fit together is a property of its own. -/

namespace ChartParser

/-! ### Roots, slices and spans -/

namespace Tree

variable {L W : Type}

/-- The label of the root, if the root is a branch. -/
def rootLabel? : Tree L W → Option L
  | leaf _ => none
  | branch label _ => some label.value

@[simp] theorem leaves_lexical (label : Spanned L) (word : Spanned W) :
    (branch label [leaf word]).leaves = [word.value] :=
  rfl

@[simp] theorem leaves_binary (label : Spanned L) (t u : Tree L W) :
    (branch label [t, u]).leaves = t.leaves ++ u.leaves := by
  simp [leaves, leavesAll]

@[simp] theorem height_lexical (label : Spanned L) (word : Spanned W) :
    (branch label [leaf word]).height = 1 :=
  rfl

@[simp] theorem height_binary (label : Spanned L) (t u : Tree L W) :
    (branch label [t, u]).height = max t.height u.height + 1 := by
  simp [height, heightAll]

/-- The spans of a binary tree fit together: a branch over one leaf has the leaf's span, of width
one, and the span of a branch over two branches is divided between them at a split inside. -/
inductive Covers : Tree L W → Span → Prop where
  | lexical {label : L} {word : W} {i : Nat} :
      Covers (branch ⟨label, ⟨i, i + 1⟩⟩ [leaf ⟨word, ⟨i, i + 1⟩⟩]) ⟨i, i + 1⟩
  | binary {label : L} {t u : Tree L W} {start split stop : Nat}
      (start_lt : start < split) (lt_stop : split < stop)
      (first : Covers t ⟨start, split⟩) (second : Covers u ⟨split, stop⟩) :
      Covers (branch ⟨label, ⟨start, stop⟩⟩ [t, u]) ⟨start, stop⟩

end Tree

namespace Span

variable {α : Type}

/-- The part of a list at the positions of a span. -/
def slice (s : Span) (xs : List α) : List α := (xs.drop s.start).take s.width

theorem length_slice {s : Span} {xs : List α} (h : s.Within xs.length) :
    (s.slice xs).length = s.width := by
  obtain ⟨hstart, hstop⟩ := h
  rw [slice, List.length_take, List.length_drop, width]
  omega

theorem slice_token {xs : List α} {i : Nat} {x : α} (h : xs[i]? = some x) :
    slice ⟨i, i + 1⟩ xs = [x] := by
  obtain ⟨hi, rfl⟩ := List.getElem?_eq_some_iff.mp h
  rw [slice, width_mk, Nat.add_sub_cancel_left, List.drop_eq_getElem_cons hi]
  rfl

theorem slice_full (xs : List α) : slice ⟨0, xs.length⟩ xs = xs := by simp [slice]

/-- Neighbouring spans have neighbouring slices. -/
theorem slice_append {start split stop : Nat} (hstart : start ≤ split) (hstop : split ≤ stop)
    (xs : List α) : slice ⟨start, split⟩ xs ++ slice ⟨split, stop⟩ xs = slice ⟨start, stop⟩ xs := by
  obtain ⟨m, rfl⟩ := Nat.exists_eq_add_of_le hstart
  obtain ⟨n, rfl⟩ := Nat.exists_eq_add_of_le hstop
  have hm : start + m - start = m := by omega
  have hn : start + m + n - (start + m) = n := by omega
  have hmn : start + m + n - start = m + n := by omega
  simp only [slice, width_mk, hm, hn, hmn]
  rw [List.take_add, List.drop_drop]

/-- A slice in two parts comes from two neighbouring spans. -/
theorem exists_split_of_slice {start stop : Nat} {xs ys zs : List α}
    (h : (Span.mk start stop).Within xs.length) (hslice : slice ⟨start, stop⟩ xs = ys ++ zs)
    (hys : ys ≠ []) (hzs : zs ≠ []) :
    ∃ split, start < split ∧ split < stop ∧
      slice ⟨start, split⟩ xs = ys ∧ slice ⟨split, stop⟩ xs = zs := by
  have hlength := length_slice h
  rw [hslice, List.length_append, width_mk] at hlength
  have hypos := List.length_pos_iff.mpr hys
  have hzpos := List.length_pos_iff.mpr hzs
  have hlower : start < start + ys.length := by omega
  have hupper : start + ys.length < stop := by omega
  obtain ⟨_, hstop⟩ := within_mk.mp h
  have hfirst : (Span.mk start (start + ys.length)).Within xs.length :=
    within_mk.mpr ⟨hlower, by omega⟩
  have hwidth : (slice ⟨start, start + ys.length⟩ xs).length = ys.length := by
    rw [length_slice hfirst, width_mk]
    omega
  rw [← slice_append (Nat.le_of_lt hlower) (Nat.le_of_lt hupper)] at hslice
  obtain ⟨hleft, hright⟩ := List.append_inj hslice hwidth
  exact ⟨start + ys.length, hlower, hupper, hleft, hright⟩

end Span

/-! ### Licensed trees -/

namespace Grammar

/-- `g.Licenses t v` says that every branch of `t` applies a rule of `g`, and that `v` is the value
of `t`: the probability of its rule over a word, and over two branches the probability of its rule
times the value of the left one, and that times the value of the right one. -/
inductive Licenses (g : Grammar) : Tree String String → Binary64 → Prop where
  | lexical {label word : Spanned String} {p : Binary64}
      (rule : Rule.lexical label.value word.value p ∈ g.rules) :
      Licenses g (.branch label [.leaf word]) p
  | binary {label left right : Spanned String} {ts us : List (Tree String String)}
      {prob p q : Binary64}
      (rule : Rule.binary label.value left.value right.value prob ∈ g.rules)
      (first : Licenses g (.branch left ts) p) (second : Licenses g (.branch right us) q) :
      Licenses g (.branch label [.branch left ts, .branch right us]) (prob * p * q)

/-- A derivation tree of a symbol: it is built from the rules, the symbol is at its root, and the
given words are its leaves from left to right. -/
structure Derives (g : Grammar) (symbol : String) (words : List String) (t : Tree String String)
    (v : Binary64) : Prop where
  licensed : g.Licenses t v
  rootLabel?_eq : t.rootLabel? = some symbol
  leaves_eq : t.leaves = words

namespace Licenses

variable {g : Grammar} {t : Tree String String} {v w : Binary64}

theorem leaves_ne_nil (h : g.Licenses t v) : t.leaves ≠ [] := by
  induction h with
  | lexical => simp
  | binary _ _ _ ih _ => simp [ih]

/-- The height of a tree is at most the number of its leaves. -/
theorem height_le_length_leaves (h : g.Licenses t v) : t.height ≤ t.leaves.length := by
  induction h with
  | lexical => simp
  | binary _ first second ih ih' =>
      have hpos := List.length_pos_iff.mpr first.leaves_ne_nil
      have hpos' := List.length_pos_iff.mpr second.leaves_ne_nil
      rw [Tree.height_binary, Tree.leaves_binary, List.length_append]
      omega

theorem inUnit (h : g.Licenses t v) : v.InUnit := by
  induction h with
  | lexical rule => exact (g.faultless.isProbability _ rule).inUnit
  | binary rule _ _ hp hq => exact ((g.faultless.isProbability _ rule).inUnit.mul hp).mul hq

/-- A tree has one value, since no two rules share a production. -/
theorem unique (h : g.Licenses t v) (h' : g.Licenses t w) : v = w := by
  induction h generalizing w with
  | lexical rule =>
      cases h' with
      | lexical rule' => exact g.prob_eq_of_mem rule rule' rfl
  | binary rule _ _ ih ih' =>
      cases h' with
      | binary rule' first second =>
          have hprob := g.prob_eq_of_mem rule rule' rfl
          simp only [Rule.binary] at hprob
          rw [hprob, ih first, ih' second]

end Licenses

/-! ### Small grammars -/

/-- A label that is a word or twice itself, both with probability one half. The number of its trees
over a row of words grows exponentially. -/
def doubling : Grammar where
  start := "S"
  rules := [.binary "S" "S" "S" ⟨false, 1022 * Binary64.fractions, by decide⟩,
    .lexical "S" "x" ⟨false, 1022 * Binary64.fractions, by decide⟩]
  index := _
  index_eq := rfl
  start_ne_empty := by decide
  rules_ne_nil := by decide
  faultless := ⟨by decide, by decide, by decide⟩

/-- Two labels that replace a word with the least positive probability. Over more than one word all
products vanish, so all trees have the value zero. -/
def vanishing : Grammar where
  start := "S"
  rules := [.binary "S" "S" "S" ⟨false, 1, by decide⟩, .binary "S" "R" "S" .one,
    .lexical "S" "x" ⟨false, 1, by decide⟩, .lexical "R" "x" ⟨false, 1, by decide⟩]
  index := _
  index_eq := rfl
  start_ne_empty := by decide
  rules_ne_nil := by decide
  faultless := ⟨by decide, by decide, by decide⟩

/-- Two pairs of readings. Those of `x y` have exact products that differ by less than the last
significant bit, and those of `u v` have exact products below the least positive number. -/
def closeReadings : Grammar where
  start := "S"
  rules := [.binary "S" "A" "B" ⟨false, 1022 * Binary64.fractions, by decide⟩,
    .binary "S" "C" "D" ⟨false, 1022 * Binary64.fractions, by decide⟩,
    .lexical "A" "x" Binary64.one,
    .lexical "B" "y" ⟨false, Binary64.oneMagnitude - 2, by decide⟩,
    .lexical "C" "x" ⟨false, Binary64.oneMagnitude - 1, by decide⟩,
    .lexical "D" "y" ⟨false, Binary64.oneMagnitude - 1, by decide⟩,
    .lexical "A" "u" ⟨false, 423 * Binary64.fractions, by decide⟩,
    .lexical "B" "v" ⟨false, 423 * Binary64.fractions, by decide⟩,
    .lexical "C" "u" ⟨false, 423 * Binary64.fractions, by decide⟩,
    .lexical "D" "v" ⟨false, 523 * Binary64.fractions, by decide⟩]
  index := _
  index_eq := rfl
  start_ne_empty := by decide
  rules_ne_nil := by decide
  faultless := ⟨by decide, by decide, by decide⟩

end Grammar

end ChartParser
