import ChartParser.Proofs.Chart.Slices
import ChartParser.Proofs.Parse.Extraction

/-! # Parses of a slice

A best parse over a part of a span is made from the cells over that part alone. It is therefore the
best parse that the slice of the input has there, with all spans moved by the start of the span. -/

namespace ChartParser

/-! ### Moved trees -/

namespace Tree

variable {L W : Type}

mutual

/-- The tree with all of its spans as many positions further right. -/
def shift (offset : Nat) : Tree L W → Tree L W
  | leaf word => leaf ⟨word.value, word.span.shift offset⟩
  | branch label children =>
      branch ⟨label.value, label.span.shift offset⟩ (shiftAll offset children)

/-- The trees of a row with all of their spans moved. -/
def shiftAll (offset : Nat) : List (Tree L W) → List (Tree L W)
  | [] => []
  | t :: ts => shift offset t :: shiftAll offset ts

end

end Tree

/-- The parse with all spans of its tree moved. -/
def Parse.shift (offset : Nat) (parse : Parse) : Parse := ⟨parse.tree.shift offset, parse.prob⟩

/-! ### The search in a slice -/

namespace Grammar

variable (g : Grammar) {tokens : List String} {s t : Span}

theorem derivations_fill_shift (ht : t.Within (s.slice tokens).length) (symbol : String) :
    (g.fill tokens).derivations (t.shift s.start) symbol =
      ((g.fill (s.slice tokens)).derivations t symbol).map (.shift s.start) := by
  rw [Chart.derivations, g.cell_fill_shift ht, Cell.derivations_shift]
  rfl

theorem bestProb?_fill_shift (ht : t.Within (s.slice tokens).length) (symbol : String) :
    (g.fill tokens).bestProb? (t.shift s.start) symbol =
      (g.fill (s.slice tokens)).bestProb? t symbol := by
  rw [Chart.bestProb?, g.cell_fill_shift ht, Cell.bestProb?_shift]
  rfl

theorem splitsInside_of_mem_derivations_fill {symbol : String} {d : Derivation}
    (h : d ∈ (g.fill tokens).derivations t symbol) : d.SplitsInside := by
  cases (mem_derivations_fill g tokens).mp h with
  | leaf => trivial
  | branch _ first _ => exact Nat.zero_lt_of_lt (lt_of_bestProb?_fill g tokens first)

/-- The same derivations are followed in both charts, at moved spans. The induction is on the bound
of the search. -/
theorem treeWithin_fill_shift (ht : t.Within (s.slice tokens).length) (bound : Nat)
    (symbol : String) :
    (g.fill tokens).treeWithin tokens bound (t.shift s.start) symbol =
      ((g.fill (s.slice tokens)).treeWithin (s.slice tokens) bound t symbol).map
        (Tree.shift s.start) := by
  induction bound generalizing t symbol with
  | zero => rfl
  | succ bound ih =>
      have hbest : Derivation.best? ((g.fill tokens).derivations (t.shift s.start) symbol) =
          (Derivation.best? ((g.fill (s.slice tokens)).derivations t symbol)).map
            (.shift s.start) := by
        rw [g.derivations_fill_shift ht]
        apply Derivation.best?_shift
        intro d hd
        exact g.splitsInside_of_mem_derivations_fill hd
      rw [Chart.treeWithin, hbest, Chart.treeWithin]
      cases hd : Derivation.best? ((g.fill (s.slice tokens)).derivations t symbol) with
      | none => rfl
      | some d =>
          have hmem := (Derivation.best?_spec hd).1
          cases (mem_derivations_fill g _).mp hmem with
          | @leaf i word _ p token rule =>
              have hi : i < (s.slice tokens).length := (List.getElem?_eq_some_iff.mp token).1
              have htoken : tokens[s.start + i]? = some word :=
                (Span.getElem?_slice hi).symm.trans token
              simp only [Option.map_some, Derivation.shift, Span.shift, htoken, token,
                Option.bind_eq_bind, Option.bind_some]
              rfl
          | @branch start split stop _ left right _ _ _ rule first second =>
              have hleft := ih (within_of_bestProb?_fill g _ first) left
              have hright := ih (within_of_bestProb?_fill g _ second) right
              simp only [Span.shift] at hleft hright
              simp only [Option.map_some, Derivation.shift, Span.shift, hleft, hright,
                Option.bind_eq_bind]
              cases (g.fill (s.slice tokens)).treeWithin (s.slice tokens) bound ⟨start, split⟩
                  left with
              | none => rfl
              | some firstTree =>
                  cases (g.fill (s.slice tokens)).treeWithin (s.slice tokens) bound ⟨split, stop⟩
                      right with
                  | none => rfl
                  | some secondTree => rfl

theorem bestParse_fill_shift (ht : t.Within (s.slice tokens).length) (symbol : String) :
    (g.fill tokens).bestParse tokens (t.shift s.start) symbol =
      ((g.fill (s.slice tokens)).bestParse (s.slice tokens) t symbol).map
        (Parse.shift s.start) := by
  rw [Chart.bestParse, Chart.bestParse, length_fill, length_fill, g.bestProb?_fill_shift ht,
    g.treeWithin_fill_shift ht, Span.width_shift]
  simp only [ne_eq, not_true_eq_false, if_false, Option.bind_eq_bind]
  cases (g.fill (s.slice tokens)).bestProb? t symbol with
  | none => rfl
  | some p =>
      cases (g.fill (s.slice tokens)).treeWithin (s.slice tokens) t.width t symbol with
      | none => rfl
      | some tree => rfl

/-- The cell of a span inside another one is the cell that the slice of the outer span has there,
with every split moved by the start of the outer span: the same symbols with the same derivations in
the same order and the same best probabilities. The best parses of every symbol are those of the
slice, with all spans moved. -/
theorem fill_slice (g : Grammar) (tokens : List String) (outer inner : Span)
    (houter : outer.Within tokens.length) (hstart : outer.start ≤ inner.start)
    (hinner : inner.start < inner.stop) (hstop : inner.stop ≤ outer.stop) :
    let part := outer.slice tokens
    let moved : Span := ⟨inner.start - outer.start, inner.stop - outer.start⟩
    (g.fill tokens).cell inner = ((g.fill part).cell moved).shift outer.start ∧
      (g.fill tokens).derivable inner = (g.fill part).derivable moved ∧
      ∀ symbol,
        (g.fill tokens).derivations inner symbol =
          ((g.fill part).derivations moved symbol).map (.shift outer.start) ∧
        (g.fill tokens).bestProb? inner symbol = (g.fill part).bestProb? moved symbol ∧
        (g.fill tokens).bestParse tokens inner symbol =
          ((g.fill part).bestParse part moved symbol).map (.shift outer.start) := by
  intro part moved
  have hmoved : moved.Within part.length := by
    rw [Span.length_slice houter, Span.within_mk, Span.width]
    omega
  have heq : moved.shift outer.start = inner :=
    Span.shift_sub hstart (Nat.le_trans hstart (Nat.le_of_lt hinner))
  rw [← heq]
  have hcell := g.cell_fill_shift hmoved
  refine ⟨hcell, ?_, ?_⟩
  · rw [Chart.derivable, hcell, Cell.symbols_shift]
    rfl
  · intro symbol
    exact ⟨g.derivations_fill_shift hmoved symbol, g.bestProb?_fill_shift hmoved symbol,
      g.bestParse_fill_shift hmoved symbol⟩

/-- Three words within four: their equally probable derivations are those of the four words alone,
with the splits moved by one. -/
theorem fill_slice_vanishing :
    let tokens := ["y", "x", "x", "x", "x", "y"]
    let part := ["x", "x", "x", "x"]
    (Span.mk 1 5).Within tokens.length ∧ 1 ≤ 2 ∧ 2 < 5 ∧
      (vanishing.fill tokens).derivations ⟨2, 5⟩ "S" =
        ((vanishing.fill part).derivations ⟨1, 4⟩ "S").map (.shift 1) ∧
      (vanishing.fill part).derivations ⟨1, 4⟩ "S" = [.branch 2 "R" "S" .zero,
        .branch 2 "S" "S" .zero, .branch 3 "S" "S" .zero] ∧
      (vanishing.fill tokens).bestParse tokens ⟨2, 5⟩ "S" =
        ((vanishing.fill part).bestParse part ⟨1, 4⟩ "S").map (.shift 1) := by
  intro tokens part
  have houter : (Span.mk 1 5).Within tokens.length := by decide
  obtain ⟨_, _, hsymbols⟩ := fill_slice vanishing tokens ⟨1, 5⟩ ⟨2, 5⟩ houter (by decide)
    (by decide) (by decide)
  obtain ⟨hderivations, _, hparse⟩ := hsymbols "S"
  exact ⟨houter, by decide, by decide, hderivations, by decide +kernel, hparse⟩

end Grammar

end ChartParser
