import ChartParser.Chart.Cell
import ChartParser.Proofs.Chart.Preference
import Mathlib.Data.List.Induction

/-! # Content of a cell

A cell that was built from a row of derivations holds, for every symbol, the derivations of that
symbol in their order. Only an equal derivation that came before is left out, so nothing is lost
from a row whose derivations have different places. -/

namespace ChartParser

open Std (ExtTreeMap)

namespace Entry

/-- The entry after a row of derivations, if the row is not empty. -/
def ofDerivations? : List Derivation → Option Entry
  | [] => none
  | d :: ds => some (ds.foldl record (single d))

theorem ofDerivations?_concat (ds : List Derivation) (d : Derivation) :
    ofDerivations? (ds ++ [d]) =
      some (match ofDerivations? ds with
        | none => single d
        | some e => e.record d) := by
  cases ds with
  | nil => rfl
  | cons e ds => simp [ofDerivations?, List.foldl_append]

/-- Derivations whose places differ are all recorded. -/
theorem foldl_record (ds more : List Derivation) (best : Binary64)
    (h : (ds ++ more).Pairwise fun d e => ¬d.SamePlace e) :
    more.foldl record ⟨ds, best⟩ =
      ⟨ds ++ more, more.foldl (fun p e => p.max e.prob) best⟩ := by
  induction more generalizing ds best with
  | nil => simp
  | cons d more ih =>
      have hnew : ds.any (·.equal d) = false := by
        rw [List.any_eq_false]
        intro e he heq
        exact (List.pairwise_append.mp h).2.2 e he d (by simp) (Derivation.samePlace_of_equal heq)
      have hrecord : record ⟨ds, best⟩ d = ⟨ds ++ [d], best.max d.prob⟩ := by
        simp [record, hnew]
      rw [List.foldl_cons, hrecord, ih (ds ++ [d]) (best.max d.prob) (by simpa using h)]
      simp

theorem ofDerivations?_of_pairwise {ds : List Derivation}
    (h : ds.Pairwise fun d e => ¬d.SamePlace e) :
    ofDerivations? ds = (Derivation.bestProb? ds).map (Entry.mk ds) := by
  cases ds with
  | nil => rfl
  | cons d ds =>
      have hfold := foldl_record [d] ds d.prob h
      simp only [ofDerivations?, Derivation.bestProb?, Option.map_some]
      exact congrArg some hfold

end Entry

namespace Cell

/-! ### Derivable symbols -/

theorem mem_symbols {cell : Cell} {symbol : String} :
    symbol ∈ cell.symbols ↔ cell.contains symbol = true := by
  rw [symbols, ExtTreeMap.mem_keys, contains, ExtTreeMap.contains_iff_mem]

theorem contains_eq_isSome_bestProb? (cell : Cell) (symbol : String) :
    cell.contains symbol = (cell.bestProb? symbol).isSome := by
  rw [contains, bestProb?, Option.isSome_map, ExtTreeMap.isSome_getElem?_eq_contains]

/-- Symbols are listed once each, in ascending order. -/
theorem pairwise_symbols (cell : Cell) :
    cell.symbols.Pairwise (· < ·) := by
  have hordered : cell.symbols.Pairwise fun a b => compare a b = .lt := ExtTreeMap.ordered_keys
  refine hordered.imp ?_
  intro a b hab
  exact compareOfLessAndEq_eq_lt.mp hab

theorem nodup_symbols (cell : Cell) : cell.symbols.Nodup := ExtTreeMap.nodup_keys

private theorem filterMap_map_fst {α β : Type} {xs : List (α × β)} {f : α → Option β}
    (h : ∀ x ∈ xs, f x.1 = some x.2) :
    (xs.map Prod.fst).filterMap (fun a => (f a).map fun b => (a, b)) = xs := by
  induction xs with
  | nil => rfl
  | cons x xs ih =>
      have hx : f x.1 = some x.2 := h x (by simp)
      have htail := ih fun y hy => h y (by simp [hy])
      simp [hx, htail]

/-- The best probabilities are those of the symbols, in the order of the symbols. -/
theorem bestProbs_eq (cell : Cell) :
    cell.bestProbs =
      cell.symbols.filterMap fun symbol => (cell.bestProb? symbol).map fun p => (symbol, p) := by
  have hentries : cell.entries.toList =
      cell.symbols.filterMap fun symbol => cell.entries[symbol]?.map fun e => (symbol, e) := by
    rw [symbols, ← ExtTreeMap.map_fst_toList_eq_keys]
    refine (filterMap_map_fst ?_).symm
    intro x hx
    exact ExtTreeMap.mem_toList_iff_getElem?_eq_some.mp hx
  rw [bestProbs, hentries, List.map_filterMap]
  simp [bestProb?, Function.comp_def]

/-! ### Rows of derivations -/

/-- The derivations that a row has for one symbol, in their order. -/
def rowOf (symbol : String) (row : List (String × Derivation)) : List Derivation :=
  row.filterMap fun x => if x.1 = symbol then some x.2 else none

theorem entries_record (cell : Cell) (symbol symbol' : String) (d : Derivation) :
    (cell.record symbol d).entries[symbol']? =
      if symbol = symbol' then
        some (match cell.entries[symbol]? with
          | none => .single d
          | some e => e.record d)
      else cell.entries[symbol']? := by
  by_cases h : symbol = symbol'
  · subst h
    cases he : cell.entries[symbol]? with
    | none => simp [record, he]
    | some e => simp [record, he]
  · simp [record, ExtTreeMap.getElem?_alter, h]

theorem entries_ofDerivations (row : List (String × Derivation)) (symbol : String) :
    (ofDerivations row).entries[symbol]? = Entry.ofDerivations? (rowOf symbol row) := by
  induction row using List.reverseRecOn with
  | nil => simp [ofDerivations, empty, rowOf, Entry.ofDerivations?]
  | append_singleton row x ih =>
      have hfold : ofDerivations (row ++ [x]) = (ofDerivations row).record x.1 x.2 := by
        simp [ofDerivations, List.foldl_append]
      rw [hfold, entries_record]
      by_cases h : x.1 = symbol
      · have hrow : rowOf symbol (row ++ [x]) = rowOf symbol row ++ [x.2] := by
          simp [rowOf, List.filterMap_append, h]
        rw [hrow, Entry.ofDerivations?_concat, ← ih]
        simp [h]
      · have hrow : rowOf symbol (row ++ [x]) = rowOf symbol row := by
          simp [rowOf, List.filterMap_append, h]
        rw [hrow, ← ih]
        simp [h]

/-- Derivations of one symbol whose places differ are all kept, in their order. -/
theorem derivations_ofDerivations {row : List (String × Derivation)} {symbol : String}
    (h : (rowOf symbol row).Pairwise fun d e => ¬d.SamePlace e) :
    (ofDerivations row).derivations symbol = rowOf symbol row := by
  rw [derivations, entries_ofDerivations, Entry.ofDerivations?_of_pairwise h]
  cases hp : Derivation.bestProb? (rowOf symbol row) with
  | none => simp [Derivation.bestProb?_eq_none.mp hp]
  | some p => rfl

theorem bestProb?_ofDerivations {row : List (String × Derivation)} {symbol : String}
    (h : (rowOf symbol row).Pairwise fun d e => ¬d.SamePlace e) :
    (ofDerivations row).bestProb? symbol = Derivation.bestProb? (rowOf symbol row) := by
  rw [bestProb?, entries_ofDerivations, Entry.ofDerivations?_of_pairwise h, Option.map_map]
  simp [Function.comp_def]

end Cell

end ChartParser
