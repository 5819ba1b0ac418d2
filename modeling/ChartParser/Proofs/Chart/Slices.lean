import ChartParser.Proofs.Chart.Best

/-! # The chart of a slice

The cells of a chart over the parts of a span hold what the chart of that slice of the input holds,
with all positions moved by the start of the span. Moving positions changes neither the equality
nor the preference of derivations, so it can be carried through the filling of a cell. -/

namespace ChartParser

open Std (ExtTreeMap)

/-! ### Moving positions -/

/-- The span as many positions further right. -/
def Span.shift (offset : Nat) (s : Span) : Span := ⟨offset + s.start, offset + s.stop⟩

@[simp] theorem Span.width_shift (offset : Nat) (s : Span) : (s.shift offset).width = s.width := by
  simp only [shift, width]
  omega

theorem Span.shift_sub {offset start stop : Nat} (hstart : offset ≤ start) (hstop : offset ≤ stop) :
    (Span.mk (start - offset) (stop - offset)).shift offset = ⟨start, stop⟩ := by
  simp only [shift, Nat.add_sub_cancel' hstart, Nat.add_sub_cancel' hstop]

/-- The positions of a slice are those of the list from the start of the span on. -/
theorem Span.getElem?_slice {α : Type} {s : Span} {xs : List α} {i : Nat}
    (h : i < (s.slice xs).length) : (s.slice xs)[i]? = xs[s.start + i]? := by
  have hi : i < s.width := by
    rw [slice, List.length_take] at h
    omega
  rw [slice, List.getElem?_take_of_lt hi, List.getElem?_drop]

namespace Derivation

/-- The derivation with its split as many positions further right. -/
def shift (offset : Nat) : Derivation → Derivation
  | leaf p => leaf p
  | branch split left right p => branch (offset + split) left right p

@[simp] theorem prob_shift (offset : Nat) (d : Derivation) : (d.shift offset).prob = d.prob := by
  cases d <;> rfl

@[simp] theorem equal_shift (offset : Nat) (d e : Derivation) :
    (d.shift offset).equal (e.shift offset) = d.equal e := by
  cases d with
  | leaf p => cases e <;> rfl
  | branch split left right p =>
      cases e with
      | leaf q => rfl
      | branch split' left' right' q =>
          have hsplit : (offset + split == offset + split') = (split == split') := by
            simp only [beq_eq_beq, Nat.add_left_cancel_iff]
          simp only [shift, equal, hsplit]

/-- A branch does not split at the first position, where a leaf counts as split. -/
def SplitsInside : Derivation → Prop
  | leaf _ => True
  | branch split _ _ _ => 0 < split

theorem compare_split_shift (offset : Nat) {d e : Derivation} (hd : d.SplitsInside)
    (he : e.SplitsInside) :
    compare (d.shift offset).split (e.shift offset).split = compare d.split e.split := by
  cases d with
  | leaf p =>
      cases e with
      | leaf q => rfl
      | branch split' left' right' q =>
          have hpos : 0 < split' := he
          have hpos' : 0 < offset + split' := by omega
          exact (Nat.compare_eq_lt.mpr hpos').trans (Nat.compare_eq_lt.mpr hpos).symm
  | branch split left right p =>
      cases e with
      | leaf q =>
          have hpos : 0 < split := hd
          have hpos' : 0 < offset + split := by omega
          exact (Nat.compare_eq_gt.mpr hpos').trans (Nat.compare_eq_gt.mpr hpos).symm
      | branch split' left' right' q =>
          simp only [shift, Derivation.split, Nat.compare_eq_ite_lt, Nat.add_lt_add_iff_left]

/-- Moved derivations are preferred to each other as before. -/
theorem preference_shift (offset : Nat) {d e : Derivation} (hd : d.SplitsInside)
    (he : e.SplitsInside) : preference (d.shift offset) (e.shift offset) = preference d e := by
  have hsplit := compare_split_shift offset he hd
  have hleft : ∀ d : Derivation, (d.shift offset).left = d.left := by
    intro d
    cases d <;> rfl
  have hright : ∀ d : Derivation, (d.shift offset).right = d.right := by
    intro d
    cases d <;> rfl
  simp only [preference, comparePlace, compareLex, compareOn, prob_shift, hsplit, hleft, hright]

theorem better_shift (offset : Nat) {d e : Derivation} (hd : d.SplitsInside)
    (he : e.SplitsInside) :
    better (d.shift offset) (e.shift offset) = (better d e).shift offset := by
  rw [better, preference_shift offset hd he, better]
  split <;> rfl

theorem foldl_better_shift (offset : Nat) {d : Derivation} {ds : List Derivation}
    (hd : d.SplitsInside) (hds : ∀ e ∈ ds, e.SplitsInside) :
    (ds.map (shift offset)).foldl better (d.shift offset) = (ds.foldl better d).shift offset := by
  induction ds generalizing d with
  | nil => rfl
  | cons e ds ih =>
      have he : e.SplitsInside := hds e List.mem_cons_self
      have hbetter : (better d e).SplitsInside := by
        rcases better_eq_or_eq d e with h | h
        · rwa [h]
        · rwa [h]
      rw [List.map_cons, List.foldl_cons, List.foldl_cons, better_shift offset hd he]
      exact ih hbetter fun e he => hds e (List.mem_cons_of_mem _ he)

/-- The preferred one of moved derivations is the preferred one, moved. -/
theorem best?_shift (offset : Nat) {ds : List Derivation} (hds : ∀ d ∈ ds, d.SplitsInside) :
    best? (ds.map (shift offset)) = (best? ds).map (shift offset) := by
  cases ds with
  | nil => rfl
  | cons d ds =>
      have hfold := foldl_better_shift offset (hds d List.mem_cons_self) fun e he =>
        hds e (List.mem_cons_of_mem _ he)
      simp only [best?, List.map_cons, hfold, Option.map_some]

end Derivation

/-! ### Moved cells -/

namespace Entry

/-- The entry with all of its derivations moved. -/
def shift (offset : Nat) (e : Entry) : Entry := ⟨e.derivations.map (.shift offset), e.best⟩

theorem single_shift (offset : Nat) (d : Derivation) :
    single (d.shift offset) = (single d).shift offset := by
  simp only [single, shift, List.map_singleton, Derivation.prob_shift]

theorem record_shift (offset : Nat) (e : Entry) (d : Derivation) :
    (e.shift offset).record (d.shift offset) = (e.record d).shift offset := by
  have hany : (e.shift offset).derivations.any (·.equal (d.shift offset)) =
      e.derivations.any (·.equal d) := by
    simp only [shift, List.any_map, Function.comp_def, Derivation.equal_shift]
  rw [record, hany, record]
  split
  · rfl
  · simp only [shift, List.map_append, List.map_singleton, Derivation.prob_shift]

theorem foldl_record_shift (offset : Nat) (e : Entry) (ds : List Derivation) :
    (ds.map (Derivation.shift offset)).foldl record (e.shift offset) =
      (ds.foldl record e).shift offset := by
  induction ds generalizing e with
  | nil => rfl
  | cons d ds ih => rw [List.map_cons, List.foldl_cons, record_shift, ih, List.foldl_cons]

theorem ofDerivations?_shift (offset : Nat) (ds : List Derivation) :
    ofDerivations? (ds.map (Derivation.shift offset)) =
      (ofDerivations? ds).map (shift offset) := by
  cases ds with
  | nil => rfl
  | cons d ds =>
      rw [List.map_cons, ofDerivations?, single_shift, foldl_record_shift, ofDerivations?,
        Option.map_some]

end Entry

namespace Cell

/-- The cell with all of its derivations moved. -/
def shift (offset : Nat) (cell : Cell) : Cell := ⟨cell.entries.map fun _ e => e.shift offset⟩

theorem ext_entries {cell cell' : Cell}
    (h : ∀ symbol : String, cell.entries[symbol]? = cell'.entries[symbol]?) : cell = cell' := by
  obtain ⟨entries⟩ := cell
  obtain ⟨entries'⟩ := cell'
  exact congrArg Cell.mk (ExtTreeMap.ext_getElem? h)

theorem entries_shift (offset : Nat) (cell : Cell) (symbol : String) :
    (cell.shift offset).entries[symbol]? = cell.entries[symbol]?.map (Entry.shift offset) :=
  ExtTreeMap.getElem?_map

@[simp] theorem symbols_shift (offset : Nat) (cell : Cell) :
    (cell.shift offset).symbols = cell.symbols :=
  ExtTreeMap.keys_map

@[simp] theorem derivations_shift (offset : Nat) (cell : Cell) (symbol : String) :
    (cell.shift offset).derivations symbol = (cell.derivations symbol).map (.shift offset) := by
  rw [derivations, entries_shift, derivations]
  cases cell.entries[symbol]? <;> rfl

@[simp] theorem bestProb?_shift (offset : Nat) (cell : Cell) (symbol : String) :
    (cell.shift offset).bestProb? symbol = cell.bestProb? symbol := by
  rw [bestProb?, entries_shift, bestProb?]
  cases cell.entries[symbol]? <;> rfl

@[simp] theorem bestProbs_shift (offset : Nat) (cell : Cell) :
    (cell.shift offset).bestProbs = cell.bestProbs := by
  simp only [bestProbs_eq, symbols_shift, bestProb?_shift]

theorem rowOf_shift (offset : Nat) (row : List (String × Derivation)) (symbol : String) :
    rowOf symbol (row.map fun x => (x.1, x.2.shift offset)) =
      (rowOf symbol row).map (.shift offset) := by
  rw [rowOf, rowOf, List.filterMap_map, List.map_filterMap]
  apply List.filterMap_congr
  intro x _
  by_cases h : x.1 = symbol
  · simp [h]
  · simp [h]

/-- Recording moved derivations gives the moved cell. -/
theorem ofDerivations_shift (offset : Nat) (row : List (String × Derivation)) :
    ofDerivations (row.map fun x => (x.1, x.2.shift offset)) =
      (ofDerivations row).shift offset := by
  apply ext_entries
  intro symbol
  rw [entries_shift, entries_ofDerivations, entries_ofDerivations, rowOf_shift,
    Entry.ofDerivations?_shift]

end Cell

/-! ### Filling -/

namespace Grammar

variable (g : Grammar)

theorem lexicalDerivations_shift (offset : Nat) (word : String) :
    (g.lexicalDerivations word).map (fun x => (x.1, x.2.shift offset)) =
      g.lexicalDerivations word := by
  simp only [lexicalDerivations, List.map_map, Function.comp_def, Derivation.shift]

theorem derivationsFrom_shift (offset split : Nat) (rightCell : Cell) (left : String)
    (p : Binary64) :
    g.derivationsFrom (offset + split) (rightCell.shift offset) left p =
      (g.derivationsFrom split rightCell left p).map fun x => (x.1, x.2.shift offset) := by
  rw [derivationsFrom, derivationsFrom, List.map_filterMap]
  apply List.filterMap_congr
  intro entry _
  rw [Cell.bestProb?_shift, Option.map_map]
  rfl

/-- The derivations of a moved span are the moved derivations, if the cells of the parts are moved
cells. -/
theorem binaryDerivations_shift {chart chart' : Chart} {offset : Nat} {t : Span}
    (h : ∀ split, t.start < split → split < t.stop →
      chart.cell (Span.shift offset ⟨t.start, split⟩) =
          (chart'.cell ⟨t.start, split⟩).shift offset ∧
        chart.cell (Span.shift offset ⟨split, t.stop⟩) =
          (chart'.cell ⟨split, t.stop⟩).shift offset) :
    g.binaryDerivations chart (t.shift offset) =
      (g.binaryDerivations chart' t).map fun x => (x.1, x.2.shift offset) := by
  have hsplits : List.range' ((t.shift offset).start + 1) ((t.shift offset).width - 1) =
      (List.range' (t.start + 1) (t.width - 1)).map fun split => offset + split := by
    rw [List.map_add_range', Span.width_shift]
    rfl
  rw [binaryDerivations, hsplits, List.flatMap_map, binaryDerivations, List.map_flatMap]
  apply List.flatMap_congr
  intro split hsplit
  obtain ⟨hstart, hupper⟩ := List.mem_range'_1.mp hsplit
  have hstop : split < t.stop := by
    rw [Span.width] at hupper
    omega
  obtain ⟨hleft, hright⟩ := h split hstart hstop
  rw [Span.shift] at hleft hright
  simp only [Span.shift, hleft, hright, Cell.bestProbs_shift, derivationsFrom_shift,
    List.map_flatMap]

section Slice

variable {tokens : List String} {s t : Span}

theorem within_shift_of_slice (ht : t.Within (s.slice tokens).length) :
    (t.shift s.start).Within tokens.length := by
  obtain ⟨hlt, hle⟩ := ht
  rw [Span.slice, List.length_take, List.length_drop] at hle
  simp only [Span.shift, Span.within_mk]
  omega

/-- The rows of a slice are moved rows of the whole, if the narrower cells are moved cells. -/
theorem derivationsOver_slice (ht : t.Within (s.slice tokens).length)
    (hnarrow : ∀ u : Span, u.width < t.width → u.Within (s.slice tokens).length →
      (g.fill tokens).cell (u.shift s.start) =
        ((g.fill (s.slice tokens)).cell u).shift s.start) :
    g.derivationsOver tokens (g.fill tokens) (t.shift s.start) =
      (g.derivationsOver (s.slice tokens) (g.fill (s.slice tokens)) t).map
        fun x => (x.1, x.2.shift s.start) := by
  obtain ⟨hlt, hle⟩ := ht
  rw [derivationsOver, derivationsOver, Span.width_shift]
  split
  · have htoken := Span.getElem?_slice (Nat.lt_of_lt_of_le hlt hle)
    have hstart : (t.shift s.start).start = s.start + t.start := rfl
    rw [hstart, htoken]
    cases tokens[s.start + t.start]? with
    | none => rfl
    | some word => exact (g.lexicalDerivations_shift s.start word).symm
  · apply g.binaryDerivations_shift
    intro split hstart hstop
    obtain ⟨hleft, hright⟩ := Span.width_lt_of_split hstart hstop
    exact ⟨hnarrow _ hleft (Span.within_mk.mpr ⟨hstart, by omega⟩),
      hnarrow _ hright (Span.within_mk.mpr ⟨hstop, hle⟩)⟩

/-- The cells over the parts of a span are moved cells of the chart of the slice. The induction is
on the width, as the row of a span is made from narrower cells. -/
theorem cell_fill_shift (ht : t.Within (s.slice tokens).length) :
    (g.fill tokens).cell (t.shift s.start) =
      ((g.fill (s.slice tokens)).cell t).shift s.start := by
  generalize hwidth : t.width = width
  induction width using Nat.strongRecOn generalizing t with
  | _ width ih =>
      rw [cell_fill g tokens (within_shift_of_slice ht), cell_fill g _ ht,
        g.derivationsOver_slice ht, Cell.ofDerivations_shift]
      intro u hu hwithin
      exact ih u.width (hwidth ▸ hu) hwithin rfl

end Slice

end Grammar

end ChartParser
