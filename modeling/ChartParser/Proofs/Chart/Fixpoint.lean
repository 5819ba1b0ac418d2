import ChartParser.Chart.Fill
import ChartParser.Proofs.Chart.Table
import Mathlib.Data.List.Basic

/-! # The filled chart as a fixed point

When a span is filled, the cells of all narrower spans are final. Its cell is therefore what the
finished chart itself gives for it. -/

namespace ChartParser

namespace Grammar

variable (g : Grammar) (tokens : List String)

@[simp] theorem length_fillSpan (chart : Chart) (s : Span) :
    (g.fillSpan tokens chart s).length = chart.length :=
  Chart.length_set _ _ _

theorem length_foldl_fillSpan (spans : List Span) (chart : Chart) :
    (spans.foldl (g.fillSpan tokens) chart).length = chart.length := by
  induction spans generalizing chart with
  | nil => rfl
  | cons s spans ih => rw [List.foldl_cons, ih, length_fillSpan]

@[simp] theorem length_fill : (g.fill tokens).length = tokens.length :=
  length_foldl_fillSpan g tokens _ _

/-- A run over some spans leaves the cells of all other spans alone. -/
theorem cell_foldl_fillSpan_of_not_mem {spans : List Span} {t : Span} (chart : Chart)
    (h : t ∉ spans) : (spans.foldl (g.fillSpan tokens) chart).cell t = chart.cell t := by
  induction spans generalizing chart with
  | nil => rfl
  | cons s spans ih =>
      simp only [List.mem_cons, not_or] at h
      rw [List.foldl_cons, ih _ h.2]
      exact Chart.cell_set_of_ne chart (Ne.symm h.1) _

/-- Only the cells of narrower spans are read. -/
theorem derivationsOver_congr {chart chart' : Chart} {s : Span}
    (h : ∀ t : Span, t.width < s.width → chart.cell t = chart'.cell t) :
    g.derivationsOver tokens chart s = g.derivationsOver tokens chart' s := by
  by_cases hs : s.width = 1
  · simp [derivationsOver, hs]
  · simp only [derivationsOver, hs, if_false]
    apply List.flatMap_congr
    intro split hsplit
    obtain ⟨hlower, hupper⟩ := List.mem_range'_1.mp hsplit
    have hstop : split < s.stop := by
      rw [Span.width] at hupper
      omega
    obtain ⟨hleft, hright⟩ := Span.width_lt_of_split hlower hstop
    simp only [h _ hleft, h _ hright]

/-- The cell of a span is built from the finished chart. -/
theorem cell_fill {s : Span} (h : s.Within tokens.length) :
    (g.fill tokens).cell s = .ofDerivations (g.derivationsOver tokens (g.fill tokens) s) := by
  obtain ⟨before, after, hall⟩ := List.append_of_mem (Span.mem_all.mpr h)
  let chart := before.foldl (g.fillSpan tokens) (.empty tokens.length)
  have hfill : g.fill tokens = after.foldl (g.fillSpan tokens) (g.fillSpan tokens chart s) := by
    rw [fill, hall, List.foldl_append, List.foldl_cons]
  have hlength : chart.length = tokens.length := length_foldl_fillSpan g tokens _ _
  have horder := Span.pairwise_all tokens.length
  rw [hall, List.pairwise_append, List.pairwise_cons] at horder
  have hafter : ∀ t ∈ after, s.Precedes t := horder.2.1.1
  have hself : s ∉ after := fun hs => (hafter s hs).ne rfl
  -- Narrower spans come before this one, so their cells are those of the chart so far.
  have hnarrow : ∀ t : Span, t.width < s.width → (g.fill tokens).cell t = chart.cell t := by
    intro t ht
    have hne : s ≠ t := by
      rintro rfl
      exact Nat.lt_irrefl _ ht
    have hlate : t ∉ after := by
      intro hmem
      have hle := (hafter t hmem).width_le
      omega
    rw [hfill, cell_foldl_fillSpan_of_not_mem g tokens _ hlate]
    exact Chart.cell_set_of_ne chart hne _
  calc
    (g.fill tokens).cell s = (g.fillSpan tokens chart s).cell s := by
      rw [hfill, cell_foldl_fillSpan_of_not_mem g tokens _ hself]
    _ = .ofDerivations (g.derivationsOver tokens chart s) :=
      Chart.cell_set_self (hlength ▸ h) _
    _ = .ofDerivations (g.derivationsOver tokens (g.fill tokens) s) := by
      rw [derivationsOver_congr g tokens hnarrow]

theorem cell_fill_of_not_within {s : Span} (h : ¬s.Within tokens.length) :
    (g.fill tokens).cell s = ∅ :=
  Chart.cell_of_not_within (by rwa [length_fill])

end Grammar

end ChartParser
