import ChartParser.Chart.Table
import Mathlib.Data.Set.Function

/-! # The triangle of a chart

Every span of an input has a place of its own and every place is that of a span, so replacing one
cell leaves the others alone. The spans are listed once each, by width and then by start. -/

namespace ChartParser

namespace Span

/-- A span of an input of a given length: it is not empty and ends within the input. -/
def Within (s : Span) (length : Nat) : Prop := s.start < s.stop ∧ s.stop ≤ length

instance (s : Span) (length : Nat) : Decidable (s.Within length) :=
  inferInstanceAs (Decidable (_ ∧ _))

@[simp] theorem width_mk (start stop : Nat) : (Span.mk start stop).width = stop - start := rfl

@[simp] theorem within_mk {start stop length : Nat} :
    (Span.mk start stop).Within length ↔ start < stop ∧ stop ≤ length :=
  Iff.rfl

/-- Both parts of a span at a split inside are narrower. -/
theorem width_lt_of_split {start split stop : Nat} (hstart : start < split) (hstop : split < stop) :
    (Span.mk start split).width < (Span.mk start stop).width ∧
      (Span.mk split stop).width < (Span.mk start stop).width := by
  simp only [width_mk]
  omega

/-- The order in which spans are listed. -/
def Precedes (s t : Span) : Prop :=
  s.width < t.width ∨ s.width = t.width ∧ s.start < t.start

theorem Within.place_lt {s : Span} {length : Nat} (h : s.Within length) :
    s.place < length * (length + 1) / 2 :=
  Span.place_lt h.1 h.2

theorem Precedes.ne {s t : Span} (h : s.Precedes t) : s ≠ t := by
  rintro rfl
  rcases h with h | ⟨_, h⟩
  · exact Nat.lt_irrefl _ h
  · exact Nat.lt_irrefl _ h

theorem Precedes.width_le {s t : Span} (h : s.Precedes t) : s.width ≤ t.width := by
  rcases h with h | ⟨h, _⟩
  · exact Nat.le_of_lt h
  · exact Nat.le_of_eq h

/-! ### Places -/

/-- The spans that end at the next position follow all that end earlier. -/
theorem triangle_succ (n : Nat) : (n + 1) * n / 2 = n * (n - 1) / 2 + n := by
  cases n with
  | zero => rfl
  | succ n =>
      rw [Nat.add_sub_cancel, ← Nat.add_mul_div_right _ _ (by decide : 0 < 2), ← Nat.mul_add,
        Nat.mul_comm]

theorem place_lt_place {s t : Span} (hs : s.start < s.stop) (h : s.stop < t.stop) :
    s.place < t.place := by
  have htriangle : (s.stop + 1) * s.stop / 2 ≤ t.stop * (t.stop - 1) / 2 :=
    Nat.div_le_div_right (Nat.mul_le_mul h (by omega))
  rw [triangle_succ] at htriangle
  unfold place
  omega

/-- Nonempty spans at one place are the same. -/
theorem place_inj {s t : Span} (hs : s.start < s.stop) (ht : t.start < t.stop)
    (h : s.place = t.place) : s = t := by
  rcases Nat.lt_trichotomy s.stop t.stop with hlt | heq | hlt
  · have hplace := place_lt_place hs hlt
    omega
  · obtain ⟨start, stop⟩ := s
    obtain ⟨start', stop'⟩ := t
    simp only at heq
    subst heq
    simp only [place] at h
    rw [Nat.add_left_cancel h]
  · have hplace := place_lt_place ht hlt
    omega

/-- Every place in a triangle is that of a span. The spans that end with the input take the places
behind all others, and these fill the triangle of a shorter input. -/
theorem exists_place_eq {length i : Nat} (h : i < length * (length + 1) / 2) :
    ∃ s : Span, s.Within length ∧ s.place = i := by
  induction length with
  | zero => exact absurd h (Nat.not_lt_zero i)
  | succ length ih =>
      rw [Nat.mul_comm, triangle_succ, Nat.add_sub_cancel] at h
      by_cases hshort : i < (length + 1) * length / 2
      · obtain ⟨s, hs, hplace⟩ := ih (by rwa [Nat.mul_comm])
        exact ⟨s, ⟨hs.1, Nat.le_succ_of_le hs.2⟩, hplace⟩
      · have hlt : i - (length + 1) * length / 2 < length + 1 := by omega
        exact ⟨⟨_, length + 1⟩, ⟨hlt, Nat.le_refl _⟩, Nat.add_sub_of_le (Nat.le_of_not_lt hshort)⟩

/-! ### The list of all spans -/

theorem mem_all {s : Span} {length : Nat} : s ∈ all length ↔ s.Within length := by
  obtain ⟨start, stop⟩ := s
  simp only [all, List.mem_flatMap, List.mem_range, List.mem_map, Within, Span.mk.injEq]
  constructor
  · rintro ⟨i, hi, _, hstart, rfl, rfl⟩
    omega
  · rintro ⟨hlt, hle⟩
    exact ⟨stop - start - 1, by omega, start, by omega, rfl, by omega⟩

theorem pairwise_all (length : Nat) : (all length).Pairwise Precedes := by
  unfold all
  rw [List.pairwise_flatMap]
  constructor
  · -- Spans of one width come by their starts.
    intro i _
    rw [List.pairwise_map]
    refine List.pairwise_lt_range.imp ?_
    intro start start' hlt
    refine .inr ⟨?_, hlt⟩
    simp only [width_mk]
    omega
  · refine List.pairwise_lt_range.imp ?_
    intro i i' hlt s hs t ht
    obtain ⟨start, _, rfl⟩ := List.mem_map.mp hs
    obtain ⟨start', _, rfl⟩ := List.mem_map.mp ht
    left
    simp only [width_mk]
    omega

theorem nodup_all (length : Nat) : (all length).Nodup :=
  List.nodup_iff_pairwise_ne.mpr ((pairwise_all length).imp Precedes.ne)

theorem count_all (length : Nat) (s : Span) :
    (all length).count s = if s.Within length then 1 else 0 := by
  simp only [(nodup_all length).count, mem_all]

end Span

/-! ### Cells -/

namespace Chart

theorem index?_of_within {s : Span} {length : Nat} (h : s.Within length) :
    index? length s = some ⟨s.place, h.place_lt⟩ :=
  dif_pos h

theorem index?_of_not_within {s : Span} {length : Nat} (h : ¬s.Within length) :
    index? length s = none :=
  dif_neg h

/-- The spans of an input and the places of its chart belong together, one to one. -/
theorem bijOn_index? (length : Nat) :
    Set.BijOn (index? length) {s | s.Within length} (Set.range some) := by
  refine ⟨?_, ?_, ?_⟩
  · intro s hs
    exact ⟨_, (index?_of_within hs).symm⟩
  · intro s hs t ht heq
    rw [index?_of_within hs, index?_of_within ht] at heq
    exact Span.place_inj hs.1 ht.1 (Fin.mk.inj (Option.some.inj heq))
  · rintro _ ⟨i, rfl⟩
    obtain ⟨s, hs, hplace⟩ := Span.exists_place_eq i.isLt
    have hindex : (⟨s.place, hs.place_lt⟩ : Fin _) = i := Fin.ext hplace
    exact ⟨s, hs, by rw [index?_of_within hs, hindex]⟩

theorem cell_mk_of_within {s : Span} {length : Nat} (h : s.Within length)
    (cells : Vector Cell (length * (length + 1) / 2)) :
    (Chart.mk length cells).cell s = cells.get ⟨s.place, h.place_lt⟩ := by
  simp only [cell, index?_of_within h]
  rfl

theorem cell_of_not_within {chart : Chart} {s : Span} (h : ¬s.Within chart.length) :
    chart.cell s = ∅ := by
  rw [cell, index?_of_not_within h]

theorem set_mk_of_within {s : Span} {length : Nat} (h : s.Within length)
    (cells : Vector Cell (length * (length + 1) / 2)) (c : Cell) :
    (Chart.mk length cells).set s c = ⟨length, cells.set s.place c h.place_lt⟩ := by
  simp only [set, index?_of_within h]

theorem set_of_not_within {chart : Chart} {s : Span} (h : ¬s.Within chart.length) (c : Cell) :
    chart.set s c = chart := by
  rw [set, index?_of_not_within h]

@[simp] theorem length_set (chart : Chart) (s : Span) (c : Cell) :
    (chart.set s c).length = chart.length := by
  unfold set
  split <;> rfl

theorem cell_set_self {chart : Chart} {s : Span} (h : s.Within chart.length) (c : Cell) :
    (chart.set s c).cell s = c := by
  obtain ⟨length, cells⟩ := chart
  rw [set_mk_of_within h, cell_mk_of_within h]
  exact Vector.getElem_set_self _

/-- Replacing the cell of a span leaves the cells of all other spans alone. -/
theorem cell_set_of_ne (chart : Chart) {s t : Span} (h : s ≠ t) (c : Cell) :
    (chart.set s c).cell t = chart.cell t := by
  by_cases hs : s.Within chart.length
  · by_cases ht : t.Within chart.length
    · have hplace : s.place ≠ t.place := fun he => h (Span.place_inj hs.1 ht.1 he)
      obtain ⟨length, cells⟩ := chart
      rw [set_mk_of_within hs, cell_mk_of_within ht, cell_mk_of_within ht]
      exact Vector.getElem_set_ne _ _ hplace
    · rw [cell_of_not_within ht, cell_of_not_within (by simpa using ht)]
  · rw [set_of_not_within hs]

theorem cell_empty (length : Nat) (s : Span) : (empty length).cell s = ∅ := by
  by_cases h : s.Within length
  · rw [empty, cell_mk_of_within h]
    exact Vector.getElem_replicate _
  · exact cell_of_not_within h

/-- The spans of the input are taken to the places of the chart one to one, and no other pair of
positions has a place. The list of all spans has each of them once, by width and then by start. A
new cell over a span is written at the place of that span, which is one of the row of cells, and the
cells over all other spans stay. -/
theorem triangle_spec (chart : Chart) :
    Set.BijOn (index? chart.length) {s | s.Within chart.length} (Set.range some) ∧
      (∀ s : Span, ¬s.Within chart.length → index? chart.length s = none) ∧
      (∀ s : Span, (Span.all chart.length).count s = if s.Within chart.length then 1 else 0) ∧
      (Span.all chart.length).Pairwise Span.Precedes ∧
      ∀ (s : Span) (c : Cell), s.Within chart.length →
        (∃ i, index? chart.length s = some i ∧ i.val < chart.cells.toList.length ∧
          (chart.set s c).cells.toList = chart.cells.toList.set i.val c) ∧
        ∀ t, (chart.set s c).cell t = if t = s then c else chart.cell t := by
  refine ⟨bijOn_index? chart.length, fun _ => index?_of_not_within, Span.count_all chart.length,
    Span.pairwise_all chart.length, ?_⟩
  intro s c hs
  constructor
  · refine ⟨_, index?_of_within hs, ?_, ?_⟩
    · rw [Vector.length_toList]
      exact hs.place_lt
    · rw [set_mk_of_within hs chart.cells, Vector.toList_set]
  · intro t
    by_cases ht : t = s
    · rw [ht, if_pos rfl, cell_set_self hs]
    · rw [if_neg ht, cell_set_of_ne chart (Ne.symm ht)]

/-- Of the six places for three tokens, the span of the last two has the last but one, and a new
cell there leaves the cell before it alone. -/
theorem triangle_spec_threeTokens :
    let chart := empty 3
    let c := Cell.empty.record "S" (.leaf .one)
    (⟨1, 3⟩ : Span).Within chart.length ∧ ¬(⟨2, 4⟩ : Span).Within chart.length ∧
      (index? chart.length ⟨1, 3⟩).map Fin.val = some 4 ∧ index? chart.length ⟨2, 4⟩ = none ∧
      (Span.all chart.length).count ⟨1, 3⟩ = 1 ∧ (chart.set ⟨1, 3⟩ c).cell ⟨1, 3⟩ = c ∧
      (chart.set ⟨1, 3⟩ c).cell ⟨0, 3⟩ = ∅ := by
  intro chart c
  have hs : (⟨1, 3⟩ : Span).Within chart.length := by decide
  have hoff : ¬(⟨2, 4⟩ : Span).Within chart.length := by decide
  obtain ⟨-, hnone, hcount, -, hset⟩ := triangle_spec chart
  obtain ⟨-, hcell⟩ := hset ⟨1, 3⟩ c hs
  refine ⟨hs, hoff, by decide, hnone _ hoff, ?_, ?_, ?_⟩
  · rw [hcount, if_pos hs]
  · rw [hcell, if_pos rfl]
  · rw [hcell, if_neg (by decide)]
    exact cell_empty 3 ⟨0, 3⟩

end Chart

end ChartParser
