import ChartParser.Counts.Basic
import Mathlib.Algebra.BigOperators.Group.List.Lemmas
import Mathlib.Algebra.GroupWithZero.Nat

/-! # Tallies

A tally of a row of things holds how often each of them occurs in the row. It is therefore the same
for every order of the row, and its numbers add up to the length of the row. -/

namespace ChartParser

open Std (ExtTreeMap)

variable {α : Type} [Ord α] [Std.TransOrd α] [Std.LawfulEqOrd α]
variable {counts : ExtTreeMap α Nat} {as bs : List α} {a b : α}

/-! ### Look-up -/

section

variable [DecidableEq α]

theorem getElem?_tally (counts : ExtTreeMap α Nat) (a b : α) :
    (tally counts a)[b]? = if a = b then some (counts[b]?.getD 0 + 1) else counts[b]? := by
  rw [tally, ExtTreeMap.getElem?_alter]
  simp only [Std.LawfulEqOrd.compare_eq_iff_eq]
  by_cases h : a = b
  · rw [if_pos h, if_pos h, h]
  · rw [if_neg h, if_neg h]

theorem getElem?_foldl_tally (counts : ExtTreeMap α Nat) (as : List α) (b : α) :
    (as.foldl tally counts)[b]? =
      if b ∈ as then some (counts[b]?.getD 0 + as.count b) else counts[b]? := by
  induction as generalizing counts with
  | nil => simp
  | cons a as ih =>
      rw [List.foldl_cons, ih, getElem?_tally]
      by_cases hab : a = b
      · subst hab
        by_cases hmem : a ∈ as
        · simp [hmem, Nat.add_assoc, Nat.add_comm 1]
        · simp [hmem, List.count_eq_zero_of_not_mem hmem]
      · simp [hab, Ne.symm hab]

/-- What was not counted counts as zero. -/
theorem getD_foldl_tally (as : List α) (b : α) :
    (as.foldl tally (∅ : ExtTreeMap α Nat))[b]?.getD 0 = as.count b := by
  rw [getElem?_foldl_tally]
  split
  · simp
  · next h => simp [List.count_eq_zero_of_not_mem h]

end

theorem mem_tally_iff : b ∈ tally counts a ↔ b = a ∨ b ∈ counts := by
  classical
  rw [ExtTreeMap.mem_iff_isSome_getElem?, ExtTreeMap.mem_iff_isSome_getElem?, getElem?_tally]
  split
  · next h => simp [h]
  · next h => simp [Ne.symm h]

theorem mem_foldl_tally_iff : b ∈ as.foldl tally counts ↔ b ∈ as ∨ b ∈ counts := by
  induction as generalizing counts with
  | nil => simp
  | cons a as ih =>
      rw [List.foldl_cons, ih, mem_tally_iff, List.mem_cons, or_left_comm, or_assoc]

/-- Counted from nothing is what occurs. -/
theorem mem_foldl_tally_empty_iff : b ∈ as.foldl tally (∅ : ExtTreeMap α Nat) ↔ b ∈ as := by
  rw [mem_foldl_tally_iff]
  simp

/-! ### Order and sums -/

theorem foldl_tally_perm (h : as.Perm bs) : as.foldl tally counts = bs.foldl tally counts := by
  classical
  refine ExtTreeMap.ext_getElem? fun b => ?_
  simp only [getElem?_foldl_tally, h.mem_iff, h.count_eq]

variable [DecidableEq α]

/-- The entries of a tally: everything that occurs, once, with its multiplicity. -/
theorem toList_foldl_tally_perm (as : List α) :
    (as.foldl tally (∅ : ExtTreeMap α Nat)).toList.Perm
      (as.dedup.map fun a => (a, as.count a)) := by
  have hkeys : (as.foldl tally (∅ : ExtTreeMap α Nat)).toList.Nodup := by
    refine List.Nodup.of_map Prod.fst ?_
    rw [ExtTreeMap.map_fst_toList_eq_keys]
    exact ExtTreeMap.nodup_keys
  have hdedup : (as.dedup.map fun a => (a, as.count a)).Nodup :=
    as.nodup_dedup.map fun a b h => congrArg Prod.fst h
  rw [List.perm_ext_iff_of_nodup hkeys hdedup]
  rintro ⟨a, n⟩
  rw [ExtTreeMap.mem_toList_iff_getElem?_eq_some, getElem?_foldl_tally, List.mem_map]
  constructor
  · intro h
    split at h
    · next hmem => exact ⟨a, List.mem_dedup.mpr hmem, by simpa using h⟩
    · simp at h
  · rintro ⟨b, hb, heq⟩
    obtain ⟨rfl, rfl⟩ := Prod.mk.inj heq
    simp [List.mem_dedup.mp hb]

/-- The numbers of the kinds with a property add up to the number of things that have it. -/
theorem sum_filter_foldl_tally (as : List α) (p : α → Bool) :
    (((as.foldl tally (∅ : ExtTreeMap α Nat)).toList.filter (p ·.1)).map (·.2)).sum =
      as.countP p := by
  rw [← List.sum_map_count_dedup_filter_eq_countP p as]
  refine (((toList_foldl_tally_perm as).filter _).map _).sum_eq.trans ?_
  rw [List.filter_map, List.map_map]
  rfl

theorem sum_foldl_tally (as : List α) :
    ((as.foldl tally (∅ : ExtTreeMap α Nat)).toList.map (·.2)).sum = as.length := by
  simpa using sum_filter_foldl_tally as fun _ => true

end ChartParser
