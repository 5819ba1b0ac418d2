import ChartParser.Chart.Derivation
import ChartParser.Proofs.Binary64.UnitInterval
import Mathlib.Data.List.Pairwise

/-! # Choosing among derivations

Two choices are made from one list: the preferred derivation, by the total order of patterns and by
place, and the highest probability, by the numeric order. Between positive zero and one the two
agree. -/

namespace ChartParser

namespace Derivation

/-! ### The preferred derivation -/

private instance : Std.TransCmp comparePlace :=
  inferInstanceAs (Std.TransCmp
    (compareLex (compareOn split) (compareLex (compareOn left) (compareOn right))))

private instance : Std.TransCmp fun d e : Derivation => d.prob.totalCompare e.prob :=
  inferInstanceAs (Std.TransCmp (compareOn fun d : Derivation => d.prob.rank))

instance : Std.TransCmp preference :=
  inferInstanceAs (Std.TransCmp
    (compareLex (fun d e => d.prob.totalCompare e.prob) fun d e => comparePlace e d))

theorem rank_le_of_isLE_preference {d e : Derivation} (h : (preference d e).isLE) :
    d.prob.rank ≤ e.prob.rank := by
  have hleft := Ordering.isLE_left_of_isLE_then h
  exact Std.isLE_compare.mp hleft

theorem better_eq_or_eq (d e : Derivation) : better d e = d ∨ better d e = e := by
  unfold better
  split
  · exact .inl rfl
  · exact .inr rfl

/-- `LastPreferred ds d` says that `d` is preferred to all that follow it in the list, and that none
before it is preferred to `d`. -/
def LastPreferred (ds : List Derivation) (d : Derivation) : Prop :=
  ∃ before after, ds = before ++ d :: after ∧ (∀ e ∈ before, (preference e d).isLE) ∧
    ∀ e ∈ after, preference e d = .lt

namespace LastPreferred

variable {ds : List Derivation} {d e f : Derivation}

theorem mem (h : LastPreferred ds d) : d ∈ ds := by
  obtain ⟨before, after, rfl, _, _⟩ := h
  simp

theorem isLE (h : LastPreferred ds d) (he : e ∈ ds) : (preference e d).isLE := by
  obtain ⟨before, after, rfl, hbefore, hafter⟩ := h
  rcases List.mem_append.mp he with he | he
  · exact hbefore e he
  rcases List.mem_cons.mp he with rfl | he
  · exact Std.ReflCmp.isLE_rfl
  · simp [hafter e he]

theorem cons (h : LastPreferred ds d) (he : (preference e d).isLE) :
    LastPreferred (e :: ds) d := by
  obtain ⟨before, after, rfl, hbefore, hafter⟩ := h
  exact ⟨e :: before, after, rfl, List.forall_mem_cons.mpr ⟨he, hbefore⟩, hafter⟩

/-- A derivation that loses against an earlier one may be passed over. -/
theorem insert (h : LastPreferred (e :: ds) d) (hf : preference f e = .lt) :
    LastPreferred (e :: f :: ds) d := by
  have hle := h.isLE List.mem_cons_self
  have hlt : preference f d = .lt := Std.TransCmp.lt_of_lt_of_isLE hf hle
  obtain ⟨before, after, heq, hbefore, hafter⟩ := h
  cases before with
  | nil =>
      obtain ⟨rfl, rfl⟩ := List.cons.inj heq
      exact ⟨[], f :: ds, rfl, by simp, List.forall_mem_cons.mpr ⟨hlt, hafter⟩⟩
  | cons b before =>
      obtain ⟨rfl, rfl⟩ := List.cons.inj heq
      have hsecond : (preference f d).isLE := by simp [hlt]
      refine ⟨e :: f :: before, after, rfl, ?_, hafter⟩
      simpa [hle, hsecond] using hbefore

end LastPreferred

theorem lastPreferred_foldl_better (d : Derivation) (ds : List Derivation) :
    LastPreferred (d :: ds) (ds.foldl better d) := by
  induction ds generalizing d with
  | nil => exact ⟨[], [], rfl, by simp, by simp⟩
  | cons e ds ih =>
      rw [List.foldl_cons, better]
      split
      · next h => exact (ih d).insert (Std.OrientedCmp.lt_of_gt h)
      · next h =>
        have hde : (preference d e).isLE := Ordering.isLE_iff_ne_gt.mpr h
        exact (ih e).cons (Std.TransCmp.isLE_trans hde ((ih e).isLE List.mem_cons_self))

theorem best?_eq_none {ds : List Derivation} : best? ds = none ↔ ds = [] := by
  cases ds <;> simp [best?]

/-- The preferred derivation is the last one to which no other is preferred. -/
theorem lastPreferred_of_best? {ds : List Derivation} {d : Derivation} (h : best? ds = some d) :
    LastPreferred ds d := by
  cases ds with
  | nil => simp [best?] at h
  | cons e ds =>
      obtain rfl := Option.some.inj h
      exact lastPreferred_foldl_better e ds

/-- The preferred derivation is one of the list, and none of the list is preferred to it. -/
theorem best?_spec {ds : List Derivation} {d : Derivation} (h : best? ds = some d) :
    d ∈ ds ∧ ∀ e ∈ ds, (preference e d).isLE :=
  ⟨(lastPreferred_of_best? h).mem, fun _ => (lastPreferred_of_best? h).isLE⟩

/-! ### The highest probability -/

theorem bestProb?_eq_none {ds : List Derivation} : bestProb? ds = none ↔ ds = [] := by
  cases ds <;> simp [bestProb?]

theorem foldl_max_mem (p : Binary64) (ds : List Derivation) :
    ds.foldl (fun q e => q.max e.prob) p = p ∨
      ∃ d ∈ ds, d.prob = ds.foldl (fun q e => q.max e.prob) p := by
  induction ds generalizing p with
  | nil => exact .inl rfl
  | cons d ds ih =>
      rw [List.foldl_cons]
      rcases ih (p.max d.prob) with heq | ⟨e, he, heq⟩
      · rw [heq]
        rcases Binary64.max_eq_or_eq p d.prob with h | h
        · exact .inl h
        · exact .inr ⟨d, by simp, h.symm⟩
      · exact .inr ⟨e, by simp [he], heq⟩

/-- The highest probability is that of some derivation. -/
theorem exists_of_bestProb? {ds : List Derivation} {p : Binary64} (h : bestProb? ds = some p) :
    ∃ d ∈ ds, d.prob = p := by
  cases ds with
  | nil => simp [bestProb?] at h
  | cons d ds =>
      obtain rfl := Option.some.inj h
      rcases foldl_max_mem d.prob ds with heq | ⟨e, he, heq⟩
      · exact ⟨d, by simp, heq.symm⟩
      · exact ⟨e, by simp [he], heq⟩

theorem le_foldl_max (p : Binary64) (ds : List Derivation) (hp : p.isNaN = false)
    (hds : ∀ d ∈ ds, d.prob.isNaN = false) :
    p ≤ ds.foldl (fun q e => q.max e.prob) p ∧
      ∀ d ∈ ds, d.prob ≤ ds.foldl (fun q e => q.max e.prob) p := by
  induction ds generalizing p with
  | nil => simpa using Binary64.le_refl_of_not_isNaN hp
  | cons d ds ih =>
      obtain ⟨hpm, hdm⟩ := Binary64.le_max hp (hds d (by simp))
      obtain ⟨hm, hle⟩ := ih (p.max d.prob) hpm.2.1 (fun e he => hds e (by simp [he]))
      rw [List.foldl_cons]
      refine ⟨Binary64.le_trans hpm hm, ?_⟩
      intro e he
      rcases List.mem_cons.mp he with rfl | he
      · exact Binary64.le_trans hdm hm
      · exact hle e he

/-- Among numbers the highest probability is above all others. -/
theorem prob_le_of_bestProb? {ds : List Derivation} {p : Binary64}
    (hds : ∀ d ∈ ds, d.prob.isNaN = false) (h : bestProb? ds = some p) :
    ∀ d ∈ ds, d.prob ≤ p := by
  cases ds with
  | nil => simp
  | cons d ds =>
      obtain rfl := Option.some.inj h
      obtain ⟨hd, hle⟩ :=
        le_foldl_max d.prob ds (hds d (by simp)) (fun e he => hds e (by simp [he]))
      exact List.forall_mem_cons.mpr ⟨hd, hle⟩

/-! ### Both choices among numbers -/

/-- Among numbers none is above the probability of the preferred derivation. -/
theorem prob_le_of_best? {ds : List Derivation} {d : Derivation}
    (hds : ∀ d ∈ ds, d.prob.isNaN = false) (h : best? ds = some d) :
    ∀ e ∈ ds, e.prob ≤ d.prob := by
  intro e he
  obtain ⟨hmem, hle⟩ := best?_spec h
  have hrank := rank_le_of_isLE_preference (hle e he)
  exact ⟨hds e he, hds d hmem, Binary64.signed_le_of_rank_le hrank⟩

/-- The preferred derivation has the highest probability, up to the sign of zero. -/
theorem equal_of_best? {ds : List Derivation} {d : Derivation} {p : Binary64}
    (hds : ∀ d ∈ ds, d.prob.isNaN = false) (hd : best? ds = some d) (hp : bestProb? ds = some p) :
    p.equal d.prob = true := by
  have hmax := prob_le_of_bestProb? hds hp d (best?_spec hd).1
  obtain ⟨e, he, rfl⟩ := exists_of_bestProb? hp
  exact Binary64.equal_of_le_of_le (prob_le_of_best? hds hd e he) hmax

/-- On the unit interval it has the highest probability bit by bit. -/
theorem prob_eq_of_best? {ds : List Derivation} {d : Derivation} {p : Binary64}
    (hds : ∀ d ∈ ds, d.prob.InUnit) (hd : best? ds = some d) (hp : bestProb? ds = some p) :
    d.prob = p := by
  have hnumbers : ∀ d ∈ ds, d.prob.isNaN = false := fun d hd => (hds d hd).not_isNaN
  have hmem := (best?_spec hd).1
  have hmax := prob_le_of_bestProb? hnumbers hp d hmem
  obtain ⟨e, he, rfl⟩ := exists_of_bestProb? hp
  exact Binary64.InUnit.le_antisymm (hds d hmem) (hds e he) hmax (prob_le_of_best? hnumbers hd e he)

/-! ### Places -/

/-- Two derivations agree in all but their probabilities. -/
def SamePlace (d e : Derivation) : Prop :=
  d.split = e.split ∧ d.left = e.left ∧ d.right = e.right

/-- Numeric equality holds only at one place. -/
theorem samePlace_of_equal {d e : Derivation} (h : d.equal e = true) : d.SamePlace e := by
  cases d with
  | leaf =>
      cases e with
      | leaf => exact ⟨rfl, rfl, rfl⟩
      | branch => contradiction
  | branch =>
      cases e with
      | leaf => contradiction
      | branch =>
          simp only [equal, Bool.and_eq_true, beq_iff_eq] at h
          exact ⟨h.1.1.1, h.1.1.2, h.1.2⟩

theorem SamePlace.symm {d e : Derivation} (h : d.SamePlace e) : e.SamePlace d :=
  ⟨h.1.symm, h.2.1.symm, h.2.2.symm⟩

theorem comparePlace_eq_iff {d e : Derivation} : comparePlace d e = .eq ↔ d.SamePlace e := by
  change (compare d.split e.split).then
    ((compare d.left e.left).then (compare d.right e.right)) = .eq ↔ _
  simp only [Ordering.then_eq_eq, Std.LawfulEqOrd.compare_eq_iff_eq, SamePlace]

/-- The preference is undecided only between derivations of one probability and one place. -/
theorem preference_eq_iff {d e : Derivation} :
    preference d e = .eq ↔ d.prob = e.prob ∧ d.SamePlace e := by
  have hprob : d.prob.totalCompare e.prob = .eq ↔ d.prob = e.prob := by
    rw [Binary64.totalCompare, Std.LawfulEqOrd.compare_eq_iff_eq, Binary64.rank_inj]
  rw [preference, Ordering.then_eq_eq, hprob, comparePlace_eq_iff]
  exact and_congr_right fun _ => ⟨SamePlace.symm, SamePlace.symm⟩

theorem eq_of_preference_eq {ds : List Derivation}
    (hds : ds.Pairwise fun d e => preference d e ≠ .eq) {d e : Derivation} (hd : d ∈ ds)
    (he : e ∈ ds) (h : preference d e = .eq) : d = e := by
  have : Std.Symm fun d e : Derivation => preference d e ≠ .eq :=
    ⟨fun _ _ hne heq => hne (Std.OrientedCmp.eq_symm heq)⟩
  by_contra hne
  exact hds.forall hd he hne h

/-- The order of places: by split, then by left symbol, then by right symbol. -/
def PlaceLE : Nat × String × String → Nat × String × String → Prop :=
  Prod.Lex (· < ·) (Prod.Lex (· < ·) (· ≤ ·))

private theorem le_of_isLE_compare {a b : String} (h : (compare a b).isLE) : a ≤ b := by
  rcases Ordering.isLE_iff_eq_lt_or_eq_eq.mp h with hlt | heq
  · exact String.lt_asymm (compareOfLessAndEq_eq_lt.mp hlt)
  · obtain rfl := Std.LawfulEqOrd.eq_of_compare heq
    exact String.le_refl a

theorem placeLE_of_isLE_comparePlace {d e : Derivation} (h : (comparePlace d e).isLE) :
    PlaceLE (d.split, d.left, d.right) (e.split, e.left, e.right) := by
  have hplace : ((compare d.split e.split).then
      ((compare d.left e.left).then (compare d.right e.right))).isLE := h
  apply Prod.lex_def.mpr
  rcases Ordering.isLE_then_iff_or.mp hplace with hlt | ⟨heq, hsymbols⟩
  · exact .inl (Std.compare_eq_lt.mp hlt)
  refine .inr ⟨Std.LawfulEqOrd.eq_of_compare heq, ?_⟩
  apply Prod.lex_def.mpr
  rcases Ordering.isLE_then_iff_or.mp hsymbols with hlt | ⟨heq, hright⟩
  · exact .inl (compareOfLessAndEq_eq_lt.mp hlt)
  · exact .inr ⟨Std.LawfulEqOrd.eq_of_compare heq, le_of_isLE_compare hright⟩

/-- Among equally probable derivations the preferred one has the least place. -/
theorem placeLE_of_best? {ds : List Derivation} {d e : Derivation} (hd : best? ds = some d)
    (he : e ∈ ds) (hprob : e.prob = d.prob) :
    PlaceLE (d.split, d.left, d.right) (e.split, e.left, e.right) := by
  have hle : ((e.prob.totalCompare d.prob).then (comparePlace d e)).isLE := (best?_spec hd).2 e he
  have heq : e.prob.totalCompare d.prob = .eq := by
    rw [hprob]
    exact Std.ReflOrd.compare_self
  rw [heq] at hle
  exact placeLE_of_isLE_comparePlace hle

/-! ### Lists with the same members -/

section SameMembers

variable {ds es : List Derivation} (hmem : ∀ d, d ∈ ds ↔ d ∈ es)

include hmem

theorem eq_nil_iff_of_mem_iff : ds = [] ↔ es = [] := by
  simp only [List.eq_nil_iff_forall_not_mem, hmem]

/-- On the unit interval the highest probability depends on the members of a list alone. -/
theorem bestProb?_congr (hds : ∀ d ∈ ds, d.prob.InUnit) : bestProb? ds = bestProb? es := by
  cases hp : bestProb? ds with
  | none =>
      have hes := (eq_nil_iff_of_mem_iff hmem).mp (bestProb?_eq_none.mp hp)
      exact (bestProb?_eq_none.mpr hes).symm
  | some p =>
      cases hq : bestProb? es with
      | none =>
          have hnil := (eq_nil_iff_of_mem_iff hmem).mpr (bestProb?_eq_none.mp hq)
          simp [hnil, bestProb?] at hp
      | some q =>
          have hes : ∀ d ∈ es, d.prob.InUnit := fun d hd => hds d ((hmem d).mpr hd)
          obtain ⟨d, hd, rfl⟩ := exists_of_bestProb? hp
          obtain ⟨e, he, rfl⟩ := exists_of_bestProb? hq
          have hle := prob_le_of_bestProb? (fun d hd => (hes d hd).not_isNaN) hq d ((hmem d).mp hd)
          have hge := prob_le_of_bestProb? (fun d hd => (hds d hd).not_isNaN) hp e ((hmem e).mpr he)
          exact congrArg some (Binary64.InUnit.le_antisymm (hds d hd) (hes e he) hle hge)

/-- Where the preference is decided the preferred derivation depends on the members of a list
alone. -/
theorem best?_congr (hds : ds.Pairwise fun d e => preference d e ≠ .eq) : best? ds = best? es := by
  cases hd : best? ds with
  | none =>
      have hes := (eq_nil_iff_of_mem_iff hmem).mp (best?_eq_none.mp hd)
      exact (best?_eq_none.mpr hes).symm
  | some d =>
      cases he : best? es with
      | none =>
          have hnil := (eq_nil_iff_of_mem_iff hmem).mpr (best?_eq_none.mp he)
          simp [hnil, best?] at hd
      | some e =>
          obtain ⟨hdmem, hdle⟩ := best?_spec hd
          obtain ⟨hemem, hele⟩ := best?_spec he
          have hed : (preference e d).isLE := hdle e ((hmem e).mpr hemem)
          have hde : (preference d e).isLE := hele d ((hmem d).mp hdmem)
          have heq : preference d e = .eq := Std.OrientedCmp.isLE_antisymm hde hed
          exact congrArg some
            (eq_of_preference_eq hds hdmem ((hmem e).mpr hemem) heq)

end SameMembers

/-! ### The choice -/

/-- The preference orders all derivations totally, whatever patterns their probabilities are, and
leaves two of them undecided only if they agree in the pattern and in the place. From every list
that is not empty the last of the greatest is chosen. Where no two are undecided the order of the
list does not matter, and among numbers the chosen one has the highest probability. -/
theorem best?_isLastGreatest :
    (∀ d, preference d d = .eq) ∧
      (∀ d e, preference e d = (preference d e).swap) ∧
      (∀ d e f, (preference d e).isLE → (preference e f).isLE → (preference d f).isLE) ∧
      (∀ d e, (preference d e).isLE ∨ (preference e d).isLE) ∧
      (∀ d e, preference d e = .eq ↔ d.prob.toBits = e.prob.toBits ∧
        (d.split, d.left, d.right) = (e.split, e.left, e.right)) ∧
      ∀ ds, ds ≠ [] → ∃ d, best? ds = some d ∧ LastPreferred ds d ∧
        ((ds.Pairwise fun d e => preference d e ≠ .eq) → ∀ es, ds.Perm es → best? es = some d) ∧
        ((∀ e ∈ ds, e.prob.isNaN = false) → ∃ p, bestProb? ds = some p ∧ p.equal d.prob = true) := by
  refine ⟨?_, ?_, ?_, ?_, ?_, ?_⟩
  · exact fun d => Std.ReflCmp.compare_self
  · exact fun d e => Std.OrientedCmp.eq_swap
  · exact fun d e f hde hef => Std.TransCmp.isLE_trans hde hef
  · intro d e
    cases h : preference d e with
    | lt => simp
    | eq => simp
    | gt => simp [Std.OrientedCmp.lt_of_gt h]
  · intro d e
    rw [preference_eq_iff, Binary64.toBits_inj, Prod.mk.injEq, Prod.mk.injEq]
    rfl
  · intro ds hne
    obtain ⟨d, hd⟩ := Option.ne_none_iff_exists'.mp (mt best?_eq_none.mp hne)
    obtain ⟨p, hp⟩ := Option.ne_none_iff_exists'.mp (mt bestProb?_eq_none.mp hne)
    refine ⟨d, hd, lastPreferred_of_best? hd, ?_, ?_⟩
    · intro hdecided es hperm
      rw [← hd]
      exact (best?_congr (fun _ => hperm.mem_iff) hdecided).symm
    · exact fun hnumbers => ⟨p, hp, equal_of_best? hnumbers hd hp⟩

/-- Three derivations of probability zero, one of them negative. The numeric order does not tell
them apart, the preference does, and it chooses the same one when the list is reversed. -/
theorem best?_isLastGreatest_zeros :
    let d : Derivation := .branch 1 "C" "D" .zero
    let ds : List Derivation := [.leaf (-.zero), .branch 2 "A" "B" .zero, d]
    (ds.Pairwise fun d e => preference d e ≠ .eq) ∧ (∀ e ∈ ds, e.prob.isNaN = false) ∧
      LastPreferred ds d ∧ best? ds = some d ∧ best? ds.reverse = some d ∧
      ∃ p, bestProb? ds = some p ∧ p.equal .zero = true := by
  intro d ds
  have hdecided : ds.Pairwise fun d e => preference d e ≠ .eq := by decide
  have hnumbers : ∀ e ∈ ds, e.prob.isNaN = false := by decide
  obtain ⟨e, he, hlast, hperm, hequal⟩ :=
    best?_isLastGreatest.2.2.2.2.2 ds (List.cons_ne_nil _ _)
  have hd : best? ds = some d := by decide
  obtain rfl : e = d := Option.some.inj (he.symm.trans hd)
  exact ⟨hdecided, hnumbers, hlast, hd, hperm hdecided ds.reverse ds.reverse_perm.symm,
    hequal hnumbers⟩

end Derivation

end ChartParser
