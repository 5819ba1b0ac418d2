import ChartParser.Binary64.Order
import ChartParser.Proofs.Binary64.Monotone

/-! # Numbers between positive zero and one

All probabilities of a chart lie in this range. The product of two of them does not leave it, and
it is monotone in both factors. -/

namespace ChartParser.Binary64

/-! ### The numeric order -/

/-- The numeric order. A not-a-number is related to nothing. -/
instance : LE Binary64 :=
  ⟨fun x y => x.isNaN = false ∧ y.isNaN = false ∧ x.signed ≤ y.signed⟩

theorem le_def {x y : Binary64} :
    x ≤ y ↔ x.isNaN = false ∧ y.isNaN = false ∧ x.signed ≤ y.signed :=
  Iff.rfl

theorem le_refl_of_not_isNaN {x : Binary64} (h : x.isNaN = false) : x ≤ x :=
  ⟨h, h, Int.le_refl _⟩

theorem le_trans {x y z : Binary64} (hxy : x ≤ y) (hyz : y ≤ z) : x ≤ z :=
  ⟨hxy.1, hyz.2.1, Int.le_trans hxy.2.2 hyz.2.2⟩

theorem equal_of_le_of_le {x y : Binary64} (hxy : x ≤ y) (hyx : y ≤ x) : x.equal y = true := by
  have heq : x.signed = y.signed := Int.le_antisymm hxy.2.2 hyx.2.2
  simp [equal, hxy.1, hyx.1, heq]

/-- The total order refines the numeric one. -/
theorem signed_le_of_rank_le {x y : Binary64} (h : x.rank ≤ y.rank) : x.signed ≤ y.signed := by
  cases hx : x.negative with
  | false =>
      cases hy : y.negative with
      | false => simpa [rank, signed, hx, hy] using h
      | true =>
          simp only [rank, hx, hy, if_true, Bool.false_eq_true, if_false] at h
          omega
  | true =>
      cases hy : y.negative with
      | false =>
          simp only [signed, hx, hy, if_true, Bool.false_eq_true, if_false]
          omega
      | true =>
          simp only [rank, signed, hx, hy, if_true] at h ⊢
          omega

theorem max_eq_or_eq (x y : Binary64) : x.max y = x ∨ x.max y = y := by
  unfold max
  split
  · exact .inl rfl
  · split
    · exact .inr rfl
    · split
      · exact .inr rfl
      · exact .inl rfl

/-- The larger of two numbers is above both. -/
theorem le_max {x y : Binary64} (hx : x.isNaN = false) (hy : y.isNaN = false) :
    x ≤ x.max y ∧ y ≤ x.max y := by
  by_cases h : x.signed < y.signed
  · have hmax : x.max y = y := by simp [max, hx, hy, h]
    rw [hmax]
    exact ⟨⟨hx, hy, Int.le_of_lt h⟩, le_refl_of_not_isNaN hy⟩
  · have hmax : x.max y = x := by simp [max, hx, hy, h]
    rw [hmax]
    exact ⟨le_refl_of_not_isNaN hx, ⟨hy, hx, Int.not_lt.mp h⟩⟩

/-! ### The unit interval -/

/-- A number from positive zero up to one. -/
def InUnit (x : Binary64) : Prop := x.negative = false ∧ x.magnitude ≤ oneMagnitude

instance (x : Binary64) : Decidable x.InUnit := inferInstanceAs (Decidable (_ ∧ _))

theorem IsProbability.inUnit {x : Binary64} (h : x.IsProbability) : x.InUnit := ⟨h.1, h.2.2⟩

namespace InUnit

variable {x x' y y' : Binary64}

theorem magnitude_lt_infinity (h : x.InUnit) : x.magnitude < infinityMagnitude :=
  Nat.lt_of_le_of_lt h.2 (by decide)

theorem not_isNaN (h : x.InUnit) : x.isNaN = false :=
  isNaN_eq_false_of_lt h.magnitude_lt_infinity

theorem signed_eq (h : x.InUnit) : x.signed = x.magnitude := by simp [signed, h.1]

theorem rank_eq (h : x.InUnit) : x.rank = x.magnitude := by simp [rank, h.1]

theorem le_iff (hx : x.InUnit) (hy : y.InUnit) : x ≤ y ↔ x.magnitude ≤ y.magnitude := by
  simp [le_def, hx.not_isNaN, hy.not_isNaN, hx.signed_eq, hy.signed_eq]

theorem le_refl (h : x.InUnit) : x ≤ x := le_refl_of_not_isNaN h.not_isNaN

theorem zero_le (h : x.InUnit) : .zero ≤ x := by
  have hzero : zero.InUnit := by decide
  exact (hzero.le_iff h).mpr (Nat.zero_le _)

theorem le_one (h : x.InUnit) : x ≤ .one := by
  have hone : one.InUnit := by decide
  exact (h.le_iff hone).mpr h.2

/-- Equal numbers of the unit interval have one pattern, negative zero being outside. -/
theorem le_antisymm (hx : x.InUnit) (hy : y.InUnit) (hxy : x ≤ y) (hyx : y ≤ x) : x = y := by
  rw [← rank_inj, hx.rank_eq, hy.rank_eq]
  have h := (hx.le_iff hy).mp hxy
  have h' := (hy.le_iff hx).mp hyx
  omega

theorem mul_eq (hx : x.InUnit) (hy : y.InUnit) :
    x * y = ofUnits false (units x.magnitude * units y.magnitude) (1 <<< 1074) := by
  have hxi := isInfinite_eq_false_of_lt hx.magnitude_lt_infinity
  have hyi := isInfinite_eq_false_of_lt hy.magnitude_lt_infinity
  change Binary64.mul x y = _
  simp [Binary64.mul, hx.not_isNaN, hy.not_isNaN, hxi, hyi, hx.1, hy.1]

private theorem nearest_units_one_mul :
    nearest (units oneMagnitude * units oneMagnitude) (1 <<< 1074) = oneMagnitude := by
  decide +kernel

/-- The product does not leave the unit interval. -/
theorem mul (hx : x.InUnit) (hy : y.InUnit) : (x * y).InUnit := by
  rw [mul_eq hx hy]
  refine ⟨rfl, ?_⟩
  calc
    nearest (units x.magnitude * units y.magnitude) (1 <<< 1074)
        ≤ nearest (units oneMagnitude * units oneMagnitude) (1 <<< 1074) :=
          nearest_mono _ (Nat.mul_le_mul (units_mono hx.2) (units_mono hy.2))
    _ = oneMagnitude := nearest_units_one_mul

/-- The product is monotone in both factors. -/
theorem mul_le_mul (hx : x.InUnit) (hx' : x'.InUnit) (hy : y.InUnit) (hy' : y'.InUnit)
    (hxx : x ≤ x') (hyy : y ≤ y') : x * y ≤ x' * y' := by
  rw [le_iff (hx.mul hy) (hx'.mul hy'), mul_eq hx hy, mul_eq hx' hy']
  have hux := units_mono ((hx.le_iff hx').mp hxx)
  have huy := units_mono ((hy.le_iff hy').mp hyy)
  exact nearest_mono _ (Nat.mul_le_mul hux huy)

end InUnit

end ChartParser.Binary64
