import ChartParser.Proofs.Binary64.Exact
import ChartParser.Proofs.Binary64.UnitInterval
import Mathlib.Algebra.GroupWithZero.Nat

/-! # Relative frequencies

The quotient of two counts, the smaller by the larger, is a probability: neither of them is rounded
to infinity, rounding keeps their order, and the quotient is far above the least positive number. -/

namespace ChartParser.Binary64

/-! ### Natural numbers as floating-point numbers -/

theorem magnitude_ofNat_mono {n t : Nat} (h : n ≤ t) :
    (ofNat n).magnitude ≤ (ofNat t).magnitude := by
  refine nearest_mono 1 ?_
  rw [Nat.shiftLeft_eq, Nat.shiftLeft_eq]
  exact Nat.mul_le_mul_right _ h

theorem oneMagnitude_le_ofNat {n : Nat} (h : 0 < n) : oneMagnitude ≤ (ofNat n).magnitude := by
  have hone : (ofNat 1).magnitude = oneMagnitude := by decide +kernel
  rw [← hone]
  exact magnitude_ofNat_mono h

/-- Counts that a machine word holds are far from infinity. -/
theorem magnitude_ofNat_lt {n : Nat} (h : n < 2 ^ 64) :
    (ofNat n).magnitude < infinityMagnitude := by
  have hword : (ofNat (2 ^ 64)).magnitude < infinityMagnitude := by decide +kernel
  exact Nat.lt_of_le_of_lt (magnitude_ofNat_mono (Nat.le_of_lt h)) hword

/-! ### The quotient -/

variable {x y : Binary64}

theorem div_eq_ofUnits (hx : x.negative = false) (hxf : x.magnitude < infinityMagnitude)
    (hy : y.negative = false) (hyf : y.magnitude < infinityMagnitude) (hpos : 0 < y.magnitude) :
    x / y = ofUnits false (units x.magnitude <<< 1074) (units y.magnitude) := by
  have hxn := isNaN_eq_false_of_lt hxf
  have hyn := isNaN_eq_false_of_lt hyf
  have hxi := isInfinite_eq_false_of_lt hxf
  have hyi := isInfinite_eq_false_of_lt hyf
  have hyz : y.isZero = false := beq_false_of_ne (Nat.ne_of_gt hpos)
  change Binary64.div x y = _
  simp [Binary64.div, hxn, hyn, hxi, hyi, hyz, hx, hy]

/-- One is `2 ^ 1074` units. -/
theorem shiftLeft_eq_mul_units_one (n : Nat) : n <<< 1074 = n * units oneMagnitude := by
  have hmul : ∀ k, n <<< k = n * 1 <<< k := by
    intro k
    rw [Nat.shiftLeft_eq, Nat.shiftLeft_eq, Nat.one_mul]
  have hunits : units oneMagnitude = 1 <<< 1074 := by decide +kernel
  rw [hmul, hunits]

/-- The smaller of two finite numbers from one on by the larger. -/
theorem isProbability_div (hx : x.negative = false) (hy : y.negative = false)
    (hone : oneMagnitude ≤ x.magnitude) (hle : x.magnitude ≤ y.magnitude)
    (hfinite : y.magnitude < infinityMagnitude) : (x / y).IsProbability := by
  have honePos : 0 < units oneMagnitude := by decide +kernel
  have hinfinity : units infinityMagnitude ≤ units oneMagnitude * units oneMagnitude := by
    decide +kernel
  have hux : units oneMagnitude ≤ units x.magnitude := units_mono hone
  have huy : units x.magnitude ≤ units y.magnitude := units_mono hle
  have hpos : 0 < units y.magnitude := Nat.lt_of_lt_of_le honePos (Nat.le_trans hux huy)
  have hypos : 0 < y.magnitude := Nat.lt_of_lt_of_le (by decide) (Nat.le_trans hone hle)
  rw [div_eq_ofUnits hx (Nat.lt_of_le_of_lt hle hfinite) hy hfinite hypos,
    shiftLeft_eq_mul_units_one]
  refine ⟨rfl, ?_, ?_⟩
  · -- The quotient is at least one unit.
    have hunit : units 1 * units y.magnitude ≤ units x.magnitude * units oneMagnitude := calc
      units 1 * units y.magnitude = units y.magnitude := by
          rw [units_of_lt (by decide), Nat.one_mul]
      _ ≤ units infinityMagnitude := units_mono (Nat.le_of_lt hfinite)
      _ ≤ units oneMagnitude * units oneMagnitude := hinfinity
      _ ≤ units x.magnitude * units oneMagnitude := Nat.mul_le_mul_right _ hux
    calc
      1 = nearest (units 1 * units y.magnitude) (units y.magnitude) :=
          (nearest_units_mul (by decide) hpos).symm
      _ ≤ nearest (units x.magnitude * units oneMagnitude) (units y.magnitude) :=
          nearest_mono _ hunit
  · calc
      nearest (units x.magnitude * units oneMagnitude) (units y.magnitude)
          ≤ nearest (units oneMagnitude * units y.magnitude) (units y.magnitude) := by
            rw [Nat.mul_comm (units oneMagnitude)]
            exact nearest_mono _ (Nat.mul_le_mul_right _ huy)
      _ = oneMagnitude := nearest_units_mul (by decide) hpos

theorem isProbability_div_ofNat {n t : Nat} (hpos : 0 < n) (hle : n ≤ t) (hword : t < 2 ^ 64) :
    (ofNat n / ofNat t).IsProbability :=
  isProbability_div rfl rfl (oneMagnitude_le_ofNat hpos) (magnitude_ofNat_mono hle)
    (magnitude_ofNat_lt hword)

end ChartParser.Binary64
