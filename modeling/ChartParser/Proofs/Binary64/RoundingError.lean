import ChartParser.Proofs.Binary64.UnitInterval
import Mathlib.Algebra.Order.Field.Basic
import Mathlib.Data.Rat.Cast.Order
import Mathlib.Tactic.FieldSimp
import Mathlib.Tactic.Linarith
import Mathlib.Tactic.Positivity
import Mathlib.Tactic.Ring

/-! # What rounding loses

The rational number that a finite pattern denotes, and how far a rounded product lies from the exact
one. Where the product keeps fifty-three significant bits the error is relative, and below that it
is at most half a unit. -/

namespace ChartParser.Binary64

/-! ### Rounding of fractions -/

/-- A fraction is at most a half away from the natural number that it rounds to. -/
theorem roundHalfEven_error (n : Nat) {d : Nat} (hd : 0 < d) :
    2 * (roundHalfEven n d * d) ≤ 2 * n + d ∧ 2 * n ≤ 2 * (roundHalfEven n d * d) + d := by
  have hdiv := Nat.div_add_mod' n d
  have hstep := Nat.add_one_mul (n / d) d
  simp only [roundHalfEven]
  split
  · next hdown => omega
  · split
    · next hup =>
      have hmod := Nat.mod_lt n hd
      omega
    · next hhalf =>
      rcases Nat.mod_two_eq_zero_or_one (n / d) with heven | hodd
      · rw [heven, Nat.add_zero]
        omega
      · rw [hodd]
        omega

/-- A significand of fifty-three bits, under its exponent. A significand of fifty-four bits is a
carry and steps to the next exponent. -/
theorem units_of_significand {shift significand : Nat} (hupper : significand ≤ 2 * fractions)
    (hlower : 0 < shift → fractions ≤ significand) :
    units (shift * fractions + significand) = significand * 2 ^ shift := by
  have hpos : 0 < fractions := by decide
  rcases Nat.lt_or_ge significand fractions with hlt | hge
  · obtain rfl : shift = 0 := by
      by_contra hshift
      exact absurd (hlower (Nat.pos_of_ne_zero hshift)) (by omega)
    simp [units_of_lt hlt]
  rcases Nat.eq_or_lt_of_le hupper with rfl | hlt
  · have hm : shift * fractions + 2 * fractions = (shift + 2) * fractions := by ring
    rw [hm, units_of_le (Nat.le_mul_of_pos_left _ (by omega)), Nat.mul_div_cancel _ hpos,
      Nat.mul_mod_left, Nat.shiftLeft_eq]
    simp only [Nat.add_zero, Nat.add_succ_sub_one, Nat.pow_succ]
    ring
  · obtain ⟨fraction, rfl⟩ := Nat.exists_eq_add_of_le hge
    have hfraction : fraction < fractions := by omega
    have hm : shift * fractions + (fractions + fraction) =
        fraction + (shift + 1) * fractions := by ring
    have hle : fractions ≤ fraction + (shift + 1) * fractions := by
      rw [Nat.add_one_mul]
      omega
    rw [hm, units_of_le hle, Nat.add_mul_div_right _ _ hpos, Nat.add_mul_mod_self_right,
      Nat.div_eq_of_lt hfraction, Nat.mod_eq_of_lt hfraction, Nat.shiftLeft_eq, Nat.zero_add,
      Nat.add_sub_cancel]

theorem units_nearest {n d : Nat} (h : nearest n d < infinityMagnitude) :
    units (nearest n d) =
      roundHalfEven n (d <<< exponentSteps n d) * 2 ^ exponentSteps n d := by
  have hfinite : nearest n d =
      exponentSteps n d * fractions + roundHalfEven n (d <<< exponentSteps n d) := by
    rw [nearest_eq] at h ⊢
    omega
  rw [hfinite]
  exact units_of_significand (significand_le n d) le_significand

/-- The distance between neighbours is one unit, or else the fraction has fifty-two bits more. -/
theorem pow_exponentSteps_le {n d : Nat} :
    2 ^ 52 * (d * 2 ^ exponentSteps n d) ≤ 2 ^ 52 * d + n := by
  rcases Nat.eq_zero_or_pos (exponentSteps n d) with hzero | hpos
  · rw [hzero, Nat.pow_zero, Nat.mul_one]
    exact Nat.le_add_right _ _
  · have hlog : (n / d).log2 = 52 + exponentSteps n d := by
      unfold exponentSteps at hpos ⊢
      omega
    have hne : n / d ≠ 0 := by
      intro hzero
      rw [hzero, Nat.log2_zero] at hlog
      omega
    calc
      2 ^ 52 * (d * 2 ^ exponentSteps n d) = d * 2 ^ (n / d).log2 := by
        rw [hlog, Nat.pow_add]
        ring
      _ ≤ d * (n / d) := Nat.mul_le_mul_left _ (Nat.log2_self_le hne)
      _ ≤ n := Nat.mul_div_le n d
      _ ≤ 2 ^ 52 * d + n := Nat.le_add_left _ _

/-- The value of the nearest magnitude lies within the last of fifty-three significant bits and
half a unit of the fraction. -/
theorem units_nearest_error {n d : Nat} (hd : 0 < d) (h : nearest n d < infinityMagnitude) :
    2 ^ 53 * (units (nearest n d) * d) ≤ 2 ^ 53 * n + (n + 2 ^ 52 * d) ∧
      2 ^ 53 * n ≤ 2 ^ 53 * (units (nearest n d) * d) + (n + 2 ^ 52 * d) := by
  have hshift : 0 < d <<< exponentSteps n d := by
    rw [Nat.shiftLeft_eq]
    exact Nat.mul_pos hd (Nat.two_pow_pos _)
  obtain ⟨hupper, hlower⟩ := roundHalfEven_error n hshift
  have hneighbours := pow_exponentSteps_le (n := n) (d := d)
  have hvalue : units (nearest n d) * d =
      roundHalfEven n (d <<< exponentSteps n d) * (d <<< exponentSteps n d) := by
    rw [units_nearest h, Nat.shiftLeft_eq]
    ring
  rw [← hvalue, Nat.shiftLeft_eq] at hupper hlower
  omega

/-! ### Rational values -/

/-- The number of units in one. -/
def unitsOfOne : Nat := 1 <<< 1074

/-- The rational number that a finite pattern denotes. -/
def toRat (x : Binary64) : ℚ :=
  let value : ℚ := units x.magnitude / unitsOfOne
  if x.negative then -value else value

/-- Half the distance between one and the next number. -/
def unitRoundoff : ℚ := 1 / 2 ^ 53

/-- Half of the least positive number. -/
def halfUnit : ℚ := 1 / (2 * unitsOfOne)

theorem unitsOfOne_pos : 0 < unitsOfOne := by decide +kernel

theorem unitsOfOne_pos_rat : (0 : ℚ) < unitsOfOne := Nat.cast_pos.mpr unitsOfOne_pos

namespace InUnit

variable {x y : Binary64}

theorem toRat_eq (h : x.InUnit) : x.toRat = units x.magnitude / unitsOfOne := by
  simp [toRat, h.1]

theorem toRat_nonneg (h : x.InUnit) : 0 ≤ x.toRat := by
  rw [h.toRat_eq]
  exact div_nonneg (Nat.cast_nonneg _) (Nat.cast_nonneg _)

theorem toRat_mono (hx : x.InUnit) (hy : y.InUnit) (h : x ≤ y) : x.toRat ≤ y.toRat := by
  rw [hx.toRat_eq, hy.toRat_eq]
  refine div_le_div_of_nonneg_right ?_ (Nat.cast_nonneg _)
  exact Nat.cast_le.mpr (units_mono ((hx.le_iff hy).mp h))

theorem toRat_le_one (h : x.InUnit) : x.toRat ≤ 1 := by
  have hone : units oneMagnitude = unitsOfOne := by decide +kernel
  rw [h.toRat_eq]
  refine div_le_one_of_le₀ ?_ (Nat.cast_nonneg _)
  exact Nat.cast_le.mpr (hone ▸ units_mono h.2)

/-- A product is rounded once: relative to its size, and by half a unit where it is too small for
that. -/
theorem abs_toRat_mul_sub_le (hx : x.InUnit) (hy : y.InUnit) :
    |(x * y).toRat - x.toRat * y.toRat| ≤ x.toRat * y.toRat * unitRoundoff + halfUnit := by
  have hpos := unitsOfOne_pos_rat
  have hmagnitude : (x * y).magnitude =
      nearest (units x.magnitude * units y.magnitude) unitsOfOne := by
    rw [hx.mul_eq hy]
    rfl
  have hfinite := (hx.mul hy).magnitude_lt_infinity
  rw [hmagnitude] at hfinite
  obtain ⟨hupper, hlower⟩ := units_nearest_error unitsOfOne_pos hfinite
  rw [← hmagnitude] at hupper hlower
  rw [(hx.mul hy).toRat_eq, hx.toRat_eq, hy.toRat_eq]
  generalize units (x * y).magnitude = w at hupper hlower ⊢
  generalize units x.magnitude = u at hupper hlower ⊢
  generalize units y.magnitude = v at hupper hlower ⊢
  unfold halfUnit unitRoundoff
  generalize unitsOfOne = d at hupper hlower hpos ⊢
  have hupper : (2 : ℚ) ^ 53 * (w * d) ≤ 2 ^ 53 * (u * v) + (u * v + 2 ^ 52 * d) := mod_cast hupper
  have hlower : (2 : ℚ) ^ 53 * (u * v) ≤ 2 ^ 53 * (w * d) + (u * v + 2 ^ 52 * d) := mod_cast hlower
  rw [abs_sub_le_iff]
  constructor
  · field_simp
    linarith
  · field_simp
    linarith

end InUnit

/-- A probability is a number above zero and not above one. -/
theorem isProbability_iff {x : Binary64} :
    x.IsProbability ↔ x.isNaN = false ∧ x.isInfinite = false ∧ 0 < x.toRat ∧ x.toRat ≤ 1 := by
  have hpos := unitsOfOne_pos_rat
  constructor
  · intro h
    have hfinite := h.inUnit.magnitude_lt_infinity
    have hunits : 0 < units x.magnitude := by
      have hone : units 1 ≤ units x.magnitude := units_mono h.2.1
      rwa [units_of_lt (by decide)] at hone
    refine ⟨h.inUnit.not_isNaN, isInfinite_eq_false_of_lt hfinite, ?_, h.inUnit.toRat_le_one⟩
    rw [h.inUnit.toRat_eq]
    exact div_pos (Nat.cast_pos.mpr hunits) hpos
  · rintro ⟨_, _, hgt, hle⟩
    have hvalue : (0 : ℚ) ≤ units x.magnitude / unitsOfOne :=
      div_nonneg (Nat.cast_nonneg _) (Nat.cast_nonneg _)
    unfold toRat at hgt hle
    cases hnegative : x.negative with
    | true =>
        simp only [hnegative, if_true] at hgt
        linarith
    | false =>
        simp only [hnegative, Bool.false_eq_true, if_false] at hgt hle
        refine ⟨hnegative, Nat.pos_of_ne_zero ?_, ?_⟩
        · intro hzero
          simp [hzero, units] at hgt
        · -- the next magnitude beyond one already has a larger value
          by_contra hbeyond
          have hnext : units (oneMagnitude + 1) ≤ units x.magnitude := units_mono (by omega)
          have hlarger : unitsOfOne < units (oneMagnitude + 1) := by decide +kernel
          have hlt : (unitsOfOne : ℚ) < units x.magnitude :=
            Nat.cast_lt.mpr (Nat.lt_of_lt_of_le hlarger hnext)
          rw [div_le_one hpos] at hle
          linarith

/-! ### Several products -/

/-- A number that comes from a rational one by so many rounded products: each of them costs one
relative error and half a unit. -/
structure Approximates (x : Binary64) (a : ℚ) (products : Nat) : Prop where
  lower : (1 - unitRoundoff) ^ products * a - products * halfUnit ≤ x.toRat
  upper : x.toRat ≤ (1 + unitRoundoff) ^ products * (a + products * halfUnit)

theorem unitRoundoff_nonneg : 0 ≤ unitRoundoff := by norm_num [unitRoundoff]

theorem unitRoundoff_le_one : unitRoundoff ≤ 1 := by norm_num [unitRoundoff]

theorem halfUnit_nonneg : 0 ≤ halfUnit := by
  have hpos := unitsOfOne_pos_rat
  unfold halfUnit
  positivity

namespace Approximates

variable {x y : Binary64} {a b : ℚ} {i j : Nat}

theorem refl (x : Binary64) : x.Approximates x.toRat 0 := by
  constructor <;> simp

/-- Below, the factors lose what they have lost before, and none of them is above one. -/
theorem lower_mul (hx : x.InUnit) (hb : 0 ≤ b ∧ b ≤ 1) (h : x.Approximates a i)
    (h' : y.Approximates b j) :
    (1 - unitRoundoff) ^ (i + j) * (a * b) - (i + j) * halfUnit ≤ x.toRat * y.toRat := by
  have hu : 0 ≤ 1 - unitRoundoff := sub_nonneg.mpr unitRoundoff_le_one
  have hfirst := h.lower
  have hsecond := h'.lower
  set p := (1 - unitRoundoff) ^ i * a
  set q := (1 - unitRoundoff) ^ j * b with hq
  have hq0 : 0 ≤ q := mul_nonneg (pow_nonneg hu j) hb.1
  have hq1 : q ≤ 1 := by
    refine mul_le_one₀ (pow_le_one₀ hu ?_) hb.1 hb.2
    linarith [unitRoundoff_nonneg]
  have hi : 0 ≤ i * halfUnit := mul_nonneg (Nat.cast_nonneg i) halfUnit_nonneg
  have hj : 0 ≤ j * halfUnit := mul_nonneg (Nat.cast_nonneg j) halfUnit_nonneg
  calc
    (1 - unitRoundoff) ^ (i + j) * (a * b) - (i + j) * halfUnit
        = p * q - i * halfUnit - j * halfUnit := by ring
    _ ≤ p * q - i * halfUnit * q - x.toRat * (j * halfUnit) := by
      have := mul_le_of_le_one_right hi hq1
      have := mul_le_of_le_one_left hj hx.toRat_le_one
      linarith
    _ = (p - i * halfUnit) * q - x.toRat * (j * halfUnit) := by ring
    _ ≤ x.toRat * q - x.toRat * (j * halfUnit) := by
      have := mul_le_mul_of_nonneg_right hfirst hq0
      linarith
    _ = x.toRat * (q - j * halfUnit) := by ring
    _ ≤ x.toRat * y.toRat := mul_le_mul_of_nonneg_left hsecond hx.toRat_nonneg

theorem upper_mul (hx : x.InUnit) (hb : 0 ≤ b ∧ b ≤ 1) (h : x.Approximates a i)
    (h' : y.Approximates b j) :
    x.toRat * y.toRat ≤ (1 + unitRoundoff) ^ (i + j) * (a * b + (i + j) * halfUnit) := by
  have hu : 1 ≤ 1 + unitRoundoff := by linarith [unitRoundoff_nonneg]
  have hfirst := h.upper
  have hsecond := h'.upper
  have hp : 1 ≤ (1 + unitRoundoff) ^ i := one_le_pow₀ hu
  have hq : 1 ≤ (1 + unitRoundoff) ^ j := one_le_pow₀ hu
  rw [pow_add]
  generalize (1 + unitRoundoff) ^ i = p at hfirst hp ⊢
  generalize (1 + unitRoundoff) ^ j = q at hsecond hq ⊢
  have hi : 0 ≤ p * q * (i * halfUnit) := by
    have := halfUnit_nonneg
    positivity
  have hj : 0 ≤ q * (j * halfUnit) := by
    have := halfUnit_nonneg
    positivity
  calc
    x.toRat * y.toRat ≤ x.toRat * (q * (b + j * halfUnit)) :=
      mul_le_mul_of_nonneg_left hsecond hx.toRat_nonneg
    _ = x.toRat * (q * b) + x.toRat * (q * (j * halfUnit)) := by ring
    _ ≤ p * (a + i * halfUnit) * (q * b) + q * (j * halfUnit) := by
      have hqb : 0 ≤ q * b := mul_nonneg (by linarith) hb.1
      have := mul_le_mul_of_nonneg_right hfirst hqb
      have := mul_le_of_le_one_left hj hx.toRat_le_one
      linarith
    _ = p * q * (a * b) + p * q * (i * halfUnit) * b + q * (j * halfUnit) := by ring
    _ ≤ p * q * (a * b) + p * q * (i * halfUnit) + p * (q * (j * halfUnit)) := by
      have := mul_le_of_le_one_right hi hb.2
      have := le_mul_of_one_le_left hj hp
      linarith
    _ = p * q * (a * b + (i + j) * halfUnit) := by ring

theorem mul (hx : x.InUnit) (hy : y.InUnit) (hb : 0 ≤ b ∧ b ≤ 1) (h : x.Approximates a i)
    (h' : y.Approximates b j) : (x * y).Approximates (a * b) (i + j + 1) := by
  have hlower := h.lower_mul hx hb h'
  have hupper := h.upper_mul hx hb h'
  obtain ⟨habove, hbelow⟩ := abs_sub_le_iff.mp (hx.abs_toRat_mul_sub_le hy)
  have hu := unitRoundoff_nonneg
  have hhalf := halfUnit_nonneg
  have hloss : 0 ≤ 1 - unitRoundoff := sub_nonneg.mpr unitRoundoff_le_one
  have hgain : 1 ≤ 1 + unitRoundoff := by linarith
  have hsteps : 0 ≤ (i + j) * halfUnit := by positivity
  constructor
  · calc
      (1 - unitRoundoff) ^ (i + j + 1) * (a * b) - (i + j + 1 : ℕ) * halfUnit
          = (1 - unitRoundoff) * ((1 - unitRoundoff) ^ (i + j) * (a * b)) -
              (i + j) * halfUnit - halfUnit := by
        push_cast
        ring
      _ ≤ (1 - unitRoundoff) * ((1 - unitRoundoff) ^ (i + j) * (a * b) - (i + j) * halfUnit) -
            halfUnit := by
        have := mul_nonneg hu hsteps
        linarith
      _ ≤ (1 - unitRoundoff) * (x.toRat * y.toRat) - halfUnit := by
        have := mul_le_mul_of_nonneg_left hlower hloss
        linarith
      _ ≤ (x * y).toRat := by linarith
  · calc
      (x * y).toRat ≤ (1 + unitRoundoff) * (x.toRat * y.toRat) + halfUnit := by linarith
      _ ≤ (1 + unitRoundoff) *
            ((1 + unitRoundoff) ^ (i + j) * (a * b + (i + j) * halfUnit)) + halfUnit := by
        have := mul_le_mul_of_nonneg_left hupper (by linarith : 0 ≤ 1 + unitRoundoff)
        linarith
      _ = (1 + unitRoundoff) ^ (i + j + 1) * (a * b + (i + j) * halfUnit) + halfUnit := by ring
      _ ≤ (1 + unitRoundoff) ^ (i + j + 1) * (a * b + (i + j) * halfUnit) +
            (1 + unitRoundoff) ^ (i + j + 1) * halfUnit := by
        have := le_mul_of_one_le_left hhalf (one_le_pow₀ hgain (n := i + j + 1))
        linarith
      _ = (1 + unitRoundoff) ^ (i + j + 1) * (a * b + (i + j + 1 : ℕ) * halfUnit) := by
        push_cast
        ring

end Approximates

end ChartParser.Binary64
