import ChartParser.Proofs.Binary64.Monotone

/-! # Rounding depends on the value alone

Equal fractions round to one magnitude, whatever their numerator and denominator, and the value of
a finite magnitude rounds to the magnitude itself. -/

namespace ChartParser.Binary64

/-! ### Equal fractions -/

theorem roundHalfEven_mul_mul {k : Nat} (hk : 0 < k) (n d : Nat) :
    roundHalfEven (k * n) (k * d) = roundHalfEven n d := by
  have hdown : 2 * (k * (n % d)) < k * d ↔ 2 * (n % d) < d := by
    rw [Nat.mul_left_comm]
    exact Nat.mul_lt_mul_left hk
  have hup : k * d < 2 * (k * (n % d)) ↔ d < 2 * (n % d) := by
    rw [Nat.mul_left_comm]
    exact Nat.mul_lt_mul_left hk
  simp only [roundHalfEven, Nat.mul_div_mul_left _ _ hk, Nat.mul_mod_mul_left, hdown, hup]

theorem nearest_mul_mul {k : Nat} (hk : 0 < k) (n d : Nat) :
    nearest (k * n) (k * d) = nearest n d := by
  have hshift : ∀ e, (k * d) <<< e = k * (d <<< e) := by
    intro e
    rw [Nat.shiftLeft_eq, Nat.shiftLeft_eq, Nat.mul_assoc]
  simp only [nearest, Nat.mul_div_mul_left _ _ hk, hshift, roundHalfEven_mul_mul hk]

/-- Fractions of one value have one nearest magnitude. -/
theorem nearest_congr {n d n' d' : Nat} (hd : 0 < d) (hd' : 0 < d') (h : n * d' = n' * d) :
    nearest n d = nearest n' d' := by
  rw [← nearest_mul_mul hd' n d, ← nearest_mul_mul hd n' d', Nat.mul_comm d' n, h,
    Nat.mul_comm n' d, Nat.mul_comm d' d]

/-! ### Exact values -/

theorem roundHalfEven_mul_self {d : Nat} (hd : 0 < d) (q : Nat) :
    roundHalfEven (q * d) d = q := by
  simp [roundHalfEven, Nat.mul_div_cancel _ hd, hd]

/-- The leading bit of a value beyond the first exponent stands at the exponent. -/
theorem log2_units {m : Nat} (h : fractions ≤ m) :
    (units m).log2 = 52 + (m / fractions - 1) := by
  have hfractions : fractions = 2 ^ 52 := by decide
  have hmod : m % fractions < fractions := Nat.mod_lt _ (by decide)
  have hpow := Nat.two_pow_pos (m / fractions - 1)
  have hlower : 2 ^ 52 * 2 ^ (m / fractions - 1) ≤
      (fractions + m % fractions) * 2 ^ (m / fractions - 1) :=
    Nat.mul_le_mul_right _ (by omega)
  have hupper : (fractions + m % fractions) * 2 ^ (m / fractions - 1) <
      2 ^ 53 * 2 ^ (m / fractions - 1) :=
    Nat.mul_lt_mul_of_pos_right (by omega) hpow
  rw [units_of_le h, Nat.shiftLeft_eq, Nat.log2_eq_iff (by omega), Nat.add_right_comm, Nat.pow_add,
    Nat.pow_add]
  exact ⟨hlower, hupper⟩

theorem nearest_units_one {m : Nat} (h : m < infinityMagnitude) : nearest (units m) 1 = m := by
  rcases Nat.lt_or_ge m fractions with hm | hm
  · -- Below the first full exponent the value is the magnitude.
    have hlog : m.log2 - 52 = 0 := by
      by_cases h0 : m = 0
      · simp [h0]
      · have hlt : m.log2 < 52 := (Nat.log2_lt h0).mpr hm
        omega
    have hround : roundHalfEven m 1 = m := by simpa using roundHalfEven_mul_self Nat.one_pos m
    rw [units_of_lt hm]
    simp only [nearest, Nat.div_one, hlog, Nat.shiftLeft_zero, hround]
    omega
  · have hlog : (units m).log2 - 52 = m / fractions - 1 := by
      rw [log2_units hm]
      omega
    have hround : roundHalfEven (units m) (1 <<< (m / fractions - 1)) =
        fractions + m % fractions := by
      rw [units_of_le hm, Nat.shiftLeft_eq, Nat.shiftLeft_eq, Nat.one_mul]
      exact roundHalfEven_mul_self (Nat.two_pow_pos _) _
    have hpos : 1 ≤ m / fractions := (Nat.one_le_div_iff (by decide)).mpr hm
    have hvalue : (m / fractions - 1) * fractions + (fractions + m % fractions) = m := by
      obtain ⟨e, he⟩ : ∃ e, m / fractions = e + 1 := ⟨m / fractions - 1, by omega⟩
      have hdiv := Nat.div_add_mod' m fractions
      rw [he, Nat.add_one_mul] at hdiv
      rw [he, Nat.add_sub_cancel]
      omega
    simp only [nearest, Nat.div_one, hlog, hround, hvalue]
    omega

/-- The value of a finite magnitude is nearest to the magnitude itself. -/
theorem nearest_units_mul {m : Nat} (h : m < infinityMagnitude) {d : Nat} (hd : 0 < d) :
    nearest (units m * d) d = m := by
  rw [nearest_congr hd Nat.one_pos (Nat.mul_one _), nearest_units_one h]

/-! ### Values too small for any magnitude -/

theorem nearest_of_two_mul_lt {n d : Nat} (h : 2 * n < d) : nearest n d = 0 := by
  have hlt : n < d := by omega
  simp [nearest, roundHalfEven, Nat.div_eq_of_lt hlt, Nat.mod_eq_of_lt hlt, h]

end ChartParser.Binary64
