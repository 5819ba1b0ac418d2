import ChartParser.Binary64.Rounding

/-! # Monotonicity of rounding

A larger fraction never rounds to a smaller magnitude, and a larger magnitude never has a smaller
value. The argument follows the exponent: within one exponent the significands are compared, and a
step of the exponent outweighs every significand below it. -/

namespace ChartParser.Binary64

/-! ### Rounding of fractions -/

theorem div_le_roundHalfEven (n d : Nat) : n / d ≤ roundHalfEven n d := by
  simp only [roundHalfEven]
  split
  · exact Nat.le_refl _
  · split <;> exact Nat.le_add_right _ _

theorem roundHalfEven_le_div_add_one (n d : Nat) : roundHalfEven n d ≤ n / d + 1 := by
  simp only [roundHalfEven]
  split
  · exact Nat.le_add_right _ _
  · split <;> omega

theorem roundHalfEven_mono {n n' : Nat} (d : Nat) (h : n ≤ n') :
    roundHalfEven n d ≤ roundHalfEven n' d := by
  rcases Nat.lt_or_eq_of_le (Nat.div_le_div_right (c := d) h) with hlt | heq
  · calc
      roundHalfEven n d ≤ n / d + 1 := roundHalfEven_le_div_add_one n d
      _ ≤ n' / d := hlt
      _ ≤ roundHalfEven n' d := div_le_roundHalfEven n' d
  · -- Equal quotients leave the comparison to the remainders.
    have hmod : n % d ≤ n' % d := by
      have hn := Nat.div_add_mod n d
      have hn' := Nat.div_add_mod n' d
      rw [heq] at hn
      omega
    by_cases hdown : 2 * (n % d) < d
    · have hround : roundHalfEven n d = n / d := by simp [roundHalfEven, hdown]
      rw [hround, heq]
      exact div_le_roundHalfEven n' d
    by_cases hup : d < 2 * (n' % d)
    · have hround : roundHalfEven n' d = n' / d + 1 := by
        have hdown' : ¬2 * (n' % d) < d := by omega
        simp [roundHalfEven, hdown', hup]
      rw [hround, ← heq]
      exact roundHalfEven_le_div_add_one n d
    · have hhalf : 2 * (n % d) = d := by omega
      have hhalf' : 2 * (n' % d) = d := by omega
      simp [roundHalfEven, heq, hhalf, hhalf']

private theorem log2_le_log2 {a b : Nat} (h : a ≤ b) : a.log2 ≤ b.log2 := by
  by_cases ha : a = 0
  · simp [ha]
  · have hb : b ≠ 0 := by omega
    exact (Nat.le_log2 hb).mpr (Nat.le_trans (Nat.log2_self_le ha) h)

/-- The exponent steps beyond the first that rounding gives to a fraction. -/
def exponentSteps (n d : Nat) : Nat := (n / d).log2 - 52

theorem nearest_eq (n d : Nat) : nearest n d =
    min infinityMagnitude
      (exponentSteps n d * fractions + roundHalfEven n (d <<< exponentSteps n d)) :=
  rfl

/-- The significant bits of a rounded fraction, a carry included, are at most fifty-four. -/
theorem significand_le (n d : Nat) :
    roundHalfEven n (d <<< exponentSteps n d) ≤ 2 * fractions := by
  have hlog : (n / d).log2 + 1 ≤ 53 + exponentSteps n d := by
    unfold exponentSteps
    omega
  have hquotient : n / d < 2 ^ 53 * 2 ^ exponentSteps n d := by
    rw [← Nat.pow_add]
    exact Nat.lt_of_lt_of_le Nat.lt_log2_self (Nat.pow_le_pow_right (by decide) hlog)
  have hlt : n / (d <<< exponentSteps n d) < 2 ^ 53 := by
    rw [Nat.shiftLeft_eq, ← Nat.div_div_eq_div_mul]
    exact Nat.div_lt_of_lt_mul (by rwa [Nat.mul_comm] at hquotient)
  have hround := roundHalfEven_le_div_add_one n (d <<< exponentSteps n d)
  have hfractions : 2 * fractions = 2 ^ 53 := by decide
  omega

/-- Beyond the first step of the exponent the leading significant bit is set. -/
theorem le_significand {n d : Nat} (h : 0 < exponentSteps n d) :
    fractions ≤ roundHalfEven n (d <<< exponentSteps n d) := by
  have hlog : (n / d).log2 = 52 + exponentSteps n d := by
    unfold exponentSteps at h ⊢
    omega
  have hne : n / d ≠ 0 := by
    intro h0
    rw [h0, Nat.log2_zero] at hlog
    omega
  have hquotient : 2 ^ 52 * 2 ^ exponentSteps n d ≤ n / d := by
    rw [← Nat.pow_add, ← hlog]
    exact Nat.log2_self_le hne
  have hle : 2 ^ 52 ≤ n / (d <<< exponentSteps n d) := by
    rw [Nat.shiftLeft_eq, ← Nat.div_div_eq_div_mul]
    exact (Nat.le_div_iff_mul_le (Nat.two_pow_pos _)).mpr hquotient
  have hfractions : fractions = 2 ^ 52 := by decide
  rw [hfractions]
  exact Nat.le_trans hle (div_le_roundHalfEven n _)

theorem nearest_mono {n n' : Nat} (d : Nat) (h : n ≤ n') : nearest n d ≤ nearest n' d := by
  have hdiv : n / d ≤ n' / d := Nat.div_le_div_right h
  have hsteps : exponentSteps n d ≤ exponentSteps n' d :=
    Nat.sub_le_sub_right (log2_le_log2 hdiv) 52
  rw [nearest_eq, nearest_eq]
  refine Nat.le_min.mpr ⟨Nat.min_le_left _ _, Nat.le_trans (Nat.min_le_right _ _) ?_⟩
  rcases Nat.lt_or_eq_of_le hsteps with hlt | heq
  · -- A whole step of the exponent outweighs every significand of the lower one.
    have hupper := significand_le n d
    have hlower := le_significand (n := n') (d := d) (by omega)
    have hmul : (exponentSteps n d + 1) * fractions ≤ exponentSteps n' d * fractions :=
      Nat.mul_le_mul_right _ hlt
    rw [Nat.add_one_mul] at hmul
    omega
  · rw [heq]
    exact Nat.add_le_add_left (roundHalfEven_mono _ h) _

/-! ### Values in units -/

theorem units_of_lt {m : Nat} (h : m < fractions) : units m = m := by
  have hzero : m / fractions = 0 := Nat.div_eq_of_lt h
  simp [units, hzero]

/-- Beyond the first exponent the fraction has a leading bit, and every exponent doubles it. -/
theorem units_of_le {m : Nat} (h : fractions ≤ m) :
    units m = (fractions + m % fractions) <<< (m / fractions - 1) := by
  have hpos : 1 ≤ m / fractions := (Nat.one_le_div_iff (by decide)).mpr h
  obtain ⟨e, he⟩ : ∃ e, m / fractions = e + 1 := ⟨m / fractions - 1, by omega⟩
  have hm : m = (e + 1) * fractions + m % fractions := by
    rw [← he, Nat.mul_comm]
    exact (Nat.div_add_mod m fractions).symm
  rw [Nat.add_one_mul] at hm
  simp only [units, he, Nat.add_sub_cancel]
  congr 1
  omega

theorem units_mono {m n : Nat} (h : m ≤ n) : units m ≤ units n := by
  have hfractions : 0 < fractions := by decide
  by_cases hn : n < fractions
  · rw [units_of_lt hn, units_of_lt (Nat.lt_of_le_of_lt h hn)]
    exact h
  have hn := Nat.not_lt.mp hn
  rw [units_of_le hn, Nat.shiftLeft_eq]
  by_cases hm : m < fractions
  · rw [units_of_lt hm]
    calc
      m ≤ fractions + n % fractions := by omega
      _ ≤ _ := Nat.le_mul_of_pos_right _ (Nat.two_pow_pos _)
  have hm := Nat.not_lt.mp hm
  rw [units_of_le hm, Nat.shiftLeft_eq]
  rcases Nat.lt_or_eq_of_le (Nat.div_le_div_right (c := fractions) h) with hlt | heq
  · have hpos : 1 ≤ m / fractions := (Nat.one_le_div_iff hfractions).mpr hm
    have hmod := Nat.mod_lt m hfractions
    calc
      (fractions + m % fractions) * 2 ^ (m / fractions - 1)
          ≤ (2 * fractions) * 2 ^ (m / fractions - 1) := Nat.mul_le_mul_right _ (by omega)
      _ = fractions * 2 ^ (m / fractions) := by
          rw [Nat.mul_comm 2, Nat.mul_assoc, ← Nat.pow_succ']
          congr 2
          omega
      _ ≤ fractions * 2 ^ (n / fractions - 1) :=
          Nat.mul_le_mul_left _ (Nat.pow_le_pow_right (by decide) (by omega))
      _ ≤ (fractions + n % fractions) * 2 ^ (n / fractions - 1) :=
          Nat.mul_le_mul_right _ (Nat.le_add_right _ _)
  · have hm' := Nat.div_add_mod m fractions
    have hn' := Nat.div_add_mod n fractions
    rw [heq] at hm'
    rw [heq]
    exact Nat.mul_le_mul_right _ (by omega)

end ChartParser.Binary64
