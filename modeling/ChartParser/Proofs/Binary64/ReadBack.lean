import ChartParser.Binary64.Numeral
import ChartParser.Binary64.Order
import ChartParser.Binary64.Shortest
import ChartParser.Proofs.Binary64.Exact
import ChartParser.Proofs.Binary64.Numeral
import Mathlib.Algebra.Group.Nat.Defs

/-! # Written numbers read back

The text of a finite positive number is a numeral without an exponent, and reading it gives the
number again. The shortest decimal is searched among those that read back, so only two things are
left: the finest grid holds the exact value, and the text has the digits of the decimal found. -/

namespace ChartParser

namespace Binary64

/-! ### The decimal that is found -/

theorem accepts_of_coefficient? {accepts : Nat → Bool} {value step c : Nat}
    (h : coefficient? accepts value step = some c) : accepts c = true := by
  unfold coefficient? at h
  extract_lets below at h
  split at h
  · next hbelow habove =>
    obtain rfl := Option.some.inj h
    split
    · exact hbelow
    · exact habove
  · next hbelow _ =>
    obtain rfl := Option.some.inj h
    exact hbelow
  · next _ habove =>
    obtain rfl := Option.some.inj h
    exact habove
  · contradiction

/-- The decimal found is accepted, if the exact value is. -/
theorem accepts_shortestFrom {accepts : Nat → Nat → Bool} {value : Nat}
    (h : accepts value 0 = true) (i : Nat) :
    accepts (shortestFrom accepts value i).1 (shortestFrom accepts value i).2 = true := by
  induction i with
  | zero => exact h
  | succ i ih =>
      unfold shortestFrom
      split
      · next c hc =>
        exact @accepts_of_coefficient? (fun k => accepts k (i + 1)) _ _ _ hc
      · exact ih

/-- One unit holds `scale` units of the decimal grid. The number is large, so it is used through
these equations and never evaluated. -/
theorem exists_scale : ∃ scale, 0 < scale ∧ (∀ n, n <<< 1074 * scale = n * 10 ^ 1074) ∧
    (∀ m, decimalUnits m = units m * scale) ∧
    ∀ m c i, readsBack m c i = (nearest (c * 10 ^ i) scale == m) := by
  refine ⟨Nat.pow 5 1074, by decide +kernel, ?_, fun _ => rfl, fun _ _ _ => rfl⟩
  intro n
  rw [Nat.shiftLeft_eq, Nat.mul_assoc]
  exact congrArg (n * ·) (by decide +kernel)

/-- The exact value reads back. -/
theorem readsBack_decimalUnits {m : Nat} (h : m < infinityMagnitude) :
    readsBack m (decimalUnits m) 0 = true := by
  obtain ⟨scale, hscale, _, hunits, hreads⟩ := exists_scale
  rw [hreads, hunits, Nat.pow_zero, Nat.mul_one, nearest_units_mul h hscale]
  exact beq_self_eq_true m

/-- Any fraction of the value of a decimal that reads back rounds to the magnitude. -/
theorem nearest_of_readsBack {m c i n d : Nat} (h : readsBack m c i = true) (hd : 0 < d)
    (heq : n * 10 ^ 1074 = c * 10 ^ i * d) : nearest (n <<< 1074) d = m := by
  obtain ⟨scale, hscale, hshift, _, hreads⟩ := exists_scale
  rw [hreads] at h
  rw [← eq_of_beq h]
  exact nearest_congr hd hscale ((hshift n).trans heq)

/-! ### Decimals without a positive exponent -/

private theorem lt_pow_digits (n : Nat) : n < 10 ^ (n.log2 / 3 + 1) := by
  calc
    n < 2 ^ (n.log2 + 1) := Nat.lt_log2_self
    _ ≤ 2 ^ (3 * (n.log2 / 3 + 1)) := Nat.pow_le_pow_right (by decide) (by omega)
    _ = 8 ^ (n.log2 / 3 + 1) := by rw [Nat.pow_mul]
    _ ≤ 10 ^ (n.log2 / 3 + 1) := Nat.pow_le_pow_left (by decide) _

private theorem shiftLeft_le (n : Nat) : n <<< 1075 ≤ n * 10 ^ 401 := by
  rw [Nat.shiftLeft_eq]
  exact Nat.mul_le_mul_left n (by decide +kernel)

/-- A decimal far below the least positive number rounds to zero. -/
theorem nearest_of_small {n k : Nat} (h : n.log2 / 3 + 402 < k) :
    nearest (n <<< 1074) (10 ^ k) = 0 := by
  refine nearest_of_two_mul_lt ?_
  calc
    2 * n <<< 1074 = n <<< 1075 := (Nat.shiftLeft_succ n 1074).symm
    _ ≤ n * 10 ^ 401 := shiftLeft_le n
    _ ≤ 10 ^ (n.log2 / 3 + 1) * 10 ^ 401 :=
      Nat.mul_le_mul_right (10 ^ 401) (Nat.le_of_lt (lt_pow_digits n))
    _ = 10 ^ (n.log2 / 3 + 402) := (pow_add 10 (n.log2 / 3 + 1) 401).symm
    _ < 10 ^ k := Nat.pow_lt_pow_right (by decide) h

theorem zero_eq_ofUnits {n d : Nat} (h : nearest n d = 0) : zero = ofUnits false n d := by
  simp [zero, ofUnits, h]

/-- Where reading takes a short cut to zero, the number is zero anyway. -/
theorem ofDecimal_neg (n k : Nat) :
    ofDecimal n (-k) = ofUnits false (n <<< 1074) (10 ^ k) := by
  unfold ofDecimal
  split
  · next hzero =>
    refine zero_eq_ofUnits ?_
    rcases hzero with rfl | hsmall
    · apply nearest_of_two_mul_lt
      rw [Nat.zero_shiftLeft]
      exact Nat.pow_pos (by decide)
    · exact nearest_of_small (by omega)
  · split
    · omega
    · split
      · obtain rfl : k = 0 := by omega
        simp
      · have hk : (- -(k : Int)).toNat = k := by omega
        rw [hk]
        rfl

/-! ### The text of a decimal -/

theorem isDigit_of_mem_toDigits {n : Nat} {c : Char} (h : c ∈ Nat.toDigits 10 n) :
    c.isDigit = true :=
  Nat.isDigit_of_mem_toDigits (by decide) (by decide) h

/-- The digits of a fraction, filled up on the left. -/
def padded (places n : Nat) : List Char :=
  List.replicate (places - (Nat.toDigits 10 n).length) '0' ++ Nat.toDigits 10 n

theorem isDigit_of_mem_padded {places n : Nat} {c : Char} (h : c ∈ padded places n) :
    c.isDigit = true := by
  rcases List.mem_append.mp h with h | h
  · obtain rfl := List.eq_of_mem_replicate h
    decide
  · exact isDigit_of_mem_toDigits h

theorem length_padded {places n : Nat} (hplaces : 0 < places) (h : n < 10 ^ places) :
    (padded places n).length = places := by
  have hlength := (Nat.length_toDigits_le_iff (by decide : 1 < 10) hplaces).mpr h
  rw [padded, List.length_append, List.length_replicate]
  omega

/-- Digits before and after a point make one number. -/
theorem digitsValue_padded {places : Nat} (hplaces : 0 < places) (c : Nat) :
    Numeral.digitsValue (Nat.toDigits 10 (c / 10 ^ places) ++ padded places (c % 10 ^ places)) =
      c := by
  have hlength := length_padded hplaces (Nat.mod_lt c (Nat.pow_pos (n := places) (by decide)))
  have hpadded : Nat.ofDigitChars 10 (padded places (c % 10 ^ places)) 0 = c % 10 ^ places := by
    rw [padded, Nat.ofDigitChars_append, Nat.ofDigitChars_replicate_zero, Nat.mul_zero,
      Nat.ofDigitChars_ten_toDigits]
  rw [Numeral.digitsValue, Nat.ofDigitChars_append, Nat.ofDigitChars_ten_toDigits,
    Nat.ofDigitChars_eq_ofDigitChars_zero, hlength, hpadded]
  exact Nat.div_add_mod c (10 ^ places)

theorem positional_of_lt {c i : Nat} (h : i < 1074) :
    positional c i = Nat.toDigits 10 (c / 10 ^ (1074 - i)) ++
      '.' :: padded (1074 - i) (c % 10 ^ (1074 - i)) := by
  rw [positional, if_neg (Nat.not_le.mpr h)]
  rfl

theorem positional_of_le {c i : Nat} (h : 1074 ≤ i) :
    positional c i = Nat.toDigits 10 (c * 10 ^ (i - 1074)) := by
  rw [positional, if_pos h]
  rfl

/-- A written decimal has at least one digit in front and nothing but digits and a point. -/
theorem exists_positional_eq (c i : Nat) : ∃ ds fs, positional c i = ds ++ fs ∧ ds ≠ [] ∧
    (∀ d ∈ ds, d.isDigit = true) ∧ ∀ d ∈ fs, d.isDigit = true ∨ d = '.' := by
  rcases Nat.lt_or_ge i 1074 with hi | hi
  · refine ⟨_, _, positional_of_lt hi, Nat.toDigits_ne_nil, fun _ => isDigit_of_mem_toDigits, ?_⟩
    intro d hd
    rcases List.mem_cons.mp hd with rfl | hd
    · exact .inr rfl
    · exact .inl (isDigit_of_mem_padded hd)
  · exact ⟨_, [], (positional_of_le hi).trans (List.append_nil _).symm, Nat.toDigits_ne_nil,
      fun _ => isDigit_of_mem_toDigits, by simp⟩

/-- The written decimal is read as a numeral of the same value. -/
theorem scan_positional (c i : Nat) {rest : List Char} (h : Numeral.Stops rest) :
    ∃ n k : Nat, Numeral.scan (positional c i ++ rest) = some (⟨n, -k⟩, rest) ∧
      n * 10 ^ 1074 = c * 10 ^ i * 10 ^ k := by
  rcases Nat.lt_or_ge i 1074 with hi | hi
  · have hplaces : 0 < 1074 - i := by omega
    have hlength := length_padded hplaces
      (Nat.mod_lt c (Nat.pow_pos (n := 1074 - i) (by decide)))
    have hdigits : ∀ d ∈ Nat.toDigits 10 (c / 10 ^ (1074 - i)), d.isDigit = true :=
      fun _ => isDigit_of_mem_toDigits
    have hpadded : ∀ d ∈ padded (1074 - i) (c % 10 ^ (1074 - i)), d.isDigit = true :=
      fun _ => isDigit_of_mem_padded
    have hscan := Numeral.scan_fraction hdigits Nat.toDigits_ne_nil hpadded h
    rw [digitsValue_padded hplaces, hlength] at hscan
    refine ⟨c, 1074 - i, ?_, ?_⟩
    · rw [positional_of_lt hi, List.append_assoc, List.cons_append]
      exact hscan
    · rw [Nat.mul_assoc, ← Nat.pow_add, Nat.add_sub_cancel' (Nat.le_of_lt hi)]
  · have hdigits : ∀ d ∈ Nat.toDigits 10 (c * 10 ^ (i - 1074)), d.isDigit = true :=
      fun _ => isDigit_of_mem_toDigits
    have hscan := Numeral.scan_whole hdigits Nat.toDigits_ne_nil h
    rw [Numeral.digitsValue, Nat.ofDigitChars_ten_toDigits] at hscan
    refine ⟨c * 10 ^ (i - 1074), 0, ?_, ?_⟩
    · rw [positional_of_le hi]
      exact hscan
    · calc
        c * 10 ^ (i - 1074) * 10 ^ 1074 = c * 10 ^ i := by
          rw [Nat.mul_assoc, Nat.pow_sub_mul_pow 10 hi]
        _ = c * 10 ^ i * 10 ^ 0 := (Nat.mul_one _).symm

/-! ### The text of a number -/

/-- A number that is written with digits alone: not zero, not infinite and without a sign. -/
structure IsPositive (x : Binary64) : Prop where
  negative_eq : x.negative = false
  magnitude_pos : 0 < x.magnitude
  magnitude_lt_infinity : x.magnitude < infinityMagnitude

theorem IsProbability.isPositive {x : Binary64} (h : x.IsProbability) : x.IsPositive :=
  ⟨h.1, h.2.1, Nat.lt_of_le_of_lt h.2.2 (by decide)⟩

namespace IsPositive

variable {x : Binary64} (hx : x.IsPositive)

include hx

/-- The text is that of a decimal that reads back. -/
theorem exists_render_eq : ∃ c i, x.render = positional c i ∧ readsBack x.magnitude c i = true := by
  have hnumber := isNaN_eq_false_of_lt hx.magnitude_lt_infinity
  have hfinite : x.magnitude ≠ infinityMagnitude := Nat.ne_of_lt hx.magnitude_lt_infinity
  have hpos : x.magnitude ≠ 0 := Nat.ne_of_gt hx.magnitude_pos
  have hreads := accepts_shortestFrom (readsBack_decimalUnits hx.magnitude_lt_infinity)
    (coarseIndex x.magnitude)
  generalize hp : shortestFrom (readsBack x.magnitude) (decimalUnits x.magnitude)
    (coarseIndex x.magnitude) = p at hreads
  obtain ⟨c, i⟩ := p
  refine ⟨c, i, ?_, hreads⟩
  rw [render, hnumber, hx.negative_eq]
  simp only [Bool.false_eq_true, if_false]
  rw [magnitudeText, if_neg hfinite, if_neg hpos, hp]

/-- The text is read as the number, up to its last digit. -/
theorem scan_render {rest : List Char} (h : Numeral.Stops rest) :
    ∃ n, Numeral.scan (x.render ++ rest) = some (n, rest) ∧ n.toBinary64 = x := by
  obtain ⟨c, i, hrender, hreads⟩ := hx.exists_render_eq
  obtain ⟨n, k, hscan, hvalue⟩ := scan_positional c i h
  refine ⟨⟨n, -k⟩, by rw [hrender, hscan], ?_⟩
  have hnearest : nearest (n <<< 1074) (10 ^ k) = x.magnitude :=
    nearest_of_readsBack hreads (Nat.pow_pos (by decide)) hvalue
  rw [Numeral.toBinary64, ofDecimal_neg, ← toBits_inj]
  simp [toBits, ofUnits, hnearest, hx.negative_eq]

theorem isDigit_or_point_of_mem_render {c : Char} (h : c ∈ x.render) :
    c.isDigit = true ∨ c = '.' := by
  obtain ⟨k, i, hrender, _⟩ := hx.exists_render_eq
  obtain ⟨ds, fs, htext, _, hds, hfs⟩ := exists_positional_eq k i
  rw [hrender, htext, List.mem_append] at h
  rcases h with h | h
  · exact .inl (hds c h)
  · exact hfs c h

end IsPositive

end Binary64

end ChartParser
