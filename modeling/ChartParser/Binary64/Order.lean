import ChartParser.Binary64.Basic

/-! Two orders on floating-point numbers. The numeric one knows no order for a not-a-number and no
difference between the two zeros; the total one separates all patterns. -/

namespace ChartParser.Binary64

/-- The position of a number in the numeric order, the same for both zeros. -/
def signed (x : Binary64) : Int := if x.negative then -x.magnitude else x.magnitude

/-- Numeric equality: no not-a-number equals anything. -/
def equal (x y : Binary64) : Bool := !x.isNaN && !y.isNaN && x.signed == y.signed

/-- The larger number. A not-a-number gives way to a number, and of two equal numbers the first
is taken. -/
def max (x y : Binary64) : Binary64 :=
  if y.isNaN then x else if x.isNaN then y else if x.signed < y.signed then y else x

/-- The position of a pattern in the total order: a negative pattern precedes every positive one,
and of two negative patterns the larger magnitude comes first. -/
def rank (x : Binary64) : Int := if x.negative then -x.magnitude - 1 else x.magnitude

/-- Every pattern has a rank of its own. -/
theorem rank_inj {x y : Binary64} : x.rank = y.rank ↔ x = y := by
  refine ⟨fun h => ?_, congrArg rank⟩
  obtain ⟨s, m, hm⟩ := x
  obtain ⟨t, n, hn⟩ := y
  cases s <;> cases t <;> simp [rank] at h ⊢ <;> omega

/-- The total order of patterns. -/
def totalCompare (x y : Binary64) : Ordering := compare x.rank y.rank

/-- A number above zero and not above one. -/
def IsProbability (x : Binary64) : Prop :=
  x.negative = false ∧ 0 < x.magnitude ∧ x.magnitude ≤ oneMagnitude

instance (x : Binary64) : Decidable x.IsProbability :=
  inferInstanceAs (Decidable (_ ∧ _ ∧ _))

end ChartParser.Binary64
