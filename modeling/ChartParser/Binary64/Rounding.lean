import ChartParser.Binary64.Basic

/-! Correct rounding to the nearest floating-point number, and the arithmetic that it gives. All
values are fractions of natural numbers in units of `2 ^ -1074`, the least positive number. -/

namespace ChartParser.Binary64

/-- The value of a finite magnitude in units of `2 ^ -1074`. Each step of the exponent beyond the
first doubles the distance between neighbours. -/
def units (magnitude : Nat) : Nat :=
  let shift := magnitude / fractions - 1
  (magnitude - shift * fractions) <<< shift

/-- The natural number nearest to a fraction, a half going to the even neighbour. -/
def roundHalfEven (n d : Nat) : Nat :=
  let q := n / d
  let r := 2 * (n % d)
  if r < d then q else if d < r then q + 1 else q + q % 2

/-- The magnitude nearest to `n / d` units: fifty-three significant bits where the quotient has as
many, and infinity where no finite magnitude is nearest. A carry out of the significant bits steps
to the next exponent by itself. -/
def nearest (n d : Nat) : Nat :=
  let shift := (n / d).log2 - 52
  min infinityMagnitude (shift * fractions + roundHalfEven n (d <<< shift))

theorem nearest_le (n d : Nat) : nearest n d ≤ infinityMagnitude := Nat.min_le_left _ _

/-- The number nearest to a fraction of units, under a sign. -/
def ofUnits (negative : Bool) (n d : Nat) : Binary64 :=
  ⟨negative, nearest n d, Nat.lt_of_le_of_lt (nearest_le n d) (by decide)⟩

/-- The number nearest to a natural number. -/
def ofNat (n : Nat) : Binary64 := ofUnits false (n <<< 1074) 1

/-- The product, correctly rounded. -/
def mul (x y : Binary64) : Binary64 :=
  let negative := x.negative != y.negative
  if x.isNaN || y.isNaN then notANumber
  else if x.isInfinite || y.isInfinite then
    if x.isZero || y.isZero then notANumber else { infinity with negative }
  else ofUnits negative (units x.magnitude * units y.magnitude) (1 <<< 1074)

/-- The quotient, correctly rounded. -/
def div (x y : Binary64) : Binary64 :=
  let negative := x.negative != y.negative
  if x.isNaN || y.isNaN then notANumber
  else if x.isInfinite then if y.isInfinite then notANumber else { infinity with negative }
  else if y.isInfinite then { zero with negative }
  else if y.isZero then if x.isZero then notANumber else { infinity with negative }
  else ofUnits negative (units x.magnitude <<< 1074) (units y.magnitude)

instance : Mul Binary64 := ⟨mul⟩

instance : Div Binary64 := ⟨div⟩

/-- The number nearest to `digits * 10 ^ exponent`. A value far beyond the range needs no power of
ten: from `10 ^ 400` on all round to infinity, and below `10 ^ -400` all round to zero. -/
def ofDecimal (digits : Nat) (exponent : Int) : Binary64 :=
  if digits = 0 ∨ exponent + (digits.log2 / 3 + 2 : Nat) < -400 then zero
  else if 400 ≤ exponent then infinity
  else if 0 ≤ exponent then ofUnits false ((digits * Nat.pow 10 exponent.toNat) <<< 1074) 1
  else ofUnits false (digits <<< 1074) (Nat.pow 10 (-exponent).toNat)

end ChartParser.Binary64
