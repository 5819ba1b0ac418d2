/-! Binary floating-point numbers of 64 bits, as sign and magnitude of their interchange pattern. A
pattern keeps every distinction that the total order sees, the sign of a not-a-number included. -/

namespace ChartParser

/-- A 64-bit floating-point number. The magnitude is the pattern without its sign bit: eleven bits
of biased exponent above fifty-two bits of fraction. -/
structure Binary64 where
  negative : Bool
  magnitude : Nat
  magnitude_lt : magnitude < 1 <<< 63
deriving DecidableEq

namespace Binary64

/-- The number of fractions under one exponent. -/
def fractions : Nat := 1 <<< 52

/-- The magnitude of infinity. Finite numbers lie below it and not-a-numbers above. -/
def infinityMagnitude : Nat := 2047 * fractions

/-- The magnitude of the number one. -/
def oneMagnitude : Nat := 1023 * fractions

def zero : Binary64 := ⟨false, 0, by decide⟩

def one : Binary64 := ⟨false, oneMagnitude, by decide⟩

def infinity : Binary64 := ⟨false, infinityMagnitude, by decide⟩

/-- The quiet not-a-number without payload. -/
def notANumber : Binary64 := ⟨false, infinityMagnitude + fractions / 2, by decide⟩

/-- The same pattern under the other sign. -/
def neg (x : Binary64) : Binary64 := { x with negative := !x.negative }

instance : Neg Binary64 := ⟨neg⟩

def isNaN (x : Binary64) : Bool := infinityMagnitude < x.magnitude

def isInfinite (x : Binary64) : Bool := x.magnitude == infinityMagnitude

def isZero (x : Binary64) : Bool := x.magnitude == 0

theorem isNaN_eq_false_of_lt {x : Binary64} (h : x.magnitude < infinityMagnitude) :
    x.isNaN = false :=
  decide_eq_false (Nat.not_lt_of_lt h)

theorem isInfinite_eq_false_of_lt {x : Binary64} (h : x.magnitude < infinityMagnitude) :
    x.isInfinite = false :=
  beq_false_of_ne (Nat.ne_of_lt h)

/-- The whole pattern as a natural number, the sign being its highest bit. -/
def toBits (x : Binary64) : Nat := if x.negative then 1 <<< 63 + x.magnitude else x.magnitude

theorem toBits_lt (x : Binary64) : x.toBits < 1 <<< 64 := by
  have h := x.magnitude_lt
  unfold toBits
  split <;> omega

/-- Numbers of one pattern are the same. -/
theorem toBits_inj {x y : Binary64} : x.toBits = y.toBits ↔ x = y := by
  refine ⟨fun h => ?_, congrArg toBits⟩
  obtain ⟨s, m, hm⟩ := x
  obtain ⟨t, n, hn⟩ := y
  cases s <;> cases t <;> simp [toBits] at h ⊢ <;> omega

end Binary64

end ChartParser
