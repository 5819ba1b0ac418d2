import ChartParser.Binary64.Rounding

/-! The shortest decimal text of a floating-point number. Of all decimals that read back as the
number the one on the coarsest decimal grid is written, and on that grid the nearest one. -/

namespace ChartParser.Binary64

/-- The value of a finite magnitude in units of `10 ^ -1074`, a grid on which every finite number
lies. -/
def decimalUnits (magnitude : Nat) : Nat := units magnitude * Nat.pow 5 1074

/-- Whether `c * 10 ^ (i - 1074)` reads back as the magnitude. -/
def readsBack (magnitude c i : Nat) : Bool := nearest (c * Nat.pow 10 i) (Nat.pow 5 1074) == magnitude

/-- The coefficient of an accepted decimal on a grid, for a value given in finer units. Only the two
neighbours of the value can be nearest; a value halfway between them goes to the larger. -/
def coefficient? (accepts : Nat → Bool) (value step : Nat) : Option Nat :=
  let below := value / step
  match accepts below, accepts (below + 1) with
  | true, true => some (if 2 * (value % step) < step then below else below + 1)
  | true, false => some below
  | false, true => some (below + 1)
  | false, false => none

/-- The coefficient and the index of the coarsest grid, not coarser than a given one, on which a
decimal is accepted. The finest grid holds the exact value. -/
def shortestFrom (accepts : Nat → Nat → Bool) (value : Nat) : Nat → Nat × Nat
  | 0 => (value, 0)
  | i + 1 =>
      match coefficient? (accepts · (i + 1)) value (Nat.pow 10 (i + 1)) with
      | some c => (c, i + 1)
      | none => shortestFrom accepts value i

/-- The index of a grid too coarse for the magnitude, from the number of bits of its value: the
decimal logarithm of two is below `30103 / 100000`. -/
def coarseIndex (magnitude : Nat) : Nat :=
  ((decimalUnits magnitude).log2 + 1) * 30103 / 100000 + 1

/-- Writes `c * 10 ^ (i - 1074)` without an exponent, with a point only before a fraction. -/
def positional (c i : Nat) : List Char :=
  if 1074 ≤ i then Nat.toDigits 10 (c * Nat.pow 10 (i - 1074))
  else
    let places := 1074 - i
    let one := Nat.pow 10 places
    let fraction := Nat.toDigits 10 (c % one)
    Nat.toDigits 10 (c / one) ++
      '.' :: (List.replicate (places - fraction.length) '0' ++ fraction)

/-- The text of a magnitude. -/
def magnitudeText (magnitude : Nat) : List Char :=
  if magnitude = infinityMagnitude then ['i', 'n', 'f']
  else if magnitude = 0 then ['0']
  else
    let (c, i) :=
      shortestFrom (readsBack magnitude) (decimalUnits magnitude) (coarseIndex magnitude)
    positional c i

/-- The text of a number. Only a not-a-number hides its sign. -/
def render (x : Binary64) : List Char :=
  if x.isNaN then ['N', 'a', 'N']
  else if x.negative then '-' :: magnitudeText x.magnitude
  else magnitudeText x.magnitude

instance : ToString Binary64 := ⟨fun x => String.ofList x.render⟩

end ChartParser.Binary64
