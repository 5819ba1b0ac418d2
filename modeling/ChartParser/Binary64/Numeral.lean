import ChartParser.Binary64.Rounding

/-! Unsigned decimal numerals: digits with an optional point and an optional exponent. A numeral is
taken by longest match, so an incomplete exponent is left unread. -/

namespace ChartParser

/-- A decimal numeral as the number `digits * 10 ^ exponent`. -/
structure Numeral where
  digits : Nat
  exponent : Int
deriving DecidableEq

namespace Numeral

/-- The number nearest to a numeral. -/
def toBinary64 (n : Numeral) : Binary64 := .ofDecimal n.digits n.exponent

/-- The value of a run of digits. -/
def digitsValue (s : List Char) : Nat := Nat.ofDigitChars 10 s 0

/-- Reads digits as an integer under a sign, if there is any digit. -/
def scanInteger (negative : Bool) (s : List Char) : Option (Int × List Char) :=
  match s.takeWhile Char.isDigit with
  | [] => none
  | ds =>
      let n : Int := digitsValue ds
      some (if negative then -n else n, s.dropWhile Char.isDigit)

/-- Reads an exponent: the letter, an optional sign and at least one digit. Where there is none,
the exponent is zero and nothing is read. -/
def scanExponent (s : List Char) : Int × List Char :=
  let exponent? : Option (Int × List Char) :=
    match s with
    | c :: rest =>
        if c = 'e' ∨ c = 'E' then
          match rest with
          | '+' :: rest => scanInteger false rest
          | '-' :: rest => scanInteger true rest
          | rest => scanInteger false rest
        else none
    | [] => none
  exponent?.getD (0, s)

/-- Reads a fraction: a point and the digits after it, possibly none. -/
def scanFraction : List Char → List Char × List Char
  | '.' :: rest => (rest.takeWhile Char.isDigit, rest.dropWhile Char.isDigit)
  | s => ([], s)

/-- Reads a numeral and gives the text after it. At least one digit has to stand before the
exponent, on either side of the point. -/
def scan (s : List Char) : Option (Numeral × List Char) :=
  let whole := s.takeWhile Char.isDigit
  let (fraction, afterFraction) := scanFraction (s.dropWhile Char.isDigit)
  if whole.isEmpty && fraction.isEmpty then none
  else
    let (exponent, rest) := scanExponent afterFraction
    some (⟨digitsValue (whole ++ fraction), exponent - fraction.length⟩, rest)

theorem length_of_scanInteger {negative : Bool} {s rest : List Char} {n : Int}
    (h : scanInteger negative s = some (n, rest)) : rest.length ≤ s.length := by
  unfold scanInteger at h
  split at h
  · contradiction
  · cases h
    exact (List.dropWhile_sublist _).length_le

theorem length_scanExponent_le (s : List Char) : (scanExponent s).2.length ≤ s.length := by
  unfold scanExponent
  split
  next c rest =>
    by_cases hc : c = 'e' ∨ c = 'E'
    · simp only [hc, if_true]
      split
      all_goals
        cases hi : scanInteger _ _ with
        | none => simp
        | some p =>
          have hlength := length_of_scanInteger hi
          simp_all
          try omega
    · simp [hc]
  · simp

theorem length_scanFraction_le (s : List Char) : (scanFraction s).2.length ≤ s.length := by
  unfold scanFraction
  split
  · exact Nat.le_succ_of_le (List.dropWhile_sublist _).length_le
  · exact Nat.le_refl _

theorem length_of_scan {s rest : List Char} {n : Numeral} (h : scan s = some (n, rest)) :
    rest.length ≤ s.length := by
  unfold scan at h
  simp only at h
  split at h
  · contradiction
  · cases h
    exact Nat.le_trans (length_scanExponent_le _)
      (Nat.le_trans (length_scanFraction_le _) (List.dropWhile_sublist _).length_le)

end Numeral

end ChartParser
