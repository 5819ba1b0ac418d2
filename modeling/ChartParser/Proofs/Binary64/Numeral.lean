import ChartParser.Binary64.Numeral
import ChartParser.Proofs.Text.Prefix

/-! # Reading numerals

The texts of numerals are described apart from the scanner. The scanner finds such a text at the
front of its input or none is there, and it takes a numeral as a whole if the text after it does not
go on with one. -/

namespace ChartParser.Numeral

open Text (takeWhile_append_of_head dropWhile_append_of_head)

/-! ### Texts of numerals -/

/-- Digits and nothing else. -/
def AllDigits (s : List Char) : Prop := ∀ c ∈ s, c.isDigit = true

/-- The text of a numeral without its exponent, with the digits before and after the point: digits,
digits with a fraction, possibly an empty one, or a fraction alone. -/
inductive MantissaText : List Char → List Char → List Char → Prop where
  | whole {ds : List Char} (hds : AllDigits ds) (hne : ds ≠ []) : MantissaText ds ds []
  | fraction {ds fs : List Char} (hds : AllDigits ds) (hne : ds ≠ []) (hfs : AllDigits fs) :
      MantissaText (ds ++ '.' :: fs) ds fs
  | point {fs : List Char} (hfs : AllDigits fs) (hne : fs ≠ []) : MantissaText ('.' :: fs) [] fs

/-- The text of an exponent with its value: the letter, an optional sign and digits. A numeral
without one has exponent zero. -/
inductive ExponentText : List Char → Int → Prop where
  | none : ExponentText [] 0
  | unsigned {letter : Char} {ds : List Char} (hletter : letter = 'e' ∨ letter = 'E')
      (hds : AllDigits ds) (hne : ds ≠ []) : ExponentText (letter :: ds) (digitsValue ds)
  | plus {letter : Char} {ds : List Char} (hletter : letter = 'e' ∨ letter = 'E')
      (hds : AllDigits ds) (hne : ds ≠ []) : ExponentText (letter :: '+' :: ds) (digitsValue ds)
  | minus {letter : Char} {ds : List Char} (hletter : letter = 'e' ∨ letter = 'E')
      (hds : AllDigits ds) (hne : ds ≠ []) : ExponentText (letter :: '-' :: ds) (-digitsValue ds)

/-- The text of a numeral. -/
inductive NumeralText : List Char → Numeral → Prop where
  | mk {mantissa ds fs exponent : List Char} {e : Int} (hmantissa : MantissaText mantissa ds fs)
      (hexponent : ExponentText exponent e) :
      NumeralText (mantissa ++ exponent) ⟨digitsValue (ds ++ fs), e - fs.length⟩

theorem MantissaText.head {text ds fs : List Char} (h : MantissaText text ds fs) :
    ∃ c rest, text = c :: rest ∧ (c.isDigit = true ∨ c = '.') := by
  cases h with
  | whole hds hne =>
      obtain ⟨c, ds, rfl⟩ := List.exists_cons_of_ne_nil hne
      exact ⟨c, ds, rfl, .inl (hds c (List.mem_cons_self ..))⟩
  | fraction hds hne hfs =>
      obtain ⟨c, ds, rfl⟩ := List.exists_cons_of_ne_nil hne
      exact ⟨c, _, rfl, .inl (hds c (List.mem_cons_self ..))⟩
  | point hfs hne => exact ⟨'.', _, rfl, .inr rfl⟩

/-- A numeral starts with a digit or with its point. -/
theorem NumeralText.head {text : List Char} {n : Numeral} (h : NumeralText text n) :
    ∃ c rest, text = c :: rest ∧ (c.isDigit = true ∨ c = '.') := by
  obtain ⟨hmantissa, _⟩ := h
  obtain ⟨c, rest, rfl, hc⟩ := hmantissa.head
  exact ⟨c, _, rfl, hc⟩

theorem ExponentText.head {text : List Char} {e : Int} (h : ExponentText text e) :
    ∀ c ∈ text.head?, c = 'e' ∨ c = 'E' := by
  cases h with
  | none => simp
  | unsigned hletter _ _ => simpa using hletter
  | plus hletter _ _ => simpa using hletter
  | minus hletter _ _ => simpa using hletter

/-! ### What the scanner takes -/

theorem allDigits_takeWhile (s : List Char) : AllDigits (s.takeWhile Char.isDigit) :=
  fun _ hc => List.mem_takeWhile_imp hc

theorem exists_of_scanInteger {negative : Bool} {s rest : List Char} {n : Int}
    (h : scanInteger negative s = some (n, rest)) :
    ∃ ds, AllDigits ds ∧ ds ≠ [] ∧ s = ds ++ rest ∧
      n = if negative then -(digitsValue ds : Int) else digitsValue ds := by
  unfold scanInteger at h
  split at h
  · contradiction
  · next hne =>
    cases h
    refine ⟨_, allDigits_takeWhile s, fun hnil => hne hnil, ?_, rfl⟩
    exact List.takeWhile_append_dropWhile.symm

/-- What is read of an exponent is the text of one; where digits are missing nothing is read. -/
theorem exists_of_scanExponent (s : List Char) :
    ∃ text, s = text ++ (scanExponent s).2 ∧ ExponentText text (scanExponent s).1 := by
  have hnothing : ∃ text, s = text ++ s ∧ ExponentText text 0 := ⟨[], rfl, .none⟩
  cases s with
  | nil => exact hnothing
  | cons c rest =>
      by_cases hc : c = 'e' ∨ c = 'E'
      · simp only [scanExponent, hc, if_true]
        split
        · next digits =>
          cases hscan : scanInteger false digits with
          | none => exact hnothing
          | some p =>
              obtain ⟨ds, hds, hne, rfl, hp⟩ := exists_of_scanInteger hscan
              exact ⟨c :: '+' :: ds, rfl, hp ▸ .plus hc hds hne⟩
        · next digits =>
          cases hscan : scanInteger true digits with
          | none => exact hnothing
          | some p =>
              obtain ⟨ds, hds, hne, rfl, hp⟩ := exists_of_scanInteger hscan
              exact ⟨c :: '-' :: ds, rfl, hp ▸ .minus hc hds hne⟩
        · cases hscan : scanInteger false rest with
          | none => exact hnothing
          | some p =>
              obtain ⟨ds, hds, hne, rfl, hp⟩ := exists_of_scanInteger hscan
              exact ⟨c :: ds, rfl, hp ▸ .unsigned hc hds hne⟩
      · simpa [scanExponent, hc] using hnothing

/-- What is read before the exponent is the text of a mantissa, if there is any digit in it. -/
theorem exists_of_scanFraction {s fs rest : List Char}
    (h : scanFraction (s.dropWhile Char.isDigit) = (fs, rest))
    (hne : s.takeWhile Char.isDigit ≠ [] ∨ fs ≠ []) :
    ∃ text, s = text ++ rest ∧ MantissaText text (s.takeWhile Char.isDigit) fs := by
  have hsplit : s.takeWhile Char.isDigit ++ s.dropWhile Char.isDigit = s :=
    List.takeWhile_append_dropWhile
  have hdigits := allDigits_takeWhile s
  generalize s.takeWhile Char.isDigit = ds at *
  unfold scanFraction at h
  split at h
  · next digits hpoint =>
    cases h
    have hrest : s = (ds ++ '.' :: digits.takeWhile Char.isDigit) ++
        digits.dropWhile Char.isDigit := by
      rw [List.append_assoc, List.cons_append, List.takeWhile_append_dropWhile, ← hpoint, hsplit]
    by_cases hds : ds = []
    · subst hds
      exact ⟨_, hrest, .point (allDigits_takeWhile digits) (hne.resolve_left (by simp))⟩
    · exact ⟨_, hrest, .fraction hdigits hds (allDigits_takeWhile digits)⟩
  · cases h
    exact ⟨ds, hsplit.symm, .whole hdigits (hne.resolve_right (by simp))⟩

/-- The scanner takes the text of a numeral off the front of its input. -/
theorem exists_of_scan {s rest : List Char} {n : Numeral} (h : scan s = some (n, rest)) :
    ∃ text, s = text ++ rest ∧ NumeralText text n := by
  unfold scan at h
  generalize hfraction : scanFraction (s.dropWhile Char.isDigit) = p at h
  obtain ⟨fs, afterFraction⟩ := p
  simp only at h
  split at h
  · contradiction
  · next hne =>
    cases h
    have hdigits : s.takeWhile Char.isDigit ≠ [] ∨ fs ≠ [] := by
      rw [Bool.and_eq_true, not_and_or] at hne
      exact hne.imp (by simp) (by simp)
    obtain ⟨mantissa, hs, hmantissa⟩ := exists_of_scanFraction hfraction hdigits
    obtain ⟨exponent, hafter, hexponent⟩ := exists_of_scanExponent afterFraction
    refine ⟨mantissa ++ exponent, ?_, .mk hmantissa hexponent⟩
    rw [List.append_assoc, ← hafter, ← hs]

/-! ### Numerals as a whole -/

/-- A text that does not go on with a numeral. -/
def Stops (rest : List Char) : Prop :=
  ∀ c ∈ rest.head?, c.isDigit = false ∧ c ≠ '.' ∧ c ≠ 'e' ∧ c ≠ 'E'

section

variable {text ds fs rest : List Char}

theorem Stops.not_isDigit (h : Stops rest) : ∀ c ∈ rest.head?, c.isDigit = false :=
  fun c hc => (h c hc).1

theorem Stops.scanExponent_eq (h : Stops rest) : scanExponent rest = (0, rest) := by
  cases rest with
  | nil => rfl
  | cons c rest =>
      obtain ⟨_, _, he, hE⟩ := h c rfl
      simp [scanExponent, he, hE]

theorem scanInteger_append (negative : Bool) (hds : AllDigits ds) (hne : ds ≠ [])
    (hrest : ∀ c ∈ rest.head?, c.isDigit = false) :
    scanInteger negative (ds ++ rest) =
      some (if negative then -(digitsValue ds : Int) else digitsValue ds, rest) := by
  rw [scanInteger, takeWhile_append_of_head hds hrest, dropWhile_append_of_head hds hrest]
  split
  · contradiction
  · rfl

/-- An exponent is read as a whole. -/
theorem ExponentText.scanExponent_append {e : Int} (h : ExponentText text e) (hrest : Stops rest) :
    scanExponent (text ++ rest) = (e, rest) := by
  cases h with
  | none => exact hrest.scanExponent_eq
  | @unsigned letter ds hletter hds hne =>
      -- a digit is no sign
      obtain ⟨d, ds, rfl⟩ := List.exists_cons_of_ne_nil hne
      have hd : d.isDigit = true := hds d (List.mem_cons_self ..)
      have hscan := scanInteger_append false hds hne hrest.not_isDigit
      rw [List.cons_append] at hscan
      simp only [List.cons_append, scanExponent, hletter, if_true]
      split
      · next heq =>
        obtain ⟨rfl, _⟩ := List.cons.inj heq
        exact absurd hd (by decide)
      · next heq =>
        obtain ⟨rfl, _⟩ := List.cons.inj heq
        exact absurd hd (by decide)
      · rw [hscan]
        rfl
  | plus hletter hds hne =>
      simp [scanExponent, hletter, scanInteger_append false hds hne hrest.not_isDigit]
  | minus hletter hds hne =>
      simp [scanExponent, hletter, scanInteger_append true hds hne hrest.not_isDigit]

theorem scanFraction_of_head (h : ∀ c ∈ rest.head?, c ≠ '.') : scanFraction rest = ([], rest) := by
  unfold scanFraction
  split
  · exact absurd rfl (h '.' rfl)
  · rfl

/-- A mantissa is read as a whole, its digits on both sides of the point. -/
theorem MantissaText.scanFraction_append (h : MantissaText text ds fs)
    (hrest : ∀ c ∈ rest.head?, c.isDigit = false ∧ c ≠ '.') :
    (text ++ rest).takeWhile Char.isDigit = ds ∧
      scanFraction ((text ++ rest).dropWhile Char.isDigit) = (fs, rest) := by
  have hdigit : ∀ c ∈ rest.head?, c.isDigit = false := fun c hc => (hrest c hc).1
  have hpoint : ∀ fs : List Char, ∀ c ∈ ('.' :: fs).head?, c.isDigit = false := by
    intro fs c hc
    obtain rfl : '.' = c := by simpa using hc
    decide
  cases h with
  | whole hds hne =>
      rw [takeWhile_append_of_head hds hdigit, dropWhile_append_of_head hds hdigit]
      exact ⟨rfl, scanFraction_of_head fun c hc => (hrest c hc).2⟩
  | fraction hds hne hfs =>
      rw [List.append_assoc, List.cons_append, takeWhile_append_of_head hds (hpoint _),
        dropWhile_append_of_head hds (hpoint _)]
      simp [scanFraction, takeWhile_append_of_head hfs hdigit, dropWhile_append_of_head hfs hdigit]
  | point hfs hne =>
      simp [scanFraction, takeWhile_append_of_head hfs hdigit, dropWhile_append_of_head hfs hdigit]

/-- A numeral is read as a whole. -/
theorem NumeralText.scan_append {n : Numeral} (h : NumeralText text n) (hrest : Stops rest) :
    scan (text ++ rest) = some (n, rest) := by
  obtain ⟨hmantissa, hexponent⟩ := h
  rename_i mantissa ds fs exponent e
  have hafter : ∀ c ∈ (exponent ++ rest).head?, c.isDigit = false ∧ c ≠ '.' := by
    intro c hc
    rw [List.head?_append, Option.mem_def, Option.or_eq_some_iff] at hc
    rcases hc with hc | ⟨_, hc⟩
    · rcases hexponent.head c hc with rfl | rfl
      · decide
      · decide
    · exact ⟨(hrest c hc).1, (hrest c hc).2.1⟩
  obtain ⟨hds, hfs⟩ := hmantissa.scanFraction_append hafter
  have hdigits : (ds.isEmpty && fs.isEmpty) = false := by
    cases hmantissa with
    | whole _ hne => simp [hne]
    | fraction _ hne _ => simp [hne]
    | point _ hne => simp [hne]
  rw [List.append_assoc]
  unfold scan
  simp [hds, hfs, hdigits, hexponent.scanExponent_append hrest]

/-- A whole number is read up to its last digit. -/
theorem scan_whole (hds : ∀ c ∈ ds, c.isDigit = true) (hne : ds ≠ []) (h : Stops rest) :
    scan (ds ++ rest) = some (⟨digitsValue ds, 0⟩, rest) := by
  simpa using (NumeralText.mk (.whole hds hne) .none).scan_append h

/-- A number with a fraction is read up to its last digit. -/
theorem scan_fraction (hds : ∀ c ∈ ds, c.isDigit = true) (hne : ds ≠ [])
    (hfs : ∀ c ∈ fs, c.isDigit = true) (h : Stops rest) :
    scan (ds ++ '.' :: (fs ++ rest)) =
      some (⟨digitsValue (ds ++ fs), -fs.length⟩, rest) := by
  simpa using (NumeralText.mk (.fraction hds hne hfs) .none).scan_append h

end

end ChartParser.Numeral
