import ChartParser.Proofs.Text.Lines

/-! # Collapsed blanks

Two texts that differ only in how much blank space stands between their other characters collapse to
the same text. Collapsing may be done piece by piece wherever no blank ends the first piece. -/

namespace ChartParser.Text

/-- Whether the first character of a text is blank. -/
def startsBlank (s : List Char) : Bool := s.head?.any isBlank

/-- The text with a single space for every run of blanks. The last blank of a run becomes the space,
and those before it are left out. -/
def collapseBlanks : List Char → List Char
  | [] => []
  | c :: s =>
      if isBlank c then
        if startsBlank s then collapseBlanks s else ' ' :: collapseBlanks s
      else c :: collapseBlanks s

example : collapseBlanks "\t(S\n  x  y)\r\n".toList = " (S x y) ".toList := by decide

theorem collapseBlanks_cons (c : Char) (s : List Char) :
    collapseBlanks (c :: s) =
      if isBlank c then if startsBlank s then collapseBlanks s else ' ' :: collapseBlanks s
      else c :: collapseBlanks s :=
  rfl

theorem collapseBlanks_cons_of_not_blank {c : Char} (h : isBlank c = false) (s : List Char) :
    collapseBlanks (c :: s) = c :: collapseBlanks s := by
  rw [collapseBlanks_cons, if_neg (by simp [h])]

theorem collapseBlanks_cons_of_blank {c : Char} (h : isBlank c = true) {s : List Char}
    (hs : startsBlank s = false) : collapseBlanks (c :: s) = ' ' :: collapseBlanks s := by
  rw [collapseBlanks_cons, if_pos h, if_neg (by simp [hs])]

theorem collapseBlanks_cons_of_blank_of_startsBlank {c : Char} (h : isBlank c = true)
    {s : List Char} (hs : startsBlank s = true) : collapseBlanks (c :: s) = collapseBlanks s := by
  rw [collapseBlanks_cons, if_pos h, if_pos hs]

@[simp] theorem startsBlank_cons (c : Char) (s : List Char) :
    startsBlank (c :: s) = isBlank c := by
  simp [startsBlank]

theorem collapseBlanks_cons_cons {c d : Char} (hc : isBlank c = true) (hd : isBlank d = true)
    (s : List Char) : collapseBlanks (c :: d :: s) = collapseBlanks (d :: s) :=
  collapseBlanks_cons_of_blank_of_startsBlank hc (by simpa using hd)

theorem endsBlank_cons_of_ne_nil {s : List Char} (h : s ≠ []) (c : Char) :
    endsBlank (c :: s) = endsBlank s := by
  rw [endsBlank, endsBlank, List.getLast?_cons_of_ne_nil h]

theorem endsBlank_append {s t : List Char} (hs : endsBlank s = false) (ht : endsBlank t = false) :
    endsBlank (s ++ t) = false := by
  by_cases hne : t = []
  · rwa [hne, List.append_nil]
  · rwa [endsBlank, List.getLast?_append_of_ne_nil s hne]

/-! ### The ends of a collapsed text -/

theorem head?_collapseBlanks (s : List Char) :
    (collapseBlanks s).head? = s.head?.map fun c => if isBlank c then ' ' else c := by
  induction s with
  | nil => rfl
  | cons c s ih =>
      by_cases hc : isBlank c = true
      · by_cases hs : startsBlank s = true
        · rw [collapseBlanks_cons_of_blank_of_startsBlank hc hs, ih]
          cases s with
          | nil => contradiction
          | cons d s =>
              rw [startsBlank_cons] at hs
              simp [hc, hs]
        · rw [collapseBlanks_cons_of_blank hc (by simpa using hs)]
          simp [hc]
      · rw [collapseBlanks_cons_of_not_blank (by simpa using hc)]
        simp [hc]

theorem startsBlank_collapseBlanks (s : List Char) :
    startsBlank (collapseBlanks s) = startsBlank s := by
  rw [startsBlank, head?_collapseBlanks, startsBlank]
  cases s with
  | nil => rfl
  | cons c s =>
      by_cases hc : isBlank c = true
      · simp [hc]
        decide
      · simp [hc]

theorem collapseBlanks_eq_nil_iff {s : List Char} : collapseBlanks s = [] ↔ s = [] := by
  rw [← List.head?_eq_none_iff, head?_collapseBlanks, Option.map_eq_none_iff,
    List.head?_eq_none_iff]

theorem endsBlank_collapseBlanks (s : List Char) :
    endsBlank (collapseBlanks s) = endsBlank s := by
  induction s with
  | nil => rfl
  | cons c s ih =>
      by_cases hs : s = []
      · subst hs
        by_cases hc : isBlank c = true
        · rw [collapseBlanks_cons_of_blank hc rfl]
          simp [collapseBlanks, endsBlank, hc]
          decide
        · rw [collapseBlanks_cons_of_not_blank (by simpa using hc), collapseBlanks]
      · have hne : collapseBlanks s ≠ [] := mt collapseBlanks_eq_nil_iff.mp hs
        rw [collapseBlanks_cons, endsBlank_cons_of_ne_nil hs, ← ih]
        split
        · split
          · rfl
          · exact endsBlank_cons_of_ne_nil hne _
        · exact endsBlank_cons_of_ne_nil hne _

theorem collapseBlanks_collapseBlanks (s : List Char) :
    collapseBlanks (collapseBlanks s) = collapseBlanks s := by
  induction s with
  | nil => rfl
  | cons c s ih =>
      by_cases hc : isBlank c = true
      · by_cases hs : startsBlank s = true
        · rw [collapseBlanks_cons_of_blank_of_startsBlank hc hs, ih]
        · rw [Bool.not_eq_true] at hs
          have hcollapsed : startsBlank (collapseBlanks s) = false := by
            rwa [startsBlank_collapseBlanks]
          rw [collapseBlanks_cons_of_blank hc hs,
            collapseBlanks_cons_of_blank (by decide) hcollapsed, ih]
      · rw [Bool.not_eq_true] at hc
        rw [collapseBlanks_cons_of_not_blank hc, collapseBlanks_cons_of_not_blank hc, ih]

/-! ### Piece by piece -/

theorem collapseBlanks_of_forall_not_blank {s : List Char} (h : ∀ c ∈ s, isBlank c = false) :
    collapseBlanks s = s := by
  induction s with
  | nil => rfl
  | cons c s ih =>
      obtain ⟨hc, hs⟩ := List.forall_mem_cons.mp h
      rw [collapseBlanks_cons_of_not_blank hc, ih hs]

/-- A run of blanks that ends before the seam is collapsed in the first piece. -/
theorem collapseBlanks_append {s : List Char} (h : endsBlank s = false) (t : List Char) :
    collapseBlanks (s ++ t) = collapseBlanks s ++ collapseBlanks t := by
  induction s with
  | nil => rfl
  | cons c s ih =>
      cases s with
      | nil =>
          have hc : isBlank c = false := by simpa [endsBlank] using h
          rw [List.singleton_append, collapseBlanks_cons_of_not_blank hc,
            collapseBlanks_cons_of_not_blank hc]
          rfl
      | cons d s =>
          rw [endsBlank_cons_of_ne_nil (List.cons_ne_nil d s)] at h
          have hstarts : startsBlank (d :: s ++ t) = startsBlank (d :: s) := by simp
          rw [List.cons_append, collapseBlanks_cons, ih h, hstarts, collapseBlanks_cons c (d :: s)]
          split
          · split
            · rfl
            · rfl
          · rfl

theorem collapseBlanks_cons_congr {s t : List Char} (h : collapseBlanks s = collapseBlanks t)
    (c : Char) : collapseBlanks (c :: s) = collapseBlanks (c :: t) := by
  have hstarts : startsBlank s = startsBlank t := by
    rw [← startsBlank_collapseBlanks s, h, startsBlank_collapseBlanks]
  rw [collapseBlanks_cons, hstarts, h, collapseBlanks_cons]

theorem collapseBlanks_append_congr {s t : List Char} (h : collapseBlanks s = collapseBlanks t)
    (l : List Char) : collapseBlanks (l ++ s) = collapseBlanks (l ++ t) := by
  induction l with
  | nil => exact h
  | cons c l ih => exact collapseBlanks_cons_congr ih c

/-! ### Unpadded texts -/

/-- A text with some character, and with no blank at either end. -/
structure Unpadded (s : List Char) : Prop where
  ne_nil : s ≠ []
  startsBlank_eq_false : startsBlank s = false
  endsBlank_eq_false : endsBlank s = false

theorem Unpadded.of_forall_not_blank {s : List Char} (hne : s ≠ [])
    (h : ∀ c ∈ s, isBlank c = false) : Unpadded s where
  ne_nil := hne
  startsBlank_eq_false := by
    obtain ⟨c, s, rfl⟩ := List.exists_cons_of_ne_nil hne
    rw [startsBlank_cons]
    exact h c List.mem_cons_self
  endsBlank_eq_false :=
    endsBlank_eq_false_iff.mpr fun c hc => h c (List.mem_of_getLast? hc)

theorem Unpadded.of_collapseBlanks {s : List Char} (h : Unpadded (collapseBlanks s)) :
    Unpadded s where
  ne_nil := mt collapseBlanks_eq_nil_iff.mpr h.ne_nil
  startsBlank_eq_false := by
    rw [← startsBlank_collapseBlanks]
    exact h.startsBlank_eq_false
  endsBlank_eq_false := by
    rw [← endsBlank_collapseBlanks]
    exact h.endsBlank_eq_false

/-- What a blank before an unpadded text collapses to. -/
theorem Unpadded.collapseBlanks_cons {s : List Char} (h : Unpadded s) {c : Char}
    (hc : isBlank c = true) : collapseBlanks (c :: s) = ' ' :: collapseBlanks s :=
  collapseBlanks_cons_of_blank hc h.startsBlank_eq_false

end ChartParser.Text
