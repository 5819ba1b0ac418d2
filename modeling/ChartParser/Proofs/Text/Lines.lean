import ChartParser.Text.Blank
import ChartParser.Text.Lines
import Mathlib.Data.List.DropRight

/-! # Lines and their margins

Lines that are written one below the other are read back one by one, a line ends nowhere inside
itself, and trimming takes away a line end with the blanks before it, but nothing else. -/

namespace ChartParser.Text

/-! ### Lines -/

section

variable {α : Type} [DecidableEq α] {lineEnd : α} {l : List α}

/-- The first line ends where the first line end is. -/
theorem pieces_append (h : lineEnd ∉ l) (rest : List α) :
    pieces lineEnd (l ++ lineEnd :: rest) = (l ++ [lineEnd]) :: pieces lineEnd rest := by
  induction l with
  | nil =>
      change extendPieces lineEnd lineEnd (pieces lineEnd rest) = _
      cases pieces lineEnd rest with
      | nil => rfl
      | cons piece others => simp [extendPieces]
  | cons c l ih =>
      obtain ⟨hc, hl⟩ := not_or.mp (mt List.mem_cons.mpr h)
      change extendPieces lineEnd c (pieces lineEnd (l ++ lineEnd :: rest)) = _
      rw [ih hl]
      simp [extendPieces, Ne.symm hc]

theorem pieces_of_not_mem (hne : l ≠ []) (h : lineEnd ∉ l) : pieces lineEnd l = [l] := by
  induction l with
  | nil => contradiction
  | cons c l ih =>
      obtain ⟨hc, hl⟩ := not_or.mp (mt List.mem_cons.mpr h)
      change extendPieces lineEnd c (pieces lineEnd l) = _
      cases l with
      | nil => rfl
      | cons d l =>
          rw [ih (List.cons_ne_nil d l) hl]
          simp [extendPieces, Ne.symm hc]

/-- The lines of a sequence: each stands before a line end, but what follows the last line end is
a line as well, unless it is empty. -/
inductive Lined (lineEnd : α) : List (List α) → List α → Prop where
  | nil : Lined lineEnd [] []
  | last {line : List α} (ne_nil : line ≠ []) (not_mem : lineEnd ∉ line) :
      Lined lineEnd [line] line
  | cons {line s : List α} {lines : List (List α)} (not_mem : lineEnd ∉ line)
      (rest : Lined lineEnd lines s) : Lined lineEnd (line :: lines) (line ++ lineEnd :: s)

/-- Every sequence has lines. -/
theorem exists_lined (lineEnd : α) (s : List α) : ∃ lines, Lined lineEnd lines s := by
  induction s with
  | nil => exact ⟨[], .nil⟩
  | cons c s ih =>
      obtain ⟨lines, hlines⟩ := ih
      by_cases hc : c = lineEnd
      · subst hc
        exact ⟨[] :: lines, .cons List.not_mem_nil hlines⟩
      · -- the character belongs to the first line of the rest
        have hfirst : ∀ {line : List α}, lineEnd ∉ line → lineEnd ∉ c :: line := fun h hmem =>
          (List.mem_cons.mp hmem).elim (fun heq => hc heq.symm) h
        cases hlines with
        | nil => exact ⟨[[c]], .last (List.cons_ne_nil c []) (hfirst List.not_mem_nil)⟩
        | last hne hmem => exact ⟨[c :: s], .last (List.cons_ne_nil c s) (hfirst hmem)⟩
        | @cons line rest lines hmem hrest =>
            exact ⟨(c :: line) :: lines, .cons (hfirst hmem) hrest⟩

theorem pieces_ne_nil (hne : l ≠ []) : pieces lineEnd l ≠ [] := by
  intro h
  apply hne
  rw [← flatten_pieces lineEnd l, h]
  rfl

/-- Behind a line end the lines start anew. -/
theorem pieces_append_lineEnd (s t : List α) :
    pieces lineEnd (s ++ lineEnd :: t) = pieces lineEnd (s ++ [lineEnd]) ++ pieces lineEnd t := by
  induction s with
  | nil => exact pieces_append List.not_mem_nil t
  | cons c s ih =>
      change extendPieces lineEnd c (pieces lineEnd (s ++ lineEnd :: t)) =
        extendPieces lineEnd c (pieces lineEnd (s ++ [lineEnd])) ++ pieces lineEnd t
      rw [ih]
      cases hpieces : pieces lineEnd (s ++ [lineEnd]) with
      | nil => exact absurd hpieces (pieces_ne_nil (by simp))
      | cons piece others => by_cases hc : c = lineEnd <;> simp [extendPieces, hc]

end

/-- Lines that are written one below the other are those of the whole. -/
theorem lined_flatMap {α : Type} {lineEnd : α} {lines : List (List α)}
    (h : ∀ line ∈ lines, lineEnd ∉ line) :
    Lined lineEnd lines (lines.flatMap fun line => line ++ [lineEnd]) := by
  induction lines with
  | nil => exact .nil
  | cons line lines ih =>
      obtain ⟨hline, hlines⟩ := List.forall_mem_cons.mp h
      rw [List.flatMap_cons, List.append_assoc, List.singleton_append]
      exact .cons hline (ih hlines)

/-- Lines written one below the other, each with a line end, are told apart again. -/
theorem lines_flatMap {ls : List (List Char)} (h : ∀ l ∈ ls, '\n' ∉ l) :
    lines (ls.flatMap fun l => l ++ ['\n']) = ls.map fun l => withoutLineEnd (l ++ ['\n']) := by
  induction ls with
  | nil => rfl
  | cons l ls ih =>
      obtain ⟨hl, hls⟩ := List.forall_mem_cons.mp h
      have htail := ih hls
      rw [lines] at htail ⊢
      rw [List.flatMap_cons, List.append_assoc, List.singleton_append, pieces_append hl,
        List.map_cons, htail, List.map_cons]

/-- Within a piece only the last character can be a line end. -/
theorem exists_of_mem_pieces {s p : List Char} (h : p ∈ pieces '\n' s) :
    ∃ l, '\n' ∉ l ∧ (p = l ∨ p = l ++ ['\n']) := by
  induction s generalizing p with
  | nil => simp [pieces] at h
  | cons c s ih =>
      change p ∈ extendPieces '\n' c (pieces '\n' s) at h
      have hfirst : ∃ l, '\n' ∉ l ∧ ([c] = l ∨ [c] = l ++ ['\n']) := by
        by_cases hc : c = '\n'
        · exact ⟨[], by simp, .inr (by simp [hc])⟩
        · exact ⟨[c], by simpa using Ne.symm hc, .inl rfl⟩
      cases hpieces : pieces '\n' s with
      | nil =>
          obtain rfl : p = [c] := by simpa [hpieces, extendPieces] using h
          exact hfirst
      | cons piece others =>
          rw [hpieces] at h ih
          by_cases hc : c = '\n'
          · rw [extendPieces, if_pos hc] at h
            rcases List.mem_cons.mp h with rfl | h
            · exact hfirst
            · exact ih h
          · rw [extendPieces, if_neg hc] at h
            rcases List.mem_cons.mp h with rfl | h
            · obtain ⟨l, hl, hpiece⟩ := ih (List.mem_cons_self (a := piece))
              refine ⟨c :: l, by simpa [hl] using Ne.symm hc, ?_⟩
              simpa using hpiece
            · exact ih (List.mem_cons_of_mem piece h)

/-- What a line end takes with it is at most one carriage return. -/
theorem withoutLineEnd_append (l : List Char) :
    withoutLineEnd (l ++ ['\n']) = l ∨ withoutLineEnd (l ++ ['\n']) ++ ['\r'] = l := by
  unfold withoutLineEnd
  rw [List.reverse_append, List.reverse_singleton, List.singleton_append]
  split
  · next heq =>
    obtain ⟨_, hl⟩ := List.cons.inj heq
    right
    rw [← List.reverse_cons, ← hl, List.reverse_reverse]
  · next heq =>
    obtain ⟨_, hl⟩ := List.cons.inj heq
    left
    rw [← hl, List.reverse_reverse]
  · next _ hother => exact absurd rfl (hother l.reverse)

theorem mem_of_mem_withoutLineEnd {c : Char} {l : List Char}
    (h : c ∈ withoutLineEnd (l ++ ['\n'])) : c ∈ l := by
  rcases withoutLineEnd_append l with hl | hl
  · rwa [hl] at h
  · rw [← hl]
    exact List.mem_append_left _ h

theorem withoutLineEnd_of_not_mem {l : List Char} (h : '\n' ∉ l) : withoutLineEnd l = l := by
  rw [← List.mem_reverse] at h
  unfold withoutLineEnd
  split
  · next heq => simp [heq] at h
  · next heq => simp [heq] at h
  · rfl

theorem lines_of_not_mem {l : List Char} (hne : l ≠ []) (h : '\n' ∉ l) : lines l = [l] := by
  rw [lines, pieces_of_not_mem hne h, List.map_singleton, withoutLineEnd_of_not_mem h]

theorem lines_append {l : List Char} (h : '\n' ∉ l) (rest : List Char) :
    lines (l ++ '\n' :: rest) = withoutLineEnd (l ++ ['\n']) :: lines rest := by
  rw [lines, pieces_append h, List.map_cons, lines]

/-- No line of a text has a line end in it. -/
theorem not_mem_of_mem_lines {s l : List Char} (h : l ∈ lines s) : '\n' ∉ l := by
  obtain ⟨p, hp, rfl⟩ := List.mem_map.mp h
  obtain ⟨l, hl, rfl | rfl⟩ := exists_of_mem_pieces hp
  · rwa [withoutLineEnd_of_not_mem hl]
  · exact fun hmem => hl (mem_of_mem_withoutLineEnd hmem)

/-! ### Margins -/

theorem trimStart_of_head {s : List Char} (h : ∀ c ∈ s.head?, isBlank c = false) :
    trimStart s = s := by
  cases s with
  | nil => rfl
  | cons c s => simp [trimStart, h c rfl]

@[simp] theorem trimStart_space (s : List Char) : trimStart (' ' :: s) = trimStart s := rfl

theorem trim_append_blank {c : Char} (h : isBlank c = true) (s : List Char) :
    trim (s ++ [c]) = trim s := by
  rw [trim, trim, trimStart, trimStart, List.dropWhile_append]
  split
  · next hempty => simp [List.isEmpty_iff.mp hempty, h]
  · exact List.rdropWhile_concat_pos isBlank (List.dropWhile isBlank s) c h

/-- Trimming cannot tell whether a carriage return before the line end went with it. -/
theorem trim_withoutLineEnd (l : List Char) : trim (withoutLineEnd (l ++ ['\n'])) = trim l := by
  rcases withoutLineEnd_append l with hl | hl
  · rw [hl]
  · rw [← trim_append_blank (c := '\r') (by decide), hl]

/-- Whether the last character of a text is blank. -/
def endsBlank (s : List Char) : Bool := s.getLast?.any isBlank

theorem endsBlank_eq_false_iff {s : List Char} :
    endsBlank s = false ↔ ∀ c ∈ s.getLast?, isBlank c = false := by
  cases h : s.getLast? <;> simp [endsBlank, h]

theorem exists_of_endsBlank {s : List Char} (h : endsBlank s = true) :
    ∃ initial c, s = initial ++ [c] ∧ isBlank c = true := by
  rcases List.eq_nil_or_concat s with rfl | ⟨initial, c, rfl⟩
  · contradiction
  · rw [List.concat_eq_append] at h ⊢
    exact ⟨initial, c, rfl, by simpa [endsBlank] using h⟩

@[simp] theorem endsBlank_concat (s : List Char) (c : Char) : endsBlank (s ++ [c]) = isBlank c := by
  simp [endsBlank]

theorem trimEnd_of_endsBlank {s : List Char} (h : endsBlank s = false) : trimEnd s = s := by
  rw [endsBlank_eq_false_iff, ← List.head?_reverse] at h
  have htrim := trimStart_of_head h
  rw [trimStart] at htrim
  rw [trimEnd, htrim, List.reverse_reverse]

theorem trim_of_ends {s : List Char} (hhead : ∀ c ∈ s.head?, isBlank c = false)
    (hlast : endsBlank s = false) : trim s = s := by
  rw [trim, trimStart_of_head hhead, trimEnd_of_endsBlank hlast]

theorem mem_of_mem_trimStart {c : Char} {s : List Char} (h : c ∈ trimStart s) : c ∈ s :=
  (List.dropWhile_sublist isBlank).subset h

theorem mem_of_mem_trim {c : Char} {s : List Char} (h : c ∈ trim s) : c ∈ s := by
  rw [trim, trimEnd, List.mem_reverse] at h
  have hstart : c ∈ trimStart s :=
    List.mem_reverse.mp ((List.dropWhile_sublist isBlank).subset h)
  exact mem_of_mem_trimStart hstart

end ChartParser.Text
