import ChartParser.Proofs.GrammarText.Document

/-! # Grammar texts in parts

Two texts, one below the other, say what the first says and then what the second says. No line of
the second is read in the light of the first, only the numbers of its lines are higher. -/

namespace ChartParser.GrammarText

open Text

variable {n k : Nat}

/-! ### Faults -/

/-- A fault as it is met where `k` more lines stand before it. -/
def Fault.below (k : Nat) (fault : Fault) : Fault := { fault with line := fault.line + k }

theorem toDigits_append_inj {k l : Nat} {s t : List Char}
    (h : Nat.toDigits 10 k ++ ':' :: s = Nat.toDigits 10 l ++ ':' :: t) : k = l ∧ s = t := by
  have hdigits : ∀ (n : Nat) (u : List Char),
      (Nat.toDigits 10 n ++ ':' :: u).takeWhile Char.isDigit = Nat.toDigits 10 n := fun n u =>
    takeWhile_append_of_head (fun _ => Binary64.isDigit_of_mem_toDigits) (by simp)
  have hnumber : Nat.toDigits 10 k = Nat.toDigits 10 l := by
    rw [← hdigits k s, h, hdigits l t]
  refine ⟨?_, ?_⟩
  · rw [← Nat.ofDigitChars_toDigits (by decide : 1 < 10) (by decide) (n := k), hnumber,
      Nat.ofDigitChars_toDigits (by decide) (by decide)]
  · rw [hnumber] at h
    exact (List.cons.inj (List.append_cancel_left h)).2

/-- The number of the line can be told from the rest of a message. -/
theorem Fault.message_eq_iff {fault : Fault} {text : String} :
    fault.message = "line " ++ k.repr ++ ": " ++ text ↔
      fault.line = k ∧ fault.cause.message = text := by
  constructor
  · intro h
    rw [message, ← String.toList_inj] at h
    simp only [String.toList_append, Nat.toList_repr, List.append_assoc] at h
    obtain ⟨hline, htext⟩ := toDigits_append_inj (List.append_cancel_left h)
    exact ⟨hline, String.toList_inj.mp (List.cons.inj htext).2⟩
  · rintro ⟨rfl, rfl⟩
    rfl

/-! ### Drafts -/

theorem Draft.empty_append (draft : Draft) : (⟨[], none⟩ : Draft) ++ draft = draft := by
  change (⟨[] ++ draft.rules, draft.start.or none⟩ : Draft) = draft
  rw [List.nil_append, Option.or_none]

theorem Draft.append_assoc (a b c : Draft) : a ++ b ++ c = a ++ (b ++ c) := by
  change (⟨a.rules ++ b.rules ++ c.rules, c.start.or (b.start.or a.start)⟩ : Draft) =
    ⟨a.rules ++ (b.rules ++ c.rules), (c.start.or b.start).or a.start⟩
  rw [List.append_assoc, Option.or_assoc]

/-! ### Lines -/

theorem readLines_add (n k : Nat) (ls : List (List Char)) :
    readLines (n + k) ls = (readLines n ls).mapError (Fault.below k) := by
  induction ls generalizing n with
  | nil => rfl
  | cons l ls ih =>
      rw [readLines, readLines]
      cases readLine l with
      | error cause => rfl
      | ok first =>
          simp only
          rw [Nat.add_right_comm, ih]
          cases readLines (n + 1) ls <;> rfl

/-- What the lines of two texts say together. The second part is not read if the first is
malformed. -/
theorem readLines_append (n : Nat) (ls ms : List (List Char)) :
    readLines n (ls ++ ms) =
      (readLines n ls).bind fun first => (readLines (n + ls.length) ms).map (first ++ ·) := by
  induction ls generalizing n with
  | nil =>
      change _ = (readLines n ms).map ((⟨[], none⟩ : Draft) ++ ·)
      simp only [Draft.empty_append, List.nil_append]
      cases readLines n ms <;> rfl
  | cons l ls ih =>
      have hnumber : n + (l :: ls).length = n + 1 + ls.length := by
        rw [List.length_cons]
        omega
      rw [List.cons_append, readLines, readLines, hnumber]
      cases readLine l with
      | error cause => rfl
      | ok first =>
          simp only
          rw [ih]
          cases readLines (n + 1) ls with
          | error fault => rfl
          | ok second =>
              change ((readLines _ ms).map (second ++ ·)).map (first ++ ·) =
                (readLines _ ms).map (first ++ second ++ ·)
              simp only [Draft.append_assoc]
              cases readLines (n + 1 + ls.length) ms <;> rfl

theorem lines_append_lineEnd (s t : List Char) :
    lines (s ++ '\n' :: t) = lines (s ++ ['\n']) ++ lines t := by
  rw [lines, pieces_append_lineEnd, List.map_append, lines, lines]

theorem length_lines_append_lineEnd (s : List Char) :
    (lines (s ++ ['\n'])).length = s.count '\n' + 1 := by
  obtain ⟨ls, hlines⟩ := exists_lined '\n' s
  induction hlines with
  | nil => rfl
  | last _ hmem =>
      rw [lines_append hmem, List.length_cons, List.count_eq_zero_of_not_mem hmem]
      rfl
  | cons hmem _ ih =>
      rw [List.append_assoc, List.cons_append, lines_append hmem, List.length_cons, ih]
      simp [List.count_eq_zero_of_not_mem hmem]

/-- A line end behind a text says nothing. -/
theorem readLines_append_lineEnd (n : Nat) (s : List Char) :
    readLines n (lines (s ++ ['\n'])) = readLines n (lines s) := by
  have hline : ∀ l, readLine (withoutLineEnd (l ++ ['\n'])) = readLine l := fun l =>
    readLine_congr (trim_withoutLineEnd l)
  obtain ⟨ls, hlines⟩ := exists_lined '\n' s
  induction hlines generalizing n with
  | nil => rfl
  | last hne hmem =>
      rw [lines_append hmem, lines_of_not_mem hne hmem, readLines, readLines, hline]
      rfl
  | cons hmem _ ih =>
      rw [List.append_assoc, List.cons_append, lines_append hmem, lines_append hmem, readLines,
        readLines, ih]

/-- What two texts say, one below the other. -/
theorem read_append (a b : List Char) :
    read (a ++ '\n' :: b) =
      (read a).bind fun first =>
        ((read b).mapError (Fault.below (a.count '\n' + 1))).map (first ++ ·) := by
  rw [read, lines_append_lineEnd, readLines_append, readLines_append_lineEnd,
    length_lines_append_lineEnd, readLines_add]
  rfl

/-! ### Two texts -/

/-- Of two texts, one below the other, the whole is well formed if both parts are. Then it says the
rules of both, and names the start symbol that the second names, or else that of the first. A
malformed first part is refused with its own message, and so is a malformed second part, but for the
number of the line, which counts the lines of the first part too. -/
theorem read_append_spec (a b : List Char) :
    ((∃ draft, read (a ++ '\n' :: b) = .ok draft) ↔
        (∃ first, read a = .ok first) ∧ ∃ second, read b = .ok second) ∧
      (∀ first second, read a = .ok first → read b = .ok second →
        ∃ draft, read (a ++ '\n' :: b) = .ok draft ∧
          draft.rules = first.rules ++ second.rules ∧
          draft.start = if second.start.isSome then second.start else first.start) ∧
      (∀ fault, read a = .error fault →
        ∃ whole, read (a ++ '\n' :: b) = .error whole ∧ whole.message = fault.message) ∧
      ∀ first fault (k : Nat) (text : String), read a = .ok first → read b = .error fault →
        fault.message = "line " ++ k.repr ++ ": " ++ text →
        ∃ whole, read (a ++ '\n' :: b) = .error whole ∧
          whole.message = "line " ++ (k + 1 + a.count '\n').repr ++ ": " ++ text := by
  rw [read_append]
  refine ⟨?_, ?_, ?_, ?_⟩
  · cases ha : read a with
    | error fault => simp [Except.bind]
    | ok first => cases hb : read b <;> simp [Except.bind, Except.map, Except.mapError]
  · intro first second ha hb
    rw [ha, hb]
    refine ⟨first ++ second, rfl, rfl, ?_⟩
    change second.start.or first.start = _
    cases second.start <;> rfl
  · intro fault ha
    rw [ha]
    exact ⟨fault, rfl, rfl⟩
  · intro first fault k text ha hb hmessage
    obtain ⟨rfl, rfl⟩ := Fault.message_eq_iff.mp hmessage
    have hline : fault.line + (a.count '\n' + 1) = fault.line + 1 + a.count '\n' := by omega
    rw [ha, hb]
    refine ⟨fault.below (a.count '\n' + 1), rfl, ?_⟩
    exact Fault.message_eq_iff.mpr ⟨hline, rfl⟩

/-- A text of two lines above one with another start symbol, and above one whose second line is
malformed. -/
theorem read_append_spec_twoLines :
    let a := "%start A\nA -> \"x\"\r".toList
    let b := "%start B\n".toList
    let c := "# c\nB".toList
    (∃ draft, read (a ++ '\n' :: b) = .ok draft ∧
        draft.rules = [⟨⟨"A", [.terminal "x"]⟩, .one⟩] ∧ draft.start = some "B") ∧
      ∃ whole, read (a ++ '\n' :: c) = .error whole ∧
        whole.message = "line 4: rule arrow: missing ->" := by
  intro a b c
  have ha : read a = .ok ⟨[⟨⟨"A", [.terminal "x"]⟩, .one⟩], some "A"⟩ := by decide +kernel
  have hb : read b = .ok ⟨[], some "B"⟩ := by decide +kernel
  have hc : read c = .error ⟨2, .arrowMissing⟩ := by decide +kernel
  obtain ⟨-, hboth, -, -⟩ := read_append_spec a b
  obtain ⟨-, -, -, hsecond⟩ := read_append_spec a c
  obtain ⟨whole, hwhole, hmessage⟩ :=
    hsecond _ _ 2 "rule arrow: missing ->" ha hc (by decide)
  exact ⟨hboth _ _ ha hb, whole, hwhole, hmessage.trans (by decide)⟩

end ChartParser.GrammarText
