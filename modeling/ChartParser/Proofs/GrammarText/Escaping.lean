import ChartParser.Proofs.GrammarText.Acceptance

/-! # Escaped lexemes

Escaped labels and words are read back whole, whatever may stand behind them. In a line a label is
not taken for anything else: no arrow stands in it, and it starts like nothing but a label. -/

namespace ChartParser.GrammarText

open Text

/-- No arrow stands in an escaped label. If one did, a line would be cut there and not behind the
label. -/
theorem not_infix_renderLabel (label : String) : ¬['-', '>'] <:+: Symbol.renderLabel label := by
  rintro ⟨before, after, heq⟩
  have hcut := firstArrow_of_splitArrow (splitArrow_escape label.toList [])
  have hline : escape Symbol.isLabelSpecial label.toList ++ [' ', '-', '>'] =
      before ++ '-' :: '>' :: (after ++ [' ', '-', '>']) := by
    rw [← Symbol.renderLabel, ← heq]
    simp
  have hlength : (Symbol.renderLabel label).length = before.length + 2 + after.length := by
    rw [← heq, List.length_append, List.length_append]
    rfl
  have hle := hcut.first before _ hline
  rw [List.length_append, ← Symbol.renderLabel, hlength] at hle
  omega

/-- An escaped label starts like no comment, directive, word or probability. -/
theorem exists_renderLabel_cons {label : String} (h : Writable label) :
    ∃ c text, Symbol.renderLabel label = c :: text ∧ isBlank c = false ∧
      c ∉ ['#', '%', '"', '\'', '[', ']'] := by
  obtain ⟨c, text, htext, hc⟩ := Symbol.exists_escape_cons h.toList_ne_nil
  refine ⟨c, text, htext, hc.isBlank_eq_false, fun hmem => ?_⟩
  simp only [List.mem_cons, List.not_mem_nil, or_false] at hmem
  rcases hmem with rfl | rfl | rfl | rfl | rfl | rfl <;> exact absurd hc (by decide)

/-- An escaped label is read back whole before the end of a text, a blank, a quote, a bracket or a
bar; no arrow stands in it, and it starts with no character that begins something else. An escaped
word in double quotes is read back whole before any text, and line ends may stand in it. -/
theorem read_render_spec (rest : List Char) :
    (∀ label : String, Writable label →
      (StopsLabel rest → readLabel (Symbol.renderLabel label ++ rest) = .ok (label, rest)) ∧
        ¬['-', '>'] <:+: Symbol.renderLabel label ∧
        ∃ c text, Symbol.renderLabel label = c :: text ∧ isBlank c = false ∧
          c ∉ ['#', '%', '"', '\'', '[', ']']) ∧
      ∀ word : String, word ≠ "" →
        readWord ('"' :: (Symbol.renderWord word ++ '"' :: rest)) = .ok (word, rest) := by
  constructor
  · intro label hlabel
    exact ⟨readLabel_renderLabel hlabel, not_infix_renderLabel label,
      exists_renderLabel_cons hlabel⟩
  · intro word hword
    exact readWord_renderWord hword rest

/-- A label out of the characters that end or begin something else, a word with a line end, and
behind both of them a bar and a quote that is never closed. -/
theorem read_render_spec_oddLexemes :
    Writable "#->\\ '|" ∧ StopsLabel "|\"".toList ∧ "\"\n\\" ≠ "" ∧
      readLabel ("\\#-\\>\\\\\\ \\'\\|".toList ++ "|\"".toList) =
        .ok ("#->\\ '|", "|\"".toList) ∧
      ¬['-', '>'] <:+: "\\#-\\>\\\\\\ \\'\\|".toList ∧
      readWord ('"' :: ("\\\"\n\\\\".toList ++ '"' :: "|\"".toList)) =
        .ok ("\"\n\\", "|\"".toList) := by
  have hlabel : Writable "#->\\ '|" := by decide
  have hrest : StopsLabel "|\"".toList := by decide
  have hword : "\"\n\\" ≠ "" := by decide
  have hlabelText : Symbol.renderLabel "#->\\ '|" = "\\#-\\>\\\\\\ \\'\\|".toList := by decide
  have hwordText : Symbol.renderWord "\"\n\\" = "\\\"\n\\\\".toList := by decide
  obtain ⟨hlabels, hwords⟩ := read_render_spec "|\"".toList
  obtain ⟨hread, harrow, -⟩ := hlabels _ hlabel
  have hwordRead := hwords _ hword
  rw [hlabelText] at hread harrow
  rw [hwordText] at hwordRead
  exact ⟨hlabel, hrest, hword, hread hrest, harrow, hwordRead⟩

end ChartParser.GrammarText
