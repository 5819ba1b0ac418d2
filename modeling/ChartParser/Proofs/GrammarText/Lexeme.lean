import ChartParser.Proofs.Binary64.ReadBack
import ChartParser.Proofs.GrammarText.Syntax
import ChartParser.Proofs.Text.Lines

/-! # Written symbols read back

A label or a word that is not empty and has no line end in it has a written form. The form is the
text of that symbol, since escaping covers every character that would end a lexeme, so a reader at
the front of it takes exactly the symbol. The reader of a word takes line ends as well: it is only a
line that cannot hold them. -/

namespace ChartParser

open Text

/-- A name that a line of grammar text can hold. -/
structure Writable (name : String) : Prop where
  ne_empty : name ≠ ""
  not_mem : '\n' ∉ name.toList

namespace Writable

variable {name : String}

instance : Decidable (Writable name) :=
  decidable_of_iff (name ≠ "" ∧ '\n' ∉ name.toList)
    ⟨fun h => ⟨h.1, h.2⟩, fun h => ⟨h.ne_empty, h.not_mem⟩⟩

theorem toList_ne_nil (h : Writable name) : name.toList ≠ [] :=
  fun hnil => h.ne_empty (String.toList_eq_nil_iff.mp hnil)

end Writable

/-! ### Escaped names -/

namespace Symbol

open GrammarText (EscapedText IsLabelChar IsQuotedChar)

theorem isLabelChar_of_not_special {c : Char} (h : isLabelSpecial c = false) : IsLabelChar c := by
  simp only [isLabelSpecial, Bool.or_eq_false_iff] at h
  refine ⟨h.1, fun hmem => ?_⟩
  have hplain := h.2
  simp only [List.mem_cons, List.not_mem_nil, or_false] at hmem
  rcases hmem with rfl | rfl | rfl | rfl | rfl | rfl <;> exact absurd hplain (by decide)

theorem isQuotedChar_of_not_special {c : Char} (h : isWordSpecial c = false) :
    IsQuotedChar '"' c := by
  simpa [isWordSpecial, IsQuotedChar] using h

/-- Escaping writes every character that may not stand for itself with a backslash. -/
theorem escapedText_escape {allowed : Char → Prop} {special : Char → Bool}
    (h : ∀ c, special c = false → allowed c) (name : List Char) :
    EscapedText allowed (escape special name) name := by
  induction name with
  | nil => exact .nil
  | cons c name ih =>
      cases hc : special c with
      | true =>
          rw [escape_cons_of_special hc]
          exact .escaped ih
      | false =>
          rw [escape_cons_of_plain hc]
          exact .plain (h c hc) ih

/-- Nothing but backslashes is written in addition. -/
theorem not_mem_escape {special : Char → Bool} {name : List Char} (h : '\n' ∉ name) :
    '\n' ∉ escape special name := by
  intro hmem
  obtain ⟨c, hc, hmem⟩ := List.mem_flatMap.mp hmem
  have heq : '\n' = c := by
    split at hmem <;> simpa using hmem
  exact h (heq ▸ hc)

/-- The characters that the text of a label starts with: a backslash, or a character that has no
meaning of its own. -/
def StartsLabel (c : Char) : Prop := c = '\\' ∨ isLabelSpecial c = false

instance : DecidablePred StartsLabel :=
  fun c => inferInstanceAs (Decidable (c = '\\' ∨ isLabelSpecial c = false))

theorem StartsLabel.isBlank_eq_false {c : Char} (h : StartsLabel c) : isBlank c = false := by
  rcases h with rfl | hplain
  · decide
  · exact (Bool.or_eq_false_iff.mp hplain).1

theorem StartsLabel.ne {c d : Char} (h : StartsLabel c) (hd : ¬StartsLabel d) : c ≠ d :=
  fun heq => hd (heq ▸ h)

theorem exists_escape_cons {label : List Char} (h : label ≠ []) :
    ∃ c text, escape isLabelSpecial label = c :: text ∧ StartsLabel c := by
  cases label with
  | nil => exact absurd rfl h
  | cons c label =>
      cases hc : isLabelSpecial c with
      | true => exact ⟨'\\', _, escape_cons_of_special hc label, .inl rfl⟩
      | false => exact ⟨c, _, escape_cons_of_plain hc label, .inr hc⟩

end Symbol

namespace GrammarText

/-- An escaped label is taken character by character, and reading goes on behind it. -/
theorem scanLabel_escape {label : List Char} (h : '\n' ∉ label) (text : List Char) :
    scanLabel (escape Symbol.isLabelSpecial label ++ text) =
      (label ++ (scanLabel text).1, (scanLabel text).2) :=
  (Symbol.escapedText_escape (fun _ => Symbol.isLabelChar_of_not_special) label).scanLabel_append
    (Symbol.not_mem_escape h) text

/-- What may stand behind a label: nothing, or a text that starts with a blank, a quote, a bracket
or a bar. -/
def StopsLabel (rest : List Char) : Prop :=
  ∀ c ∈ rest.head?, isBlank c = true ∨ c ∈ ['"', '\'', '[', ']', '|']

instance : DecidablePred StopsLabel
  | [] => isTrue fun _ hc => nomatch hc
  | c :: _ =>
      decidable_of_iff (isBlank c = true ∨ c ∈ ['"', '\'', '[', ']', '|']) (by simp [StopsLabel])

theorem StopsLabel.of_blank {rest : List Char} (h : ∀ c ∈ rest.head?, isBlank c = true) :
    StopsLabel rest :=
  fun c hc => .inl (h c hc)

/-- There is no more of a label before what stops it. -/
theorem StopsLabel.scanLabel_eq {rest : List Char} (h : StopsLabel rest) :
    scanLabel rest = ([], rest) := by
  cases rest with
  | nil => rfl
  | cons c rest =>
      have hstop : isBlank c = true ∨ c ∈ ['"', '\'', '[', ']', '|'] := h c rfl
      have hc : c ≠ '\\' := by
        rintro rfl
        exact absurd hstop (by decide)
      have hends : endsLabel c = true := by
        rw [endsLabel, Bool.or_eq_true]
        refine hstop.imp_right fun hmem => ?_
        exact List.elem_eq_true_of_mem (List.mem_cons_of_mem _ hmem)
      rw [scanLabel.eq_3 c rest (fun _ _ heq _ => hc heq), if_pos hends]

/-- An escaped word is taken character by character up to the quote behind it, line ends too: no
backslash stands before a line end, since it is not special in a word. -/
theorem scanQuoted_escape (word rest : List Char) :
    scanQuoted '"' (escape Symbol.isWordSpecial word ++ '"' :: rest) = some (word, rest) := by
  induction word with
  | nil => rfl
  | cons c word ih =>
      cases hc : Symbol.isWordSpecial c with
      | true =>
          have hline : c ≠ '\n' := by
            rintro rfl
            exact absurd hc (by decide)
          rw [escape_cons_of_special hc, List.cons_append, List.cons_append, scanQuoted,
            if_neg hline, ih]
          rfl
      | false =>
          obtain ⟨hquote, hbackslash⟩ := Symbol.isQuotedChar_of_not_special hc
          rw [escape_cons_of_plain hc, List.cons_append, scanQuoted_cons hquote hbackslash, ih]
          rfl

/-! ### Symbols and probabilities -/

/-- A symbol is written as one of its texts. -/
theorem symbolText_render {x : Symbol} (hx : Writable x.name) : SymbolText x.render x := by
  cases x with
  | terminal word =>
      have htext : EscapedText (IsQuotedChar '"') (Symbol.renderWord word) word.toList :=
        Symbol.escapedText_escape (fun _ => Symbol.isQuotedChar_of_not_special) word.toList
      have hword : SymbolText _ (.terminal _) := .word (.inl rfl) htext hx.toList_ne_nil
      rwa [String.ofList_toList] at hword
  | nonterminal label =>
      have htext : EscapedText IsLabelChar (Symbol.renderLabel label) label.toList :=
        Symbol.escapedText_escape (fun _ => Symbol.isLabelChar_of_not_special) label.toList
      have hlabel : SymbolText _ (.nonterminal _) := .label htext hx.toList_ne_nil
      rwa [String.ofList_toList] at hlabel

theorem not_mem_render {x : Symbol} (hx : Writable x.name) : '\n' ∉ x.render := by
  cases x with
  | terminal word =>
      have hword : '\n' ∉ Symbol.renderWord word := Symbol.not_mem_escape hx.not_mem
      simpa [Symbol.render] using hword
  | nonterminal label => exact Symbol.not_mem_escape hx.not_mem

/-- A written label is read as it was written, up to what stops it. -/
theorem readLabel_renderLabel {label : String} (hlabel : Writable label) {rest : List Char}
    (hrest : StopsLabel rest) :
    readLabel (Symbol.renderLabel label ++ rest) = .ok (label, rest) := by
  have htext : SymbolText (Symbol.renderLabel label) (.nonterminal label) :=
    symbolText_render (x := .nonterminal label) hlabel
  have hline : '\n' ∉ Symbol.renderLabel label := Symbol.not_mem_escape hlabel.not_mem
  exact readLabel_of_labelText htext hline hrest.scanLabel_eq

/-- A written word is read as it was written, whatever stands behind it. -/
theorem readWord_renderWord {word : String} (hword : word ≠ "") (rest : List Char) :
    readWord ('"' :: (Symbol.renderWord word ++ '"' :: rest)) = .ok (word, rest) := by
  have hname : word.toList ≠ [] := mt String.toList_eq_nil_iff.mp hword
  have hscan := scanQuoted_escape word.toList rest
  exact readWord_eq_ok_iff.mpr ⟨'"', _, _, .inl rfl, rfl, hscan, hname, String.ofList_toList⟩

/-- A written symbol is read as it was written, up to a blank. -/
theorem readLexeme_render {x : Symbol} (hx : Writable x.name) {rest : List Char}
    (hrest : ∀ c ∈ rest.head?, isBlank c = true) :
    readLexeme (x.render ++ rest) = .ok (lexemeOf x, rest) := by
  have htext := symbolText_render hx
  have hline := not_mem_render hx
  cases x with
  | terminal word => exact readLexeme_of_wordText htext hline rest
  | nonterminal label =>
      exact readLexeme_of_labelText htext hline (StopsLabel.of_blank hrest).scanLabel_eq

/-- A positive number is written as one of its texts. -/
theorem numberText_render {x : Binary64} (hx : x.IsPositive) : NumberText x.render x := by
  have hend : Numeral.Stops [] := by simp [Numeral.Stops]
  obtain ⟨n, hscan, rfl⟩ := hx.scan_render hend
  obtain ⟨text, heq, htext⟩ := Numeral.exists_of_scan hscan
  rw [List.append_nil, List.append_nil] at heq
  exact heq ▸ .unsigned htext

theorem probabilityText_render {x : Binary64} (hx : x.IsPositive) :
    ProbabilityText ('[' :: (x.render ++ [']'])) x := by
  have hblank : AllBlank [] := by simp [AllBlank]
  exact .mk hblank (numberText_render hx) hblank

end GrammarText

end ChartParser
