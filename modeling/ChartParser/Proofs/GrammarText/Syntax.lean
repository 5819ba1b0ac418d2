import ChartParser.GrammarText.Lexeme
import ChartParser.Proofs.Binary64.Numeral
import ChartParser.Rule

/-! # The syntax of rule lines

The texts of labels, words and probabilities are described apart from the readers. A reader takes
such a text off the front of a line, and of all the texts of symbols that stand there it takes the
longest. -/

namespace ChartParser.GrammarText

open Text

/-! ### Texts -/

/-- A text of allowed characters, and of any characters behind a backslash, together with the
characters that it stands for. -/
inductive EscapedText (allowed : Char → Prop) : List Char → List Char → Prop where
  | nil : EscapedText allowed [] []
  | plain {c : Char} {text name : List Char} (hc : allowed c)
      (htext : EscapedText allowed text name) : EscapedText allowed (c :: text) (c :: name)
  | escaped {c : Char} {text name : List Char} (htext : EscapedText allowed text name) :
      EscapedText allowed ('\\' :: c :: text) (c :: name)

/-- What stands in a bare label: no blanks, backslashes, quotes, brackets and bars. -/
def IsLabelChar (c : Char) : Prop :=
  isBlank c = false ∧ c ∉ ['\\', '"', '\'', '[', ']', '|']

/-- What stands between two quotes: neither the quote nor a backslash. -/
def IsQuotedChar (quote c : Char) : Prop := c ≠ quote ∧ c ≠ '\\'

/-- The text of a symbol: a bare label, or a word in double or in single quotes. -/
inductive SymbolText : List Char → Symbol → Prop where
  | label {text name : List Char} (htext : EscapedText IsLabelChar text name) (hne : name ≠ []) :
      SymbolText text (.nonterminal (String.ofList name))
  | word {quote : Char} {text name : List Char} (hquote : quote = '"' ∨ quote = '\'')
      (htext : EscapedText (IsQuotedChar quote) text name) (hne : name ≠ []) :
      SymbolText (quote :: (text ++ [quote])) (.terminal (String.ofList name))

/-- No symbol goes on behind a text. -/
def Longest (text rest : List Char) : Prop :=
  ∀ more rest' x, rest = more ++ rest' → SymbolText (text ++ more) x → more = []

def AllBlank (s : List Char) : Prop := ∀ c ∈ s, isBlank c = true

/-- The text of a number, before which a plus sign may stand. -/
inductive NumberText : List Char → Binary64 → Prop where
  | unsigned {text : List Char} {n : Numeral} (htext : Numeral.NumeralText text n) :
      NumberText text n.toBinary64
  | plus {text : List Char} {n : Numeral} (htext : Numeral.NumeralText text n) :
      NumberText ('+' :: text) n.toBinary64

/-- The text of a probability: a number in brackets, with blanks around it. -/
inductive ProbabilityText : List Char → Binary64 → Prop where
  | mk {front text back : List Char} {prob : Binary64} (hfront : AllBlank front)
      (htext : NumberText text prob) (hback : AllBlank back) :
      ProbabilityText ('[' :: (front ++ (text ++ (back ++ [']'])))) prob

/-! ### Escaped texts -/

section

variable {allowed : Char → Prop} {s t text name after rest : List Char} {quote : Char}

theorem EscapedText.append {a b : List Char} (hs : EscapedText allowed s a)
    (ht : EscapedText allowed t b) : EscapedText allowed (s ++ t) (a ++ b) := by
  induction hs with
  | nil => exact ht
  | plain hc _ ih => exact .plain hc ih
  | escaped _ ih => exact .escaped ih

/-- A text that stands for something starts with an allowed character or with a backslash. -/
theorem EscapedText.head (h : EscapedText allowed text name) (hne : name ≠ []) :
    ∃ c rest, text = c :: rest ∧ (allowed c ∨ c = '\\') := by
  cases h with
  | nil => contradiction
  | plain hc _ => exact ⟨_, _, rfl, .inl hc⟩
  | escaped _ => exact ⟨'\\', _, rfl, .inr rfl⟩

theorem isLabelChar_iff {c : Char} : IsLabelChar c ↔ endsLabel c = false := by
  simp [IsLabelChar, endsLabel]

theorem scanLabel_cons {c : Char} (h : endsLabel c = false) (text : List Char) :
    scanLabel (c :: text) = (c :: (scanLabel text).1, (scanLabel text).2) := by
  have hc : c ≠ '\\' := by
    rintro rfl
    exact absurd h (by decide)
  rw [scanLabel.eq_3 c text (fun _ _ heq _ => hc heq), if_neg (by simp [h])]

theorem scanLabel_escaped {c : Char} (h : c ≠ '\n') (text : List Char) :
    scanLabel ('\\' :: c :: text) = (c :: (scanLabel text).1, (scanLabel text).2) := by
  rw [scanLabel, if_neg h]

/-- What is read of a label is an escaped text. -/
theorem exists_of_scanLabel (s : List Char) :
    ∃ text, s = text ++ (scanLabel s).2 ∧ EscapedText IsLabelChar text (scanLabel s).1 := by
  fun_induction scanLabel s with
  | case1 => exact ⟨[], rfl, .nil⟩
  | case2 rest => exact ⟨[], rfl, .nil⟩
  | case3 c rest _ label after hscan ih =>
      obtain ⟨text, hs, htext⟩ := ih
      rw [hscan] at hs htext
      refine ⟨'\\' :: c :: text, ?_, .escaped htext⟩
      rw [hs]
      rfl
  | case4 c rest _ _ => exact ⟨[], rfl, .nil⟩
  | case5 c rest _ hends label after hscan ih =>
      obtain ⟨text, hs, htext⟩ := ih
      rw [hscan] at hs htext
      have hc : IsLabelChar c := isLabelChar_iff.mpr (by simpa using hends)
      refine ⟨c :: text, ?_, .plain hc htext⟩
      rw [hs]
      rfl

/-- An escaped text is read as a whole, and reading goes on behind it. -/
theorem EscapedText.scanLabel_append (h : EscapedText IsLabelChar text name) (hline : '\n' ∉ text)
    (rest : List Char) :
    scanLabel (text ++ rest) = (name ++ (scanLabel rest).1, (scanLabel rest).2) := by
  induction h with
  | nil => rfl
  | plain hc _ ih =>
      rw [List.cons_append, scanLabel_cons (isLabelChar_iff.mp hc),
        ih (List.not_mem_of_not_mem_cons hline)]
      rfl
  | escaped _ ih =>
      obtain ⟨hc, hline⟩ :=
        List.ne_and_not_mem_of_not_mem_cons (List.not_mem_of_not_mem_cons hline)
      rw [List.cons_append, List.cons_append, scanLabel_escaped (Ne.symm hc), ih hline]
      rfl

theorem scanQuoted_cons {quote c : Char} (hquote : c ≠ quote) (hc : c ≠ '\\')
    (text : List Char) :
    scanQuoted quote (c :: text) =
      (scanQuoted quote text).map fun (word, after) => (c :: word, after) := by
  rw [scanQuoted.eq_3 quote c text (fun _ _ heq _ => hc heq), if_neg hquote, if_neg hc]

/-- What is read up to the closing quote is an escaped text. -/
theorem exists_of_scanQuoted (h : scanQuoted quote s = some (name, after)) :
    ∃ text, s = text ++ quote :: after ∧ EscapedText (IsQuotedChar quote) text name := by
  fun_induction scanQuoted quote s generalizing name with
  | case1 => contradiction
  | case2 => contradiction
  | case3 c rest _ ih =>
      obtain ⟨p, hp, heq⟩ := Option.map_eq_some_iff.mp h
      cases heq
      obtain ⟨text, rfl, htext⟩ := ih hp
      exact ⟨'\\' :: c :: text, rfl, .escaped htext⟩
  | case4 =>
      cases h
      exact ⟨[], rfl, .nil⟩
  | case5 => contradiction
  | case6 c rest _ hquote hc ih =>
      obtain ⟨p, hp, heq⟩ := Option.map_eq_some_iff.mp h
      cases heq
      obtain ⟨text, rfl, htext⟩ := ih hp
      exact ⟨c :: text, rfl, .plain ⟨hquote, hc⟩ htext⟩

/-- An escaped text is read as a whole, up to the quote behind it. -/
theorem EscapedText.scanQuoted_append (h : EscapedText (IsQuotedChar quote) text name)
    (hquote : quote ≠ '\\') (hline : '\n' ∉ text) (after : List Char) :
    scanQuoted quote (text ++ quote :: after) = some (name, after) := by
  induction h with
  | nil =>
      rw [List.nil_append, scanQuoted.eq_3 quote quote after (fun _ _ heq _ => hquote heq),
        if_pos rfl]
  | plain hc _ ih =>
      rw [List.cons_append, scanQuoted_cons hc.1 hc.2, ih (List.not_mem_of_not_mem_cons hline)]
      rfl
  | escaped _ ih =>
      obtain ⟨hc, hline⟩ :=
        List.ne_and_not_mem_of_not_mem_cons (List.not_mem_of_not_mem_cons hline)
      rw [List.cons_append, List.cons_append, scanQuoted, if_neg (Ne.symm hc), ih hline]
      rfl

end

/-! ### Symbols -/

section

variable {s text rest after : List Char} {label word : String} {x : Symbol}

theorem readLabel_eq_ok_iff : readLabel s = .ok (label, after) ↔
    ∃ name, name ≠ [] ∧ scanLabel s = (name, after) ∧ String.ofList name = label := by
  unfold readLabel
  split
  · next hscan => simp +contextual [hscan]
  · next name after' hne hscan =>
    have hname : name ≠ [] := fun hnil => hne hnil
    constructor
    · intro h
      obtain ⟨rfl, rfl⟩ := Prod.mk.inj (Except.ok.inj h)
      exact ⟨name, hname, hscan, rfl⟩
    · rintro ⟨name', _, hscan', rfl⟩
      obtain ⟨rfl, rfl⟩ := Prod.mk.inj (hscan.symm.trans hscan')
      rfl

theorem readWord_eq_ok_iff : readWord s = .ok (word, after) ↔
    ∃ quote rest name, (quote = '"' ∨ quote = '\'') ∧ s = quote :: rest ∧
      scanQuoted quote rest = some (name, after) ∧ name ≠ [] ∧ String.ofList name = word := by
  unfold readWord
  simp only
  constructor
  · intro h
    split at h
    · contradiction
    · contradiction
    · next name after' hne hscan =>
      obtain ⟨rfl, rfl⟩ := Prod.mk.inj (Except.ok.inj h)
      have hname : name ≠ [] := fun hnil => hne hnil
      split at hscan
      · exact ⟨'"', _, name, .inl rfl, rfl, hscan, hname, rfl⟩
      · exact ⟨'\'', _, name, .inr rfl, rfl, hscan, hname, rfl⟩
      · contradiction
  · rintro ⟨quote, rest, name, hquote, rfl, hscan, hne, rfl⟩
    rcases hquote with rfl | rfl
    · simp only [hscan]
    · simp only [hscan]

theorem symbolText_label_iff : SymbolText s (.nonterminal label) ↔
    ∃ name, EscapedText IsLabelChar s name ∧ name ≠ [] ∧ String.ofList name = label := by
  constructor
  · intro h
    cases h with
    | label htext hne => exact ⟨_, htext, hne, rfl⟩
  · rintro ⟨name, htext, hne, rfl⟩
    exact .label htext hne

theorem symbolText_word_iff : SymbolText s (.terminal word) ↔
    ∃ quote text name, (quote = '"' ∨ quote = '\'') ∧ s = quote :: (text ++ [quote]) ∧
      EscapedText (IsQuotedChar quote) text name ∧ name ≠ [] ∧ String.ofList name = word := by
  constructor
  · intro h
    cases h with
    | word hquote htext hne => exact ⟨_, _, _, hquote, rfl, htext, hne, rfl⟩
  · rintro ⟨quote, text, name, hquote, rfl, htext, hne, rfl⟩
    exact .word hquote htext hne

/-- A label starts with a character that stands in it or with a backslash. -/
theorem SymbolText.head_label (h : SymbolText text (.nonterminal label)) :
    ∃ c rest, text = c :: rest ∧ (IsLabelChar c ∨ c = '\\') := by
  obtain ⟨name, htext, hne, _⟩ := symbolText_label_iff.mp h
  exact htext.head hne

/-- A symbol starts with a character that ends no alternative. -/
theorem SymbolText.head {x : Symbol} (h : SymbolText text x) :
    ∃ c rest, text = c :: rest ∧ isBlank c = false ∧ c ≠ '|' := by
  cases x with
  | terminal word =>
      obtain ⟨quote, content, name, hquote, rfl, _⟩ := symbolText_word_iff.mp h
      rcases hquote with rfl | rfl
      · exact ⟨'"', _, rfl, by decide, by decide⟩
      · exact ⟨'\'', _, rfl, by decide, by decide⟩
  | nonterminal label =>
      obtain ⟨c, rest, rfl, hc | rfl⟩ := h.head_label
      · refine ⟨c, rest, rfl, hc.1, ?_⟩
        rintro rfl
        exact absurd hc.2 (by decide)
      · exact ⟨'\\', rest, rfl, by decide, by decide⟩

theorem not_mem_of_labelChar {c : Char} (h : IsLabelChar c ∨ c = '\\') : c ∉ ['[', '"', '\''] := by
  rcases h with h | rfl
  · have hmem := h.2
    simp only [List.mem_cons, List.not_mem_nil, not_or] at hmem ⊢
    exact ⟨hmem.2.2.2.1, hmem.2.1, hmem.2.2.1, id⟩
  · decide

theorem quote_ne_backslash {quote : Char} (h : quote = '"' ∨ quote = '\'') : quote ≠ '\\' := by
  rcases h with rfl | rfl
  · decide
  · decide

/-- No text of a label begins like the text of a word. -/
theorem SymbolText.not_word (h : SymbolText text (.nonterminal label)) (more : List Char) :
    ¬SymbolText (text ++ more) (.terminal word) := by
  intro hword
  obtain ⟨c, rest, rfl, hc⟩ := h.head_label
  obtain ⟨quote, content, name, hquote, heq, _⟩ := symbolText_word_iff.mp hword
  obtain ⟨rfl, _⟩ := List.cons.inj heq
  exact not_mem_of_labelChar hc (List.mem_cons_of_mem _ (by simpa using hquote))

/-- The lexeme that a symbol is written as. -/
def lexemeOf : Symbol → Lexeme
  | .terminal word => .word word
  | .nonterminal label => .label label

/-- Where neither a bracket nor a quote stands, a label is read. -/
theorem readLexeme_of_not_mem {c : Char} (h : c ∉ ['[', '"', '\'']) (text : List Char) :
    readLexeme (c :: text) =
      (readLabel (c :: text)).map fun (label, after) => (.label label, after) := by
  simp only [List.mem_cons, List.not_mem_nil, or_false, not_or] at h
  obtain ⟨hbracket, hdouble, hsingle⟩ := h
  unfold readLexeme
  split
  · next heq => exact absurd (List.cons.inj heq).1 hbracket
  · next heq => exact absurd (List.cons.inj heq).1 hdouble
  · next heq => exact absurd (List.cons.inj heq).1 hsingle
  · rfl

/-- What is read of a label is the longest text of a label. -/
theorem exists_text_of_readLabel (hline : '\n' ∉ s) (h : readLabel s = .ok (label, after)) :
    ∃ text, s = text ++ after ∧ SymbolText text (.nonterminal label) ∧ Longest text after := by
  obtain ⟨name, hne, hscan, rfl⟩ := readLabel_eq_ok_iff.mp h
  obtain ⟨text, hs, htext⟩ := exists_of_scanLabel s
  rw [hscan] at hs htext
  have hsymbol : SymbolText text (.nonterminal (String.ofList name)) := .label htext hne
  refine ⟨text, hs, hsymbol, fun more rest' x hafter hx => ?_⟩
  cases x with
  | terminal word => exact absurd hx (hsymbol.not_word more)
  | nonterminal label =>
      obtain ⟨name', hmore, _⟩ := symbolText_label_iff.mp hx
      have hlonger := hmore.scanLabel_append (by simp_all) rest'
      rw [List.append_assoc, ← hafter, ← hs, hscan] at hlonger
      have hlength := length_scanLabel rest'
      rw [← (Prod.mk.inj hlonger).2, hafter, List.length_append] at hlength
      exact List.length_eq_zero_iff.mp (by omega)

/-- What is read of a word is the only text of a word. -/
theorem exists_text_of_readWord (hline : '\n' ∉ s) (h : readWord s = .ok (word, after)) :
    ∃ text, s = text ++ after ∧ SymbolText text (.terminal word) ∧ Longest text after := by
  obtain ⟨quote, rest, name, hquote, rfl, hscan, hne, rfl⟩ := readWord_eq_ok_iff.mp h
  obtain ⟨text, rfl, htext⟩ := exists_of_scanQuoted hscan
  refine ⟨quote :: (text ++ [quote]), by simp, .word hquote htext hne, ?_⟩
  intro more rest' x hafter hx
  cases x with
  | nonterminal label =>
      obtain ⟨c, rest, heq, hc⟩ := hx.head_label
      obtain ⟨rfl, _⟩ := List.cons.inj heq
      exact absurd (List.mem_cons_of_mem _ (by simpa using hquote)) (not_mem_of_labelChar hc)
  | terminal word =>
      obtain ⟨quote', text', name', _, heq, htext', _⟩ := symbolText_word_iff.mp hx
      obtain ⟨rfl, heq⟩ := List.cons.inj heq
      have hsame : text' ++ quote :: rest' = text ++ quote :: after := by
        have htail := congrArg (· ++ rest') heq
        simpa [hafter] using htail.symm
      have htext'Line : '\n' ∉ text' := by
        intro hmem
        have hmem' : '\n' ∈ text ++ quote :: after := hsame ▸ List.mem_append_left _ hmem
        exact hline (List.mem_cons_of_mem _ hmem')
      have hagain := htext'.scanQuoted_append (quote_ne_backslash hquote) htext'Line rest'
      rw [hsame, hscan] at hagain
      have hrest : after = rest' := (Prod.mk.inj (Option.some.inj hagain)).2
      rw [hafter] at hrest
      exact List.append_left_eq_self.mp hrest

/-- Behind a label that is as long as it can be no label is read. -/
theorem Longest.scanLabel_eq (h : Longest text rest)
    (htext : SymbolText text (.nonterminal label)) : scanLabel rest = ([], rest) := by
  obtain ⟨name, hname, hne, _⟩ := symbolText_label_iff.mp htext
  obtain ⟨more, hrest, hmore⟩ := exists_of_scanLabel rest
  have hlonger : SymbolText (text ++ more) (.nonterminal _) :=
    .label (hname.append hmore) (by simp [hne])
  obtain rfl := h more _ _ hrest hlonger
  have hnil : (scanLabel rest).1 = [] := by
    generalize (scanLabel rest).1 = name at hmore
    cases hmore
    rfl
  exact Prod.ext hnil hrest.symm

/-- A label is read as a whole, if none goes on behind it. -/
theorem readLabel_of_labelText (htext : SymbolText text (.nonterminal label))
    (hline : '\n' ∉ text) (hrest : scanLabel rest = ([], rest)) :
    readLabel (text ++ rest) = .ok (label, rest) := by
  obtain ⟨name, hname, hne, rfl⟩ := symbolText_label_iff.mp htext
  have hscan : scanLabel (text ++ rest) = (name, rest) := by
    rw [hname.scanLabel_append hline, hrest, List.append_nil]
  exact readLabel_eq_ok_iff.mpr ⟨name, hne, hscan, rfl⟩

theorem readLexeme_of_labelText (htext : SymbolText text (.nonterminal label))
    (hline : '\n' ∉ text) (hrest : scanLabel rest = ([], rest)) :
    readLexeme (text ++ rest) = .ok (.label label, rest) := by
  have hread := readLabel_of_labelText htext hline hrest
  obtain ⟨c, text, rfl, hc⟩ := htext.head_label
  rw [List.cons_append] at hread ⊢
  rw [readLexeme_of_not_mem (not_mem_of_labelChar hc), hread]
  rfl

/-- A word is read as a whole, whatever stands behind it. -/
theorem readLexeme_of_wordText (htext : SymbolText text (.terminal word)) (hline : '\n' ∉ text)
    (rest : List Char) : readLexeme (text ++ rest) = .ok (.word word, rest) := by
  obtain ⟨quote, content, name, hquote, rfl, hcontent, hne, rfl⟩ := symbolText_word_iff.mp htext
  have hcontentLine : '\n' ∉ content := by simp_all
  have hscan := hcontent.scanQuoted_append (quote_ne_backslash hquote) hcontentLine rest
  have hread : readWord (quote :: (content ++ quote :: rest)) = .ok (String.ofList name, rest) :=
    readWord_eq_ok_iff.mpr ⟨quote, _, name, hquote, rfl, hscan, hne, rfl⟩
  rw [List.cons_append, List.append_assoc, List.singleton_append]
  rcases hquote with rfl | rfl
  · rw [readLexeme, hread]
    rfl
  · rw [readLexeme, hread]
    rfl

end

/-! ### Probabilities -/

section

variable {s front text rest after : List Char} {prob : Binary64}

theorem exists_blanks (s : List Char) : ∃ front, s = front ++ trimStart s ∧ AllBlank front :=
  ⟨s.takeWhile isBlank, List.takeWhile_append_dropWhile.symm, fun _ => List.mem_takeWhile_imp⟩

theorem AllBlank.trimStart_append (h : AllBlank front)
    (hrest : ∀ c ∈ rest.head?, isBlank c = false) : trimStart (front ++ rest) = rest :=
  dropWhile_append_of_head h hrest

theorem exists_text_of_readNumber (h : readNumber s = .ok (prob, after)) :
    ∃ text, s = text ++ after ∧ NumberText text prob := by
  unfold readNumber at h
  simp only at h
  split at h
  · contradiction
  · next hscan =>
    obtain ⟨rfl, rfl⟩ := Prod.mk.inj (Except.ok.inj h)
    split at hscan
    · obtain ⟨text, rfl, htext⟩ := Numeral.exists_of_scan hscan
      exact ⟨'+' :: text, rfl, .plus htext⟩
    · obtain ⟨text, rfl, htext⟩ := Numeral.exists_of_scan hscan
      exact ⟨text, rfl, .unsigned htext⟩

theorem NumberText.readNumber_append (h : NumberText text prob) (hrest : Numeral.Stops rest) :
    readNumber (text ++ rest) = .ok (prob, rest) := by
  cases h with
  | unsigned htext =>
      have hscan := htext.scan_append hrest
      obtain ⟨c, text, rfl, hc⟩ := htext.head
      have hplus : c ≠ '+' := by
        rintro rfl
        exact absurd hc (by decide)
      rw [List.cons_append] at hscan ⊢
      unfold readNumber
      split
      · next heq => exact absurd (List.cons.inj heq).1 hplus
      · simp only [hscan]
  | plus htext =>
      rw [List.cons_append, readNumber]
      simp only [htext.scan_append hrest]

theorem isBlank_of_isDigit {c : Char} (h : c.isDigit = true) : isBlank c = false := by
  have hrange : 48 ≤ c.toNat ∧ c.toNat ≤ 57 := by
    simp only [Char.isDigit, Bool.and_eq_true, decide_eq_true_eq, ge_iff_le,
      UInt32.le_iff_toNat_le] at h
    exact h
  cases hblank : isBlank c with
  | false => rfl
  | true =>
      simp only [isBlank, Bool.or_eq_true, Bool.and_eq_true, beq_iff_eq, decide_eq_true_eq]
        at hblank
      omega

theorem NumberText.head (h : NumberText text prob) :
    ∃ c rest, text = c :: rest ∧ isBlank c = false := by
  cases h with
  | unsigned htext =>
      obtain ⟨c, rest, rfl, hdigit | rfl⟩ := htext.head
      · exact ⟨c, rest, rfl, isBlank_of_isDigit hdigit⟩
      · exact ⟨'.', rest, rfl, by decide⟩
  | plus htext => exact ⟨'+', _, rfl, by decide⟩

/-- Blanks and a bracket behind a number are no part of it. -/
theorem AllBlank.stops (h : AllBlank front) : Numeral.Stops (front ++ ']' :: rest) := by
  intro c hc
  cases front with
  | nil =>
      obtain rfl : ']' = c := by simpa using hc
      decide
  | cons d front =>
      obtain rfl : d = c := by simpa using hc
      have hblank : isBlank d = true := h d (List.mem_cons_self ..)
      refine ⟨?_, ?_, ?_, ?_⟩
      · cases hdigit : d.isDigit with
        | false => rfl
        | true => exact absurd hblank (by simp [isBlank_of_isDigit hdigit])
      all_goals
        rintro rfl
        exact absurd hblank (by decide)

theorem exists_text_of_readProbability (h : readProbability s = .ok (prob, after)) :
    ∃ text, '[' :: s = text ++ after ∧ ProbabilityText text prob := by
  obtain ⟨⟨prob', behind⟩, hnumber, h⟩ := bind_eq_ok_iff.mp h
  obtain ⟨front, hs, hfront⟩ := exists_blanks s
  obtain ⟨text, htrim, htext⟩ := exists_text_of_readNumber hnumber
  obtain ⟨back, hbehind, hback⟩ := exists_blanks behind
  simp only at h
  split at h
  · next hbracket =>
    obtain ⟨rfl, rfl⟩ := Prod.mk.inj (Except.ok.inj h)
    refine ⟨_, ?_, .mk hfront htext hback⟩
    rw [hs, htrim, hbehind, hbracket]
    simp
  · contradiction

/-- A probability is read as a whole. -/
theorem ProbabilityText.readLexeme_append (h : ProbabilityText text prob) (rest : List Char) :
    readLexeme (text ++ rest) = .ok (.probability prob, rest) := by
  cases h with
  | @mk front text back prob hfront htext hback =>
      have hnumber : readNumber (text ++ (back ++ ']' :: rest)) = .ok (prob, back ++ ']' :: rest) :=
        htext.readNumber_append hback.stops
      have hstart : trimStart (front ++ (text ++ (back ++ ']' :: rest))) =
          text ++ (back ++ ']' :: rest) := by
        obtain ⟨c, text, rfl, hc⟩ := htext.head
        exact hfront.trimStart_append (by simpa using hc)
      have hend : trimStart (back ++ ']' :: rest) = ']' :: rest :=
        hback.trimStart_append (by simp [show isBlank ']' = false by decide])
      have hread : readProbability (front ++ (text ++ (back ++ ']' :: rest))) =
          .ok (prob, rest) := by
        rw [readProbability, hstart, hnumber]
        simp only [bind, Except.bind, hend]
      simp only [List.cons_append, List.append_assoc, List.nil_append, readLexeme, hread]
      rfl

/-- What is read of a symbol is its longest text. -/
theorem exists_text_of_readLexeme {x : Symbol} (hline : '\n' ∉ s)
    (h : readLexeme s = .ok (lexemeOf x, after)) :
    ∃ text, s = text ++ after ∧ SymbolText text x ∧ Longest text after := by
  unfold readLexeme at h
  split at h <;> obtain ⟨⟨name, rest⟩, hread, heq⟩ := map_eq_ok_iff.mp h <;> cases x <;>
    cases heq
  · exact exists_text_of_readWord hline hread
  · exact exists_text_of_readWord hline hread
  · exact exists_text_of_readLabel hline hread

theorem exists_text_of_readLexeme_probability
    (h : readLexeme s = .ok (.probability prob, after)) :
    ∃ text, s = text ++ after ∧ ProbabilityText text prob := by
  unfold readLexeme at h
  split at h <;> obtain ⟨⟨value, rest⟩, hread, heq⟩ := map_eq_ok_iff.mp h <;> cases heq
  exact exists_text_of_readProbability hread

end

end ChartParser.GrammarText
