import ChartParser.Proofs.GrammarText.Names

/-! # Round trip of grammar text

A grammar is written and read again without loss, provided that its symbols have a written form and
no blank ends its start symbol. Every grammar that was read meets the first condition, so for those
the second one alone decides. -/

namespace ChartParser

open Text

namespace Grammar

/-! ### From a grammar to its text and back -/

/-- A grammar that was made of rules and a start symbol is read from its own text with just these,
whatever characters its symbols are made of. -/
theorem ofText_render {rules : List Rule} {start : String} {g : Grammar}
    (h : ofRules rules start = .ok g) (hstart : ChartParser.Writable start)
    (hrules : ∀ r ∈ rules, r.Writable) (hlast : endsBlank start.toList = false) :
    ofText g.render = .ok g ∧ g.start = start ∧ g.rules = rules := by
  obtain ⟨rfl, rfl⟩ := eq_of_ofRules h
  exact ⟨ofText_render_of_writable ⟨hstart, hrules⟩ hlast, rfl, rfl⟩

/-- Symbols out of the characters that mean something in grammar text. -/
def oddSymbols : Grammar where
  start := " %start # -> \"[|]' \\"
  rules := [⟨⟨" %start # -> \"[|]' \\", [.nonterminal "->", .nonterminal "\r"]⟩, .one⟩,
    ⟨⟨"->", [.terminal "\" \\"]⟩, .one⟩, ⟨⟨"\r", [.terminal "%start # |"]⟩, .one⟩]
  index := _
  index_eq := rfl
  start_ne_empty := by decide
  rules_ne_nil := by decide
  faultless := ⟨by decide, by decide, by decide⟩

theorem ofText_render_oddSymbols :
    ofRules oddSymbols.rules oddSymbols.start = .ok oddSymbols ∧ oddSymbols.Writable ∧
      endsBlank oddSymbols.start.toList = false ∧ ofText oddSymbols.render = .ok oddSymbols := by
  have hmake : ofRules oddSymbols.rules oddSymbols.start = .ok oddSymbols :=
    ofRules_eq_ok_iff.mpr ⟨rfl, rfl⟩
  have h : oddSymbols.Writable := ⟨by decide, by decide⟩
  have hlast : endsBlank oddSymbols.start.toList = false := by decide
  exact ⟨hmake, h, hlast, (ofText_render hmake h.start h.rules hlast).1⟩

/-! ### From a text to its grammar, to a text and back -/

/-- A grammar that was read is read from its own text again, unless a blank ends its start symbol.
Then the first line of its text is refused. -/
theorem ofText_render_of_ofText {text : List Char} {g : Grammar} (h : ofText text = .ok g) :
    (endsBlank g.start.toList = false → ofText g.render = .ok g) ∧
      (endsBlank g.start.toList = true →
        ∃ cause, ofText g.render = .error (.malformed ⟨1, cause⟩)) := by
  have hwritable := writable_of_ofText h
  constructor
  · intro hstart
    exact ofText_render_of_writable hwritable hstart
  · intro hstart
    exact exists_ofText_render_eq_error hwritable hstart

/-- A grammar whose start symbol is the head of a rule and ends in a blank. -/
def blankAtEnd : Grammar where
  start := "A "
  rules := [⟨⟨"A ", [.terminal "x"]⟩, .one⟩]
  index := _
  index_eq := rfl
  start_ne_empty := by decide
  rules_ne_nil := by decide
  faultless := ⟨by decide, by decide, by decide⟩

/-- In front of an arrow the blank is no margin of the line, so it is read. -/
theorem ofText_blankAtEnd : ofText "A\\ -> \"x\"".toList = .ok blankAtEnd := by
  have hread : GrammarText.read "A\\ -> \"x\"".toList = .ok ⟨blankAtEnd.rules, none⟩ := by
    decide +kernel
  exact ofText_eq_ok_iff.mpr ⟨_, hread, rfl, rfl⟩

theorem ofText_render_of_ofText_blankAtEnd :
    ofText "A\\ -> \"x\"".toList = .ok blankAtEnd ∧
      ∃ cause, ofText blankAtEnd.render = .error (.malformed ⟨1, cause⟩) :=
  ⟨ofText_blankAtEnd, (ofText_render_of_ofText ofText_blankAtEnd).2 (by decide)⟩

/-- A text that is read, and whose grammar writes a text that is not. -/
theorem exists_ofText_render_ne :
    ∃ g, ofText "A\\ -> \"x\"".toList = .ok g ∧ ∀ g', ofText g.render ≠ .ok g' := by
  have hwritable := writable_of_ofText ofText_blankAtEnd
  obtain ⟨cause, hcause⟩ := exists_ofText_render_eq_error hwritable (by decide)
  refine ⟨blankAtEnd, ofText_blankAtEnd, ?_⟩
  intro g' hg'
  exact nomatch hcause.symm.trans hg'

end Grammar

end ChartParser
