import ChartParser.GrammarText.Document
import ChartParser.Proofs.Grammar.Faultless
import ChartParser.Proofs.GrammarText.Line

/-! # Written grammars read back

The text of a grammar is its start directive and its rules, one below the other. Every line but the
first is always read as it was written, so a single thing decides whether the text describes the
grammar: whether a blank ends the start symbol. -/

namespace ChartParser

open Text

/-- A grammar whose symbols all have a written form. -/
structure Grammar.Writable (g : Grammar) : Prop where
  start : ChartParser.Writable g.start
  rules : ∀ r ∈ g.rules, r.Writable

/-! ### Written lines have no line end -/

theorem Binary64.IsPositive.not_mem_render {x : Binary64} (hx : x.IsPositive) :
    '\n' ∉ x.render := by
  intro hmem
  rcases hx.isDigit_or_point_of_mem_render hmem with h | h
  · exact absurd h (by decide)
  · exact absurd h (by decide)

theorem Rule.not_mem_render {r : Rule} (hr : r.Writable) (hprob : r.prob.IsPositive) :
    '\n' ∉ r.render := by
  have hhead : '\n' ∉ Symbol.renderLabel r.head := Symbol.not_mem_escape hr.head.not_mem
  have hbody : ∀ x ∈ r.body, '\n' ∉ x.render := fun x hx =>
    GrammarText.not_mem_render (hr.body x hx)
  simpa [render, hhead, hprob.not_mem_render] using hbody

namespace GrammarText

theorem not_mem_startLine {label : String} (h : Writable label) : '\n' ∉ startLine label := by
  have hlabel : '\n' ∉ Symbol.renderLabel label := Symbol.not_mem_escape h.not_mem
  simpa [startLine] using hlabel

/-! ### Line by line -/

/-- Lines are read the same when their margins change. -/
theorem readLine_congr {l l' : List Char} (h : trim l = trim l') : readLine l = readLine l' := by
  rw [readLine, h, ← readLine]

theorem readLines_map {f : List Char → List Char} (hf : ∀ l, trim (f l) = trim l) (n : Nat)
    (ls : List (List Char)) : readLines n (ls.map f) = readLines n ls := by
  induction ls generalizing n with
  | nil => rfl
  | cons l ls ih => rw [List.map_cons, readLines, readLines, readLine_congr (hf l), ih]

/-- Lines written one below the other are read one after another. -/
theorem read_flatMap {ls : List (List Char)} (h : ∀ l ∈ ls, '\n' ∉ l) :
    read (ls.flatMap fun l => l ++ ['\n']) = readLines 1 ls := by
  rw [read, lines_flatMap h]
  exact readLines_map trim_withoutLineEnd 1 ls

theorem readLines_render {rules : List Rule} (hwritable : ∀ r ∈ rules, r.Writable)
    (hprob : ∀ r ∈ rules, r.prob.IsPositive) (hbody : ∀ r ∈ rules, r.body ≠ []) (n : Nat) :
    readLines n (rules.map Rule.render) = .ok ⟨rules, none⟩ := by
  induction rules generalizing n with
  | nil => rfl
  | cons r rules ih =>
      obtain ⟨hr, hwritable⟩ := List.forall_mem_cons.mp hwritable
      obtain ⟨hp, hprob⟩ := List.forall_mem_cons.mp hprob
      obtain ⟨hb, hbody⟩ := List.forall_mem_cons.mp hbody
      rw [List.map_cons, readLines, readLine_render hr hp hb, ih hwritable hprob hbody]
      rfl

end GrammarText

namespace Grammar

open GrammarText

variable {g : Grammar}

/-- A text describes the grammar that has the rules and the start symbol it was read to say. -/
theorem ofText_eq_ok_iff {text : List Char} :
    ofText text = .ok g ↔
      ∃ draft, read text = .ok draft ∧ g.rules = draft.rules ∧ g.start = draft.startSymbol := by
  unfold ofText
  cases read text with
  | error fault => simp
  | ok draft => simp [mapError_eq_ok_iff, ofRules_eq_ok_iff]

/-- The lines of the text of a grammar. -/
def textLines (g : Grammar) : List (List Char) := startLine g.start :: g.rules.map Rule.render

theorem render_eq (g : Grammar) : g.render = g.textLines.flatMap fun l => l ++ ['\n'] := by
  rw [textLines, List.flatMap_cons, List.flatMap_map]
  rfl

theorem isPositive (g : Grammar) : ∀ r ∈ g.rules, r.prob.IsPositive :=
  fun r hr => (g.faultless.isProbability r hr).isPositive

theorem body_ne_nil (g : Grammar) : ∀ r ∈ g.rules, r.body ≠ [] := by
  intro r hr hbody
  have hnormal := g.faultless.isNormal r hr
  rw [Production.shape?, hbody] at hnormal
  exact absurd hnormal (by decide)

theorem not_mem_textLines (h : g.Writable) : ∀ l ∈ g.textLines, '\n' ∉ l := by
  intro l hl
  rcases List.mem_cons.mp hl with rfl | hl
  · exact not_mem_startLine h.start
  · obtain ⟨r, hr, rfl⟩ := List.mem_map.mp hl
    exact Rule.not_mem_render (h.rules r hr) (g.isPositive r hr)

/-- The text of a grammar says no more than its start line and its rules. -/
theorem read_render (h : g.Writable) : read g.render = readLines 1 g.textLines := by
  rw [render_eq, read_flatMap (not_mem_textLines h)]

theorem ofText_render_of_writable (h : g.Writable)
    (hlast : endsBlank g.start.toList = false) : ofText g.render = .ok g := by
  have hread : read g.render = .ok ⟨g.rules, some g.start⟩ := by
    rw [read_render h, textLines, readLines, readLine_startLine h.start hlast,
      readLines_render h.rules g.isPositive g.body_ne_nil]
    rfl
  exact ofText_eq_ok_iff.mpr ⟨_, hread, rfl, rfl⟩

/-- If a blank ends the start symbol, the text is not even read. -/
theorem exists_ofText_render_eq_error (h : g.Writable) (hlast : endsBlank g.start.toList = true) :
    ∃ cause, ofText g.render = .error (.malformed ⟨1, cause⟩) := by
  obtain ⟨cause, hline⟩ := exists_readLine_startLine_eq_error h.start.not_mem hlast
  have hread : read g.render = .error ⟨1, cause⟩ := by
    rw [read_render h, textLines, readLines, hline]
  exact ⟨cause, by rw [ofText, hread]⟩

end Grammar

end ChartParser
