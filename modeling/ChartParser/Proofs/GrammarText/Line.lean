import ChartParser.GrammarText.Line
import ChartParser.Proofs.GrammarText.Lexeme

/-! # Written lines read back

The line of a rule is read as that rule. The line that names the start symbol is read as a directive
with that symbol, unless the symbol ends in a blank: the blank is written with a backslash, but the
margins of a line are cut off before the backslash is seen. -/

namespace ChartParser

open Text

/-- A production with a written form. -/
structure Production.Writable (p : Production) : Prop where
  head : ChartParser.Writable p.head
  body : ∀ x ∈ p.body, ChartParser.Writable x.name

instance : DecidablePred Production.Writable :=
  fun p => decidable_of_iff (Writable p.head ∧ ∀ x ∈ p.body, Writable x.name)
    ⟨fun h => ⟨h.1, h.2⟩, fun h => ⟨h.head, h.body⟩⟩

/-! ### Alternatives -/

namespace GrammarText

/-- The end of an alternative, given the text behind the bar, if a bar ends it. -/
def closed : Option (List Char) → Boundary
  | none => .lineEnd
  | some rest => .bar rest

/-- A written symbol is seen past a blank. -/
theorem boundary_render {x : Symbol} (hx : Writable x.name) (rest : List Char) :
    boundary (' ' :: x.render ++ rest) = .more (x.render ++ rest) := by
  obtain ⟨c, text, htext, hblank, hbar⟩ := (symbolText_render hx).head
  unfold boundary
  rw [htext, List.cons_append, trimStart_space, List.cons_append,
    trimStart_of_head (by simpa using hblank)]
  split
  · contradiction
  · next heq => exact absurd (List.cons.inj heq).1 hbar
  · rfl

section

variable {text other after : List Char}

theorem readBody_of_symbol {x : Symbol} {body : List Symbol} {prob : Binary64}
    {next : Option (List Char)} (hmore : boundary text = .more other)
    (hlexeme : readLexeme other = .ok (lexemeOf x, after))
    (hafter : readBody after = .ok (⟨body, prob⟩, next)) :
    readBody text = .ok (⟨x :: body, prob⟩, next) := by
  rw [readBody]
  split
  · next heq => simp [hmore] at heq
  · next heq => simp [hmore] at heq
  · next heq =>
    obtain rfl := Boundary.more.inj (hmore.symm.trans heq)
    cases x with
    | terminal word => split <;> simp_all [lexemeOf, bind, Except.bind]
    | nonterminal label => split <;> simp_all [lexemeOf, bind, Except.bind]

theorem readBody_of_closed {next : Option (List Char)} (hend : boundary text = closed next) :
    readBody text = .ok (⟨[], .one⟩, next) := by
  rw [readBody]
  cases next with
  | none => split <;> simp_all [closed]
  | some rest => split <;> simp_all [closed]

theorem readBody_of_probability {prob : Binary64} {next : Option (List Char)}
    (hmore : boundary text = .more other)
    (hlexeme : readLexeme other = .ok (.probability prob, after))
    (hend : boundary after = closed next) : readBody text = .ok (⟨[], prob⟩, next) := by
  rw [readBody]
  split
  · next heq => simp [hmore] at heq
  · next heq => simp [hmore] at heq
  · next heq =>
    obtain rfl := Boundary.more.inj (hmore.symm.trans heq)
    cases next with
    | none => split <;> simp_all [closed]
    | some rest => split <;> simp_all [closed]

end

/-- The written body of a rule: its symbols, each after a blank, and its probability. -/
def renderBody (body : List Symbol) (prob : Binary64) : List Char :=
  (body.flatMap fun x => ' ' :: x.render) ++ ' ' :: '[' :: (prob.render ++ [']'])

theorem renderBody_cons (x : Symbol) (body : List Symbol) (prob : Binary64) :
    renderBody (x :: body) prob = ' ' :: x.render ++ renderBody body prob := by
  rw [renderBody, List.flatMap_cons, List.append_assoc]
  rfl

/-- A written symbol is followed by a blank. -/
theorem head?_renderBody (body : List Symbol) (prob : Binary64) :
    (renderBody body prob).head? = some ' ' := by
  cases body <;> rfl

/-- The written body of a rule is one alternative. -/
theorem readBody_renderBody {body : List Symbol} (hbody : ∀ x ∈ body, Writable x.name)
    {prob : Binary64} (hprob : prob.IsPositive) :
    readBody (renderBody body prob) = .ok (⟨body, prob⟩, none) := by
  induction body with
  | nil =>
      have hlexeme : readLexeme ('[' :: (prob.render ++ [']'])) = .ok (.probability prob, []) := by
        simpa using (probabilityText_render hprob).readLexeme_append []
      exact readBody_of_probability rfl hlexeme rfl
  | cons x body ih =>
      obtain ⟨hx, hbody⟩ := List.forall_mem_cons.mp hbody
      have hblank : ∀ c ∈ (renderBody body prob).head?, isBlank c = true := by
        rw [head?_renderBody]
        simp [isBlank]
      rw [renderBody_cons]
      apply readBody_of_symbol
      · exact boundary_render hx _
      · exact readLexeme_render hx hblank
      · exact ih hbody

theorem readAlternative_of_readBody {text : List Char} {a : Alternative}
    {next : Option (List Char)} (h : readBody text = .ok (a, next)) (hbody : a.body ≠ []) :
    readAlternative text = .ok (a, next) :=
  bind_eq_ok_iff.mpr ⟨(a, next), h, by simp [hbody]⟩

/-- An alternative that takes the whole text is the only one. -/
theorem readAlternatives_of_readBody {text : List Char} {a : Alternative}
    (h : readBody text = .ok (a, none)) (hbody : a.body ≠ []) :
    readAlternatives text = .ok [a] := by
  have halternative := readAlternative_of_readBody h hbody
  rw [readAlternatives]
  split <;> simp_all

/-! ### Rule lines -/

theorem splitArrow_cons {c : Char} {text : List Char} (h : c = '-' → text.head? ≠ some '>') :
    splitArrow (c :: text) =
      (splitArrow text).map fun (before, after) => (c :: before, after) := by
  apply splitArrow.eq_3
  rintro rest hc rfl
  exact h hc rfl

/-- The head of an arrow does not stand before a written label. -/
theorem head?_escape_ne (label text : List Char) :
    (escape Symbol.isLabelSpecial label ++ ' ' :: text).head? ≠ some '>' := by
  intro h
  cases label with
  | nil => exact absurd (Option.some.inj h) (by decide)
  | cons c label =>
      obtain ⟨d, rest, htext, hd⟩ := Symbol.exists_escape_cons (List.cons_ne_nil c label)
      rw [htext] at h
      have heq : d = '>' := by simpa using h
      exact hd.ne (by decide) heq

/-- No arrow begins inside a written label, nor where it ends. -/
theorem splitArrow_escape (label after : List Char) :
    splitArrow (escape Symbol.isLabelSpecial label ++ ' ' :: '-' :: '>' :: after) =
      some (escape Symbol.isLabelSpecial label ++ [' '], after) := by
  induction label with
  | nil => rfl
  | cons c label ih =>
      cases hspecial : Symbol.isLabelSpecial c with
      | true =>
          have hc : c ≠ '-' := by
            rintro rfl
            exact absurd hspecial (by decide)
          rw [escape_cons_of_special hspecial, List.cons_append, List.cons_append,
            splitArrow_cons (fun h => absurd h (by decide)),
            splitArrow_cons (fun h => absurd h hc), ih]
          rfl
      | false =>
          -- a dash is written bare, but the head of an arrow after it is not
          rw [escape_cons_of_plain hspecial, List.cons_append,
            splitArrow_cons (fun _ => head?_escape_ne label _), ih]
          rfl

theorem trimStart_escape {label : List Char} (h : label ≠ []) (text : List Char) :
    trimStart (escape Symbol.isLabelSpecial label ++ text) =
      escape Symbol.isLabelSpecial label ++ text := by
  obtain ⟨c, rest, htext, hc⟩ := Symbol.exists_escape_cons h
  apply trimStart_of_head
  simpa [htext] using hc.isBlank_eq_false

theorem render_eq (r : Rule) :
    r.render = Symbol.renderLabel r.head ++ ' ' :: '-' :: '>' :: renderBody r.body r.prob := by
  simp [Rule.render, renderBody]

/-- The line of a rule is read as that rule and nothing else. -/
theorem readRules_render {r : Rule} (hr : r.Writable) (hprob : r.prob.IsPositive)
    (hbody : r.body ≠ []) : readRules r.render = .ok [r] := by
  have hsplit : splitArrow r.render =
      some (Symbol.renderLabel r.head ++ [' '], renderBody r.body r.prob) := by
    rw [render_eq]
    exact splitArrow_escape r.head.toList (renderBody r.body r.prob)
  have hstart : trimStart (Symbol.renderLabel r.head ++ [' ']) =
      Symbol.renderLabel r.head ++ [' '] :=
    trimStart_escape hr.head.toList_ne_nil [' ']
  have hhead : readLabel (Symbol.renderLabel r.head ++ [' ']) = .ok (r.head, [' ']) :=
    readLabel_renderLabel hr.head (by decide)
  have halternatives := readAlternatives_of_readBody (readBody_renderBody hr.body hprob) hbody
  unfold readRules
  rw [hsplit]
  simp only
  rw [hstart, hhead]
  simp only
  rw [halternatives]
  rfl

theorem trim_render {r : Rule} (hr : r.Writable) : trim r.render = r.render := by
  obtain ⟨c, text, htext, hc⟩ := Symbol.exists_escape_cons hr.head.toList_ne_nil
  apply trim_of_ends
  · simpa [Rule.render, Symbol.renderLabel, htext] using hc.isBlank_eq_false
  · rw [Rule.render, endsBlank_concat]
    decide

theorem readLine_render {r : Rule} (hr : r.Writable) (hprob : r.prob.IsPositive)
    (hbody : r.body ≠ []) : readLine r.render = .ok ⟨[r], none⟩ := by
  obtain ⟨c, text, htext, hc⟩ := Symbol.exists_escape_cons hr.head.toList_ne_nil
  have hrules := readRules_render hr hprob hbody
  have htrim := trim_render hr
  rw [Rule.render, Symbol.renderLabel, htext] at htrim hrules ⊢
  unfold readLine
  rw [htrim]
  split
  · contradiction
  · next heq => exact absurd (List.cons.inj heq).1 (hc.ne (by decide))
  · next heq => exact absurd (List.cons.inj heq).1 (hc.ne (by decide))
  · rw [hrules]
    rfl

/-! ### The start directive -/

/-- The line that names a label as the start symbol. -/
def startLine (label : String) : List Char :=
  ['%', 's', 't', 'a', 'r', 't', ' '] ++ Symbol.renderLabel label

theorem endsBlank_escape (label : List Char) :
    endsBlank (escape Symbol.isLabelSpecial label) = endsBlank label := by
  rcases List.eq_nil_or_concat label with rfl | ⟨initial, c, rfl⟩
  · rfl
  · rw [List.concat_eq_append, escape_append, escape_cons]
    cases Symbol.isLabelSpecial c <;> simp [endsBlank]

theorem escape_concat {c : Char} (h : Symbol.isLabelSpecial c = true) (label : List Char) :
    escape Symbol.isLabelSpecial (label ++ [c]) =
      escape Symbol.isLabelSpecial label ++ ['\\'] ++ [c] := by
  rw [escape_append, escape_cons, if_pos h, escape_nil, List.append_assoc]
  rfl

theorem readLine_of_trim_eq {line directive : List Char}
    (h : trim line = ['%', 's', 't', 'a', 'r', 't'] ++ directive) :
    readLine line = (readStart directive).map fun label => ⟨[], some label⟩ := by
  unfold readLine
  rw [h]
  rfl

theorem trim_start {text : List Char} (h : endsBlank text = false)
    (hne : text ≠ []) :
    trim (['%', 's', 't', 'a', 'r', 't', ' '] ++ text) =
      ['%', 's', 't', 'a', 'r', 't'] ++ ' ' :: text := by
  apply trim_of_ends
  · intro c hc
    obtain rfl : '%' = c := Option.some.inj hc
    decide
  · rwa [endsBlank, List.getLast?_append_of_ne_nil _ hne]

/-- The start symbol is read if no blank ends it. -/
theorem readLine_startLine {label : String} (h : Writable label)
    (hlast : endsBlank label.toList = false) :
    readLine (startLine label) = .ok ⟨[], some label⟩ := by
  have htrim : trim (startLine label) =
      ['%', 's', 't', 'a', 'r', 't'] ++ ' ' :: Symbol.renderLabel label := by
    apply trim_start
    · rwa [Symbol.renderLabel, endsBlank_escape]
    · obtain ⟨c, text, htext, _⟩ := Symbol.exists_escape_cons h.toList_ne_nil
      simp [Symbol.renderLabel, htext]
  have hlabel : readLabel (Symbol.renderLabel label ++ []) = .ok (label, []) :=
    readLabel_renderLabel h (by decide)
  have hstart := trimStart_escape h.toList_ne_nil []
  rw [List.append_nil] at hlabel hstart
  rw [readLine_of_trim_eq htrim, readStart, trimStart_space, Symbol.renderLabel, hstart,
    ← Symbol.renderLabel, hlabel]
  rfl

/-- A backslash that nothing follows is no part of a label. -/
theorem exists_readStart_eq_error {label : List Char} (h : '\n' ∉ label) :
    ∃ fault, readStart (' ' :: (escape Symbol.isLabelSpecial label ++ ['\\'])) = .error fault := by
  have hscan : scanLabel (escape Symbol.isLabelSpecial label ++ ['\\']) = (label, ['\\']) := by
    rw [scanLabel_escape h, show scanLabel ['\\'] = ([], ['\\']) from rfl, List.append_nil]
  have hstart : trimStart (escape Symbol.isLabelSpecial label ++ ['\\']) =
      escape Symbol.isLabelSpecial label ++ ['\\'] := by
    cases label with
    | nil => rfl
    | cons c label => exact trimStart_escape (List.cons_ne_nil c label) ['\\']
  rw [readStart, trimStart_space, hstart, readLabel, hscan]
  cases label with
  | nil => exact ⟨_, rfl⟩
  | cons c label => exact ⟨_, rfl⟩

/-- A blank at the end of the start symbol is cut off, and the backslash before it escapes nothing
any more. -/
theorem exists_readLine_startLine_eq_error {label : String} (h : '\n' ∉ label.toList)
    (hlast : endsBlank label.toList = true) :
    ∃ fault, readLine (startLine label) = .error fault := by
  obtain ⟨initial, c, hlabel, hblank⟩ := exists_of_endsBlank hlast
  have hinitial : '\n' ∉ initial := by
    rw [hlabel, List.mem_append] at h
    exact fun hmem => h (.inl hmem)
  have hspecial : Symbol.isLabelSpecial c = true := by
    rw [Symbol.isLabelSpecial, hblank, Bool.true_or]
  have htext : Symbol.renderLabel label =
      escape Symbol.isLabelSpecial initial ++ ['\\'] ++ [c] := by
    rw [Symbol.renderLabel, hlabel, escape_concat hspecial]
  have htrim : trim (startLine label) = ['%', 's', 't', 'a', 'r', 't'] ++
      ' ' :: (escape Symbol.isLabelSpecial initial ++ ['\\']) := by
    -- trimming takes the blank away and leaves its backslash
    rw [startLine, htext, ← List.append_assoc, trim_append_blank hblank]
    apply trim_start
    · rw [endsBlank_concat]
      decide
    · simp
  obtain ⟨fault, hfault⟩ := exists_readStart_eq_error hinitial
  rw [readLine_of_trim_eq htrim, hfault]
  exact ⟨fault, rfl⟩

end GrammarText

end ChartParser
