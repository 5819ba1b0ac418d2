import ChartParser.Proofs.GrammarText.Names

/-! # Accepted rule lines

A rule line is accepted exactly if it is a line of the grammar: a label before the first arrow, and
behind it alternatives between bars. An alternative ends at the first bar that no symbol takes, so
its text does not depend on the alternatives behind it. -/

namespace ChartParser.GrammarText

open Text

/-! ### Texts -/

/-- The text of an alternative with its symbols and its probability. Blanks may stand before and
behind each of them. Every symbol is as long as it can be, and only one probability stands behind
the symbols; where there is none it is one. -/
inductive BodyText : List Char → List Symbol → Binary64 → Prop where
  | done {blanks : List Char} (hblanks : AllBlank blanks) : BodyText blanks [] .one
  | probability {front text back : List Char} {prob : Binary64} (hfront : AllBlank front)
      (htext : ProbabilityText text prob) (hback : AllBlank back) :
      BodyText (front ++ (text ++ back)) [] prob
  | symbol {front text rest : List Char} {x : Symbol} {body : List Symbol} {prob : Binary64}
      (hfront : AllBlank front) (htext : SymbolText text x) (hlongest : Longest text rest)
      (hrest : BodyText rest body prob) : BodyText (front ++ (text ++ rest)) (x :: body) prob

/-- The text of alternatives between bars, each of them with at least one symbol. -/
inductive AlternativesText : List Char → List Alternative → Prop where
  | last {text : List Char} {a : Alternative} (htext : BodyText text a.body a.prob)
      (hne : a.body ≠ []) : AlternativesText text [a]
  | bar {text rest : List Char} {a : Alternative} {as : List Alternative}
      (htext : BodyText text a.body a.prob) (hne : a.body ≠ [])
      (hrest : AlternativesText rest as) : AlternativesText (text ++ '|' :: rest) (a :: as)

/-- The first arrow of a line stands between two texts. -/
structure FirstArrow (line before after : List Char) : Prop where
  eq : line = before ++ '-' :: '>' :: after
  first : ∀ before' after', line = before' ++ '-' :: '>' :: after' →
    before.length ≤ before'.length

/-- The text of a rule line with its rules: one label before the first arrow, blanks around it, and
behind the arrow one alternative for each rule. -/
inductive RuleText : List Char → List Rule → Prop where
  | mk {line front text back after : List Char} {head : String} {as : List Alternative}
      (harrow : FirstArrow line (front ++ (text ++ back)) after) (hfront : AllBlank front)
      (hhead : SymbolText text (.nonterminal head)) (hlongest : Longest text back)
      (hback : AllBlank back) (has : AlternativesText after as) :
      RuleText line (as.map fun a => ⟨⟨head, a.body⟩, a.prob⟩)

/-! ### Ends of alternatives -/

section

variable {s front text rest after : List Char} {next : Option (List Char)}

/-- What stands behind an alternative. -/
def closing : Option (List Char) → List Char
  | none => []
  | some rest => '|' :: rest

/-- What is longest before a text is longest before the front of it. -/
theorem Longest.of_append (h : Longest text (rest ++ after)) : Longest text rest := by
  intro more rest' x hrest hx
  exact h more (rest' ++ after) x (by rw [hrest, List.append_assoc]) hx

theorem exists_blanks_of_closed (next : Option (List Char)) (h : boundary s = closed next) :
    ∃ blanks, s = blanks ++ closing next ∧ AllBlank blanks := by
  obtain ⟨front, hs, hfront⟩ := exists_blanks s
  unfold boundary at h
  split at h
  · next htrim =>
    rw [htrim] at hs
    cases next with
    | none => exact ⟨front, hs, hfront⟩
    | some rest => contradiction
  · next htrim =>
    rw [htrim] at hs
    cases next with
    | none => contradiction
    | some rest =>
        obtain rfl := Boundary.bar.inj h
        exact ⟨front, hs, hfront⟩
  · cases next <;> contradiction

theorem exists_blanks_of_more {other : List Char} (h : boundary s = .more other) :
    ∃ front, s = front ++ other ∧ AllBlank front := by
  obtain ⟨front, hs, hfront⟩ := exists_blanks s
  unfold boundary at h
  split at h
  · contradiction
  · contradiction
  · obtain rfl := Boundary.more.inj h
    exact ⟨front, hs, hfront⟩

theorem AllBlank.boundary_closing (h : AllBlank front) (next : Option (List Char)) :
    boundary (front ++ closing next) = closed next := by
  have htrim : trimStart (front ++ closing next) = closing next := by
    refine h.trimStart_append ?_
    cases next with
    | none => simp [closing]
    | some rest => simp [closing, show isBlank '|' = false by decide]
  unfold boundary
  rw [htrim]
  cases next <;> rfl

/-- Neither a blank nor a bar comes first, so the alternative goes on. -/
theorem AllBlank.boundary_append (h : AllBlank front) {c : Char} (hblank : isBlank c = false)
    (hbar : c ≠ '|') (rest : List Char) : boundary (front ++ c :: rest) = .more (c :: rest) := by
  have htrim : trimStart (front ++ c :: rest) = c :: rest :=
    h.trimStart_append (by simpa using hblank)
  unfold boundary
  rw [htrim]
  split
  · contradiction
  · next heq => exact absurd (List.cons.inj heq).1 hbar
  · rfl

/-- A backslash that escapes nothing is no symbol. -/
theorem SymbolText.ne_backslash {x : Symbol} (h : SymbolText text x) : text ≠ ['\\'] := by
  rintro rfl
  cases x with
  | terminal word =>
      obtain ⟨quote, content, name, _, heq, _⟩ := symbolText_word_iff.mp h
      simp at heq
  | nonterminal label =>
      obtain ⟨name, hname, _⟩ := symbolText_label_iff.mp h
      cases hname with
      | plain hc _ => exact absurd hc.2 (by decide)

/-- No alternative consists of a backslash that escapes nothing. -/
theorem BodyText.ne_backslash {body : List Symbol} {prob : Binary64} (h : BodyText text body prob) :
    text ≠ ['\\'] := by
  intro heq
  cases h with
  | done hblanks => exact absurd (hblanks '\\' (by simp [heq])) (by decide)
  | probability _ htext _ =>
      cases htext with
      | mk =>
        have hbracket := congrArg (List.count '[') heq
        simp at hbracket
  | symbol _ htext _ _ =>
      obtain ⟨c, rest, rfl, _⟩ := htext.head
      rcases List.append_eq_singleton_iff.mp heq with ⟨_, heq⟩ | ⟨_, heq⟩
      · obtain ⟨rfl, htail⟩ := List.cons.inj heq
        obtain ⟨rfl, _⟩ := List.append_eq_nil_iff.mp htail
        exact htext.ne_backslash rfl
      · simp at heq

/-- Behind an alternative no label goes on, whatever comes next. -/
theorem scanLabel_append_closing (h : scanLabel rest = ([], rest)) (hne : rest ≠ ['\\'])
    (next : Option (List Char)) :
    scanLabel (rest ++ closing next) = ([], rest ++ closing next) := by
  fun_cases scanLabel rest with
  | case1 => cases next <;> rfl
  | case2 rest => rw [List.cons_append, List.cons_append, scanLabel, if_pos rfl]
  | case3 c rest hc label after hscan => simp [scanLabel, hc, hscan] at h
  | case4 c rest hescaped hends =>
      have hc : c ≠ '\\' := by
        rintro rfl
        cases rest with
        | nil => exact hne rfl
        | cons d rest => exact hescaped d rest rfl rfl
      rw [List.cons_append, scanLabel.eq_3 c _ (fun _ _ heq _ => hc heq), if_pos hends]
  | case5 c rest _ hends label after _ =>
      rw [scanLabel_cons (by simpa using hends)] at h
      simp at h

end

/-! ### Alternatives -/

section

variable {s text other rest after : List Char} {next : Option (List Char)} {a : Alternative}

/-- A probability and the end of the alternative behind it. -/
theorem exists_text_of_probability {prob : Binary64} (next : Option (List Char))
    (hmore : boundary s = .more other)
    (hlexeme : readLexeme other = .ok (.probability prob, after))
    (hend : boundary after = closed next) :
    ∃ text, s = text ++ closing next ∧ BodyText text [] prob := by
  obtain ⟨front, rfl, hfront⟩ := exists_blanks_of_more hmore
  obtain ⟨text, rfl, htext⟩ := exists_text_of_readLexeme_probability hlexeme
  obtain ⟨back, rfl, hback⟩ := exists_blanks_of_closed next hend
  exact ⟨front ++ (text ++ back), by simp, .probability hfront htext hback⟩

/-- A symbol and the rest of the alternative behind it. -/
theorem exists_text_of_symbol {x : Symbol} {body : List Symbol} {prob : Binary64}
    (hline : '\n' ∉ s) (hmore : boundary s = .more other)
    (hlexeme : readLexeme other = .ok (lexemeOf x, after))
    (hafter : '\n' ∉ after → ∃ text, after = text ++ closing next ∧ BodyText text body prob) :
    ∃ text, s = text ++ closing next ∧ BodyText text (x :: body) prob := by
  obtain ⟨front, rfl, hfront⟩ := exists_blanks_of_more hmore
  have hotherLine : '\n' ∉ other := fun hmem => hline (List.mem_append_right _ hmem)
  obtain ⟨text, rfl, htext, hlongest⟩ := exists_text_of_readLexeme hotherLine hlexeme
  obtain ⟨rest, rfl, hrest⟩ := hafter fun hmem => hotherLine (List.mem_append_right _ hmem)
  refine ⟨front ++ (text ++ rest), by simp, .symbol hfront htext ?_ hrest⟩
  exact hlongest.of_append

/-- What is read of an alternative is the text of one, up to the end of the line or to a bar. -/
theorem exists_text_of_readBody (hline : '\n' ∉ s) (h : readBody s = .ok (a, next)) :
    ∃ text, s = text ++ closing next ∧ BodyText text a.body a.prob := by
  fun_induction readBody s generalizing a with
  | case1 text hend =>
      cases h
      obtain ⟨blanks, hs, hblanks⟩ := exists_blanks_of_closed none hend
      exact ⟨blanks, hs, .done hblanks⟩
  | case2 text rest hend =>
      cases h
      obtain ⟨blanks, hs, hblanks⟩ := exists_blanks_of_closed (some rest) hend
      exact ⟨blanks, hs, .done hblanks⟩
  | case3 => contradiction
  | case4 text other hmore prob after hlexeme hend =>
      cases h
      exact exists_text_of_probability none hmore hlexeme hend
  | case5 text other hmore prob after hlexeme rest hend =>
      cases h
      exact exists_text_of_probability (some rest) hmore hlexeme hend
  | case6 => contradiction
  | case7 text other hmore label after hlexeme ih =>
      obtain ⟨⟨b, next'⟩, hbody, heq⟩ := bind_eq_ok_iff.mp h
      cases heq
      exact exists_text_of_symbol (x := .nonterminal label) hline hmore hlexeme (ih · hbody)
  | case8 text other hmore word after hlexeme ih =>
      obtain ⟨⟨b, next'⟩, hbody, heq⟩ := bind_eq_ok_iff.mp h
      cases heq
      exact exists_text_of_symbol (x := .terminal word) hline hmore hlexeme (ih · hbody)

/-- The text of an alternative is read as a whole, up to the end of the line or to a bar. -/
theorem BodyText.readBody_append {body : List Symbol} {prob : Binary64}
    (h : BodyText text body prob) (hline : '\n' ∉ text) (next : Option (List Char)) :
    readBody (text ++ closing next) = .ok (⟨body, prob⟩, next) := by
  induction h with
  | done hblanks => exact readBody_of_closed (hblanks.boundary_closing next)
  | @probability front text back prob hfront htext hback =>
      have hlexeme := htext.readLexeme_append (back ++ closing next)
      have hmore : boundary (front ++ (text ++ (back ++ closing next))) =
          .more (text ++ (back ++ closing next)) := by
        cases htext with
        | mk => exact hfront.boundary_append (by decide) (by decide) _
      rw [List.append_assoc, List.append_assoc]
      exact readBody_of_probability hmore hlexeme (hback.boundary_closing next)
  | @symbol front text rest x body prob hfront htext hlongest hrest ih =>
      obtain ⟨_, hline⟩ := not_or.mp (mt List.mem_append.mpr hline)
      obtain ⟨htextLine, hrestLine⟩ := not_or.mp (mt List.mem_append.mpr hline)
      have hmore : boundary (front ++ (text ++ (rest ++ closing next))) =
          .more (text ++ (rest ++ closing next)) := by
        obtain ⟨c, text, rfl, hblank, hbar⟩ := htext.head
        exact hfront.boundary_append hblank hbar _
      have hlexeme : readLexeme (text ++ (rest ++ closing next)) =
          .ok (lexemeOf x, rest ++ closing next) := by
        cases x with
        | terminal word => exact readLexeme_of_wordText htext htextLine _
        | nonterminal label =>
            refine readLexeme_of_labelText htext htextLine ?_
            exact scanLabel_append_closing (hlongest.scanLabel_eq htext) hrest.ne_backslash next
      rw [List.append_assoc, List.append_assoc]
      exact readBody_of_symbol hmore hlexeme (ih hrestLine)

theorem readAlternative_eq_ok_iff : readAlternative s = .ok (a, next) ↔
    readBody s = .ok (a, next) ∧ a.body ≠ [] := by
  constructor
  · intro h
    obtain ⟨⟨b, next'⟩, hbody, h⟩ := bind_eq_ok_iff.mp h
    simp only at h
    split at h
    · contradiction
    · next hne =>
      cases h
      exact ⟨hbody, by simpa using hne⟩
  · rintro ⟨hbody, hne⟩
    exact readAlternative_of_readBody hbody hne

/-- What is read of alternatives is the text of them, up to the end of the line. -/
theorem alternativesText_of_readAlternatives {as : List Alternative} (hline : '\n' ∉ s)
    (h : readAlternatives s = .ok as) : AlternativesText s as := by
  fun_induction readAlternatives s generalizing as with
  | case1 => contradiction
  | case2 s a ha =>
      cases h
      obtain ⟨hbody, hne⟩ := readAlternative_eq_ok_iff.mp ha
      obtain ⟨text, hs, htext⟩ := exists_text_of_readBody hline hbody
      rw [hs, closing, List.append_nil]
      exact .last htext hne
  | case3 s a rest ha ih =>
      obtain ⟨others, hothers, heq⟩ := bind_eq_ok_iff.mp h
      cases heq
      obtain ⟨hbody, hne⟩ := readAlternative_eq_ok_iff.mp ha
      obtain ⟨text, rfl, htext⟩ := exists_text_of_readBody hline hbody
      refine .bar htext hne (ih (fun hmem => hline ?_) hothers)
      exact List.mem_append_right _ (List.mem_cons_of_mem _ hmem)

theorem readAlternatives_of_bar {as : List Alternative}
    (ha : readAlternative s = .ok (a, some rest)) (has : readAlternatives rest = .ok as) :
    readAlternatives s = .ok (a :: as) := by
  rw [readAlternatives]
  split <;> simp_all [bind, Except.bind]

/-- The text of alternatives is read as a whole. -/
theorem AlternativesText.readAlternatives_eq {as : List Alternative} (h : AlternativesText text as)
    (hline : '\n' ∉ text) : readAlternatives text = .ok as := by
  induction h with
  | @last text a htext hne =>
      have hbody := htext.readBody_append hline none
      rw [closing, List.append_nil] at hbody
      exact readAlternatives_of_readBody hbody hne
  | @bar text rest a as htext hne hrest ih =>
      obtain ⟨htextLine, hrestLine⟩ := not_or.mp (mt List.mem_append.mpr hline)
      have hbody := htext.readBody_append htextLine (some rest)
      refine readAlternatives_of_bar (readAlternative_eq_ok_iff.mpr ⟨hbody, hne⟩) ?_
      exact ih (List.not_mem_of_not_mem_cons hrestLine)

theorem readAlternatives_eq_ok_iff {as : List Alternative} (hline : '\n' ∉ s) :
    readAlternatives s = .ok as ↔ AlternativesText s as :=
  ⟨alternativesText_of_readAlternatives hline, fun h => h.readAlternatives_eq hline⟩

end

/-! ### Arrows -/

section

variable {line before after before' after' : List Char}

theorem FirstArrow.unique (h : FirstArrow line before after)
    (h' : FirstArrow line before' after') : before = before' ∧ after = after' := by
  have hlength : before.length = before'.length :=
    Nat.le_antisymm (h.first _ _ h'.eq) (h'.first _ _ h.eq)
  obtain ⟨hbefore, harrow⟩ := List.append_inj (h.eq.symm.trans h'.eq) hlength
  exact ⟨hbefore, (List.cons.inj (List.cons.inj harrow).2).2⟩

/-- A line is cut at its first arrow. -/
theorem firstArrow_of_splitArrow (h : splitArrow line = some (before, after)) :
    FirstArrow line before after := by
  fun_induction splitArrow line generalizing before with
  | case1 => contradiction
  | case2 rest =>
      cases h
      exact ⟨rfl, fun _ _ _ => Nat.zero_le _⟩
  | case3 c rest harrow ih =>
      obtain ⟨p, hp, heq⟩ := Option.map_eq_some_iff.mp h
      cases heq
      obtain ⟨hrest, hfirst⟩ := ih hp
      refine ⟨congrArg (List.cons c) hrest, fun before' after' hline => ?_⟩
      cases before' with
      | nil =>
          obtain ⟨rfl, htail⟩ := List.cons.inj hline
          exact (harrow after' rfl htail).elim
      | cons d before' =>
          obtain ⟨rfl, htail⟩ := List.cons.inj hline
          exact Nat.succ_le_succ (hfirst before' after' htail)

theorem exists_splitArrow (before after : List Char) :
    ∃ p, splitArrow (before ++ '-' :: '>' :: after) = some p := by
  induction before with
  | nil => exact ⟨_, rfl⟩
  | cons c before ih =>
      obtain ⟨p, hp⟩ := ih
      by_cases harrow : c = '-' → (before ++ '-' :: '>' :: after).head? ≠ some '>'
      · rw [List.cons_append, splitArrow_cons harrow, hp]
        exact ⟨_, rfl⟩
      · -- the arrow stands further in front
        obtain ⟨rfl, hhead⟩ := Classical.not_imp.mp harrow
        obtain ⟨rest, hrest⟩ := List.head?_eq_some_iff.mp (not_not.mp hhead)
        exact ⟨_, by rw [List.cons_append, hrest, splitArrow]⟩

theorem splitArrow_eq_some_iff :
    splitArrow line = some (before, after) ↔ FirstArrow line before after := by
  refine ⟨firstArrow_of_splitArrow, fun h => ?_⟩
  obtain ⟨⟨before', after'⟩, hsplit⟩ := exists_splitArrow before after
  rw [← h.eq] at hsplit
  obtain ⟨rfl, rfl⟩ := h.unique (firstArrow_of_splitArrow hsplit)
  exact hsplit

end

/-! ### Lines -/

variable {line : List Char} {rules : List Rule} {draft : Draft}

theorem ruleText_of_readRules (hline : '\n' ∉ line) (h : readRules line = .ok rules) :
    RuleText line rules := by
  unfold readRules at h
  split at h
  · contradiction
  · next before after hsplit =>
    obtain ⟨hbeforeLine, hafterLine⟩ := not_mem_of_splitArrow hline hsplit
    obtain ⟨front, hbefore, hfront⟩ := exists_blanks before
    simp only at h
    split at h
    · contradiction
    · next head rest hread =>
      split at h
      · next hblank =>
        obtain ⟨as, has, heq⟩ := bind_eq_ok_iff.mp h
        cases heq
        obtain ⟨text, htrim, htext, hlongest⟩ :=
          exists_text_of_readLabel (not_mem_trimStart hbeforeLine) hread
        rw [htrim] at hbefore
        have harrow := splitArrow_eq_some_iff.mp hsplit
        rw [hbefore] at harrow
        exact .mk harrow hfront htext hlongest (List.all_eq_true.mp hblank)
          ((readAlternatives_eq_ok_iff hafterLine).mp has)
      · contradiction

theorem RuleText.readRules_eq (h : RuleText line rules) (hline : '\n' ∉ line) :
    readRules line = .ok rules := by
  cases h with
  | @mk front text back after head as harrow hfront hhead hlongest hback has =>
      have hsplit := splitArrow_eq_some_iff.mpr harrow
      obtain ⟨hbeforeLine, hafterLine⟩ := not_mem_of_splitArrow hline hsplit
      have htextLine : '\n' ∉ text := by simp_all
      have hstart : trimStart (front ++ (text ++ back)) = text ++ back := by
        obtain ⟨c, text, rfl, hblank, _⟩ := hhead.head
        exact hfront.trimStart_append (by simpa using hblank)
      have hread : readLabel (text ++ back) = .ok (head, back) :=
        readLabel_of_labelText hhead htextLine (hlongest.scanLabel_eq hhead)
      have hblank : back.all isBlank = true := List.all_eq_true.mpr hback
      unfold readRules
      simp only [hsplit, hstart, hread, hblank, if_true, has.readAlternatives_eq hafterLine]
      rfl

/-- A line is read as rules exactly if it is the text of them. -/
theorem readRules_eq_ok_iff (hline : '\n' ∉ line) :
    readRules line = .ok rules ↔ RuleText line rules :=
  ⟨ruleText_of_readRules hline, fun h => h.readRules_eq hline⟩

/-- A line that is neither empty nor a comment nor a directive is read exactly if, its margins cut
off, it is the text of a rule line. It says the rules of that line and nothing else. -/
theorem readLine_eq_ok_iff (hline : '\n' ∉ line) (hne : trim line ≠ [])
    (hcomment : ¬['#'] <+: trim line) (hdirective : ¬"%start".toList <+: trim line) :
    readLine line = .ok draft ↔ ∃ rules, RuleText (trim line) rules ∧ draft = ⟨rules, none⟩ := by
  have htrimLine : '\n' ∉ trim line := fun hmem => hline (mem_of_mem_trim hmem)
  have hread : readLine line = (readRules (trim line)).map fun rules => ⟨rules, none⟩ := by
    unfold readLine
    split
    · next heq => exact absurd heq hne
    · next heq => exact absurd (heq ▸ List.prefix_append ['#'] _) hcomment
    · next heq => exact absurd (heq ▸ List.prefix_append "%start".toList _) hdirective
    · rfl
  rw [hread]
  constructor
  · intro h
    obtain ⟨rules, hrules, heq⟩ := map_eq_ok_iff.mp h
    exact ⟨rules, (readRules_eq_ok_iff htrimLine).mp hrules, heq.symm⟩
  · rintro ⟨rules, hrules, rfl⟩
    rw [(readRules_eq_ok_iff htrimLine).mpr hrules]
    rfl

/-- A line with a bar in its head and in a word, a quote in another word, and an arrow that is a
label. -/
def oddLine : List Char := " S\\|x -> \"a|b\"'c\\''[ +.5e0 ]|-> ".toList

/-- The rules of the line, one for each side of the only bar that stands between alternatives. -/
def oddRules : List Rule :=
  [⟨⟨"S|x", [.terminal "a|b", .terminal "c'"]⟩, .ofDecimal 5 (-1)⟩,
    ⟨⟨"S|x", [.nonterminal "->"]⟩, .one⟩]

theorem readLine_eq_ok_iff_oddLine :
    '\n' ∉ oddLine ∧ trim oddLine ≠ [] ∧ ¬['#'] <+: trim oddLine ∧
      ¬"%start".toList <+: trim oddLine ∧ RuleText (trim oddLine) oddRules := by
  have hline : '\n' ∉ oddLine := by decide +kernel
  have hne : trim oddLine ≠ [] := by decide +kernel
  have hcomment : ¬['#'] <+: trim oddLine := by decide +kernel
  have hdirective : ¬"%start".toList <+: trim oddLine := by decide +kernel
  have hread : readLine oddLine = .ok ⟨oddRules, none⟩ := by decide +kernel
  obtain ⟨rules, hrules, heq⟩ := (readLine_eq_ok_iff hline hne hcomment hdirective).mp hread
  obtain rfl : oddRules = rules := congrArg Draft.rules heq
  exact ⟨hline, hne, hcomment, hdirective, hrules⟩

end ChartParser.GrammarText
