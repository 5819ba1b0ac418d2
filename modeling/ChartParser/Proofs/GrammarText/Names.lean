import ChartParser.Proofs.GrammarText.Document

/-! # Read symbols can be written

Whatever symbol a reader finds in a line is not empty and has no line end in it. The readers pass
on what is left of the line, so the second half is an invariant of the text: no line end stands in
a line, and none appears in the rest of it. -/

namespace ChartParser

open Text

/-! ### Texts that get shorter -/

theorem Writable.ofList {name : List Char} (hne : name ≠ []) (h : '\n' ∉ name) :
    Writable (String.ofList name) where
  ne_empty := by simpa using hne
  not_mem := by simpa using h

theorem Text.not_mem_trimStart {c : Char} {s : List Char} (h : c ∉ s) : c ∉ trimStart s :=
  fun hmem => h (mem_of_mem_trimStart hmem)

namespace Numeral

theorem scanInteger_suffix {negative : Bool} {s rest : List Char} {n : Int}
    (h : scanInteger negative s = some (n, rest)) : rest <:+ s := by
  unfold scanInteger at h
  split at h
  · contradiction
  · cases h
    exact List.dropWhile_suffix _

theorem scanExponent_suffix (s : List Char) : (scanExponent s).2 <:+ s := by
  have hsome : ∀ (negative : Bool) {digits : List Char}, digits <:+ s →
      ((scanInteger negative digits).getD (0, s)).2 <:+ s := by
    intro negative digits hdigits
    cases hscan : scanInteger negative digits with
    | none => exact List.suffix_rfl
    | some p => exact (scanInteger_suffix hscan).trans hdigits
  cases s with
  | nil => exact List.suffix_rfl
  | cons c rest =>
      by_cases hc : c = 'e' ∨ c = 'E'
      · simp only [scanExponent, hc, if_true]
        split
        · exact hsome false ((List.suffix_cons _ _).trans (List.suffix_cons _ _))
        · exact hsome true ((List.suffix_cons _ _).trans (List.suffix_cons _ _))
        · exact hsome false (List.suffix_cons _ _)
      · simp [scanExponent, hc]

theorem scanFraction_suffix (s : List Char) : (scanFraction s).2 <:+ s := by
  unfold scanFraction
  split
  · exact (List.dropWhile_suffix _).trans (List.suffix_cons _ _)
  · exact List.suffix_rfl

theorem scan_suffix {s rest : List Char} {n : Numeral} (h : scan s = some (n, rest)) :
    rest <:+ s := by
  unfold scan at h
  simp only at h
  split at h
  · contradiction
  · cases h
    exact ((scanExponent_suffix _).trans (scanFraction_suffix _)).trans (List.dropWhile_suffix _)

end Numeral

namespace GrammarText

/-! ### Lexemes -/

/-- The symbol that a lexeme stands for, if it stands for one, can be written. -/
def Lexeme.Writable : Lexeme → Prop
  | .label name => ChartParser.Writable name
  | .word name => ChartParser.Writable name
  | .probability _ => True

theorem not_mem_scanLabel {c : Char} {text : List Char} (h : c ∉ text) :
    c ∉ (scanLabel text).1 ∧ c ∉ (scanLabel text).2 := by
  fun_induction scanLabel text with
  | case1 => simp
  | case2 rest => simpa using h
  | case3 => simp_all
  | case4 => simp_all
  | case5 => simp_all

theorem not_mem_of_scanQuoted {quote c : Char} {text word after : List Char} (h : c ∉ text)
    (hscan : scanQuoted quote text = some (word, after)) : c ∉ word ∧ c ∉ after := by
  fun_induction scanQuoted quote text generalizing word with
  | case1 => contradiction
  | case2 => contradiction
  | case3 d rest _ ih =>
      obtain ⟨p, hp, heq⟩ := Option.map_eq_some_iff.mp hscan
      cases heq
      obtain ⟨_, h⟩ := List.ne_and_not_mem_of_not_mem_cons h
      obtain ⟨hd, hrest⟩ := List.ne_and_not_mem_of_not_mem_cons h
      obtain ⟨hword, hafter⟩ := ih hrest hp
      exact ⟨List.not_mem_cons_of_ne_of_not_mem hd hword, hafter⟩
  | case4 =>
      cases hscan
      exact ⟨List.not_mem_nil, List.not_mem_of_not_mem_cons h⟩
  | case5 => contradiction
  | case6 d rest _ _ _ ih =>
      obtain ⟨p, hp, heq⟩ := Option.map_eq_some_iff.mp hscan
      cases heq
      obtain ⟨hd, hrest⟩ := List.ne_and_not_mem_of_not_mem_cons h
      obtain ⟨hword, hafter⟩ := ih hrest hp
      exact ⟨List.not_mem_cons_of_ne_of_not_mem hd hword, hafter⟩

section

variable {text after : List Char} (h : '\n' ∉ text)

include h

theorem writable_of_readLabel {label : String} (hread : readLabel text = .ok (label, after)) :
    Writable label ∧ '\n' ∉ after := by
  have hscan := not_mem_scanLabel h
  unfold readLabel at hread
  split at hread
  · contradiction
  · next hne heq =>
    cases hread
    rw [heq] at hscan
    exact ⟨.ofList hne hscan.1, hscan.2⟩

theorem writable_of_readWord {word : String} (hread : readWord text = .ok (word, after)) :
    Writable word ∧ '\n' ∉ after := by
  unfold readWord at hread
  simp only at hread
  split at hread
  · contradiction
  · contradiction
  · next content _ hne hquoted =>
    cases hread
    have hscan : '\n' ∉ content ∧ '\n' ∉ after := by
      split at hquoted
      · exact not_mem_of_scanQuoted (List.not_mem_of_not_mem_cons h) hquoted
      · exact not_mem_of_scanQuoted (List.not_mem_of_not_mem_cons h) hquoted
      · contradiction
    exact ⟨.ofList hne hscan.1, hscan.2⟩

theorem not_mem_of_readNumber {prob : Binary64}
    (hread : readNumber text = .ok (prob, after)) : '\n' ∉ after := by
  unfold readNumber at hread
  simp only at hread
  split at hread
  · contradiction
  · next hscan =>
    cases hread
    split at hscan
    · exact fun hmem => h (List.mem_cons_of_mem _ ((Numeral.scan_suffix hscan).mem hmem))
    · exact fun hmem => h ((Numeral.scan_suffix hscan).mem hmem)

theorem not_mem_of_readProbability {prob : Binary64}
    (hread : readProbability text = .ok (prob, after)) : '\n' ∉ after := by
  obtain ⟨⟨number, unread⟩, hnumber, hread⟩ := bind_eq_ok_iff.mp hread
  have hrest := not_mem_trimStart (not_mem_of_readNumber (not_mem_trimStart h) hnumber)
  simp only at hread
  split at hread
  · next heq =>
    cases hread
    rw [heq] at hrest
    exact List.not_mem_of_not_mem_cons hrest
  · contradiction

/-- Labels and words can be written, and no line end is left behind a lexeme. -/
theorem writable_of_readLexeme {lexeme : Lexeme} (hread : readLexeme text = .ok (lexeme, after)) :
    lexeme.Writable ∧ '\n' ∉ after := by
  unfold readLexeme at hread
  split at hread <;> obtain ⟨p, hp, heq⟩ := map_eq_ok_iff.mp hread <;> cases heq
  · exact ⟨trivial, not_mem_of_readProbability (List.not_mem_of_not_mem_cons h) hp⟩
  · exact writable_of_readWord h hp
  · exact writable_of_readWord h hp
  · exact writable_of_readLabel h hp

end

/-! ### Alternatives -/

theorem not_mem_of_boundary_bar {text rest : List Char} (h : '\n' ∉ text)
    (hbar : boundary text = .bar rest) : '\n' ∉ rest := by
  have htrim := not_mem_trimStart h
  unfold boundary at hbar
  split at hbar
  · contradiction
  · next heq =>
    cases hbar
    rw [heq] at htrim
    exact List.not_mem_of_not_mem_cons htrim
  · contradiction

theorem not_mem_of_boundary_more {text other : List Char} (h : '\n' ∉ text)
    (hmore : boundary text = .more other) : '\n' ∉ other := by
  have htrim := not_mem_trimStart h
  unfold boundary at hmore
  split at hmore
  · contradiction
  · contradiction
  · cases hmore
    exact htrim

theorem writable_of_readBody {text : List Char} {a : Alternative} {next : Option (List Char)}
    (h : '\n' ∉ text) (hread : readBody text = .ok (a, next)) :
    (∀ x ∈ a.body, Writable x.name) ∧ ∀ rest ∈ next, '\n' ∉ rest := by
  fun_induction readBody text generalizing a with
  | case1 =>
      cases hread
      simp
  | case2 text rest hbar =>
      cases hread
      simpa using not_mem_of_boundary_bar h hbar
  | case3 => contradiction
  | case4 =>
      cases hread
      simp
  | case5 text other hmore prob after hlexeme rest hbar =>
      cases hread
      have hafter := (writable_of_readLexeme (not_mem_of_boundary_more h hmore) hlexeme).2
      simpa using not_mem_of_boundary_bar hafter hbar
  | case6 => contradiction
  | case7 text other hmore label after hlexeme ih =>
      obtain ⟨hlabel, hafter⟩ :=
        writable_of_readLexeme (not_mem_of_boundary_more h hmore) hlexeme
      obtain ⟨⟨b, next'⟩, hbody, heq⟩ := bind_eq_ok_iff.mp hread
      cases heq
      obtain ⟨hsymbols, hrest⟩ := ih hafter hbody
      exact ⟨List.forall_mem_cons.mpr ⟨hlabel, hsymbols⟩, hrest⟩
  | case8 text other hmore word after hlexeme ih =>
      obtain ⟨hword, hafter⟩ :=
        writable_of_readLexeme (not_mem_of_boundary_more h hmore) hlexeme
      obtain ⟨⟨b, next'⟩, hbody, heq⟩ := bind_eq_ok_iff.mp hread
      cases heq
      obtain ⟨hsymbols, hrest⟩ := ih hafter hbody
      exact ⟨List.forall_mem_cons.mpr ⟨hword, hsymbols⟩, hrest⟩

theorem writable_of_readAlternative {text : List Char} {a : Alternative}
    {next : Option (List Char)} (h : '\n' ∉ text) (hread : readAlternative text = .ok (a, next)) :
    (∀ x ∈ a.body, Writable x.name) ∧ ∀ rest ∈ next, '\n' ∉ rest := by
  obtain ⟨⟨b, next'⟩, hbody, heq⟩ := bind_eq_ok_iff.mp hread
  simp only at heq
  split at heq
  · contradiction
  · cases heq
    exact writable_of_readBody h hbody

theorem writable_of_readAlternatives {text : List Char} {as : List Alternative}
    (h : '\n' ∉ text) (hread : readAlternatives text = .ok as) :
    ∀ a ∈ as, ∀ x ∈ a.body, Writable x.name := by
  fun_induction readAlternatives text generalizing as with
  | case1 => contradiction
  | case2 text a ha =>
      cases hread
      simpa using (writable_of_readAlternative h ha).1
  | case3 text a rest ha ih =>
      obtain ⟨hsymbols, hrest⟩ := writable_of_readAlternative h ha
      obtain ⟨others, hothers, heq⟩ := bind_eq_ok_iff.mp hread
      cases heq
      exact List.forall_mem_cons.mpr ⟨hsymbols, ih (hrest rest rfl) hothers⟩

/-! ### Lines -/

theorem not_mem_of_splitArrow {c : Char} {line before after : List Char} (h : c ∉ line)
    (hsplit : splitArrow line = some (before, after)) : c ∉ before ∧ c ∉ after := by
  fun_induction splitArrow line generalizing before with
  | case1 => contradiction
  | case2 rest =>
      cases hsplit
      simp_all
  | case3 d rest _ ih =>
      obtain ⟨p, hp, heq⟩ := Option.map_eq_some_iff.mp hsplit
      cases heq
      obtain ⟨hd, hrest⟩ := List.ne_and_not_mem_of_not_mem_cons h
      obtain ⟨hbefore, hafter⟩ := ih hrest hp
      exact ⟨List.not_mem_cons_of_ne_of_not_mem hd hbefore, hafter⟩

theorem writable_of_readRules {line : List Char} {rules : List Rule} (h : '\n' ∉ line)
    (hread : readRules line = .ok rules) : ∀ r ∈ rules, r.Writable := by
  unfold readRules at hread
  split at hread
  · contradiction
  · next before after hsplit =>
    obtain ⟨hbefore, hafter⟩ := not_mem_of_splitArrow h hsplit
    simp only at hread
    split at hread
    · contradiction
    · next head rest hhead =>
      split at hread
      · obtain ⟨as, has, heq⟩ := bind_eq_ok_iff.mp hread
        cases heq
        intro r hr
        obtain ⟨a, ha, rfl⟩ := List.mem_map.mp hr
        exact ⟨(writable_of_readLabel (not_mem_trimStart hbefore) hhead).1,
          writable_of_readAlternatives hafter has a ha⟩
      · contradiction

theorem writable_of_readStart {directive : List Char} {label : String} (h : '\n' ∉ directive)
    (hread : readStart directive = .ok label) : Writable label := by
  unfold readStart at hread
  split at hread
  · contradiction
  · next hlabel =>
    split at hread
    · cases hread
      exact (writable_of_readLabel (not_mem_trimStart h) hlabel).1
    · contradiction

/-- The symbols of a draft can be written. -/
structure Draft.Writable (draft : Draft) : Prop where
  rules : ∀ r ∈ draft.rules, r.Writable
  start : ∀ label ∈ draft.start, ChartParser.Writable label

theorem writable_of_readLine {line : List Char} {draft : Draft} (h : '\n' ∉ line)
    (hread : readLine line = .ok draft) : draft.Writable := by
  have htrim : '\n' ∉ trim line := fun hmem => h (mem_of_mem_trim hmem)
  unfold readLine at hread
  split at hread
  · cases hread
    exact ⟨by simp, by simp⟩
  · cases hread
    exact ⟨by simp, by simp⟩
  · next directive hline =>
    obtain ⟨label, hlabel, heq⟩ := map_eq_ok_iff.mp hread
    cases heq
    rw [hline] at htrim
    have hdirective : '\n' ∉ directive := by simp_all
    exact ⟨by simp, by simpa using writable_of_readStart hdirective hlabel⟩
  · obtain ⟨rules, hrules, heq⟩ := map_eq_ok_iff.mp hread
    cases heq
    exact ⟨writable_of_readRules htrim hrules, by simp⟩

theorem Draft.Writable.append {a b : Draft} (ha : a.Writable) (hb : b.Writable) :
    (a ++ b).Writable where
  rules := List.forall_mem_append.mpr ⟨ha.rules, hb.rules⟩
  start := by
    intro label hlabel
    rcases Option.or_eq_some_iff.mp hlabel with hstart | ⟨_, hstart⟩
    · exact hb.start label hstart
    · exact ha.start label hstart

theorem writable_of_readLines {n : Nat} {ls : List (List Char)} {draft : Draft}
    (h : ∀ l ∈ ls, '\n' ∉ l) (hread : readLines n ls = .ok draft) : draft.Writable := by
  induction ls generalizing n draft with
  | nil =>
      cases hread
      exact ⟨by simp, by simp⟩
  | cons l ls ih =>
      obtain ⟨hl, hls⟩ := List.forall_mem_cons.mp h
      unfold readLines at hread
      split at hread
      · contradiction
      · next first hfirst =>
        obtain ⟨others, hothers, rfl⟩ := map_eq_ok_iff.mp hread
        exact (writable_of_readLine hl hfirst).append (ih hls hothers)

theorem writable_of_read {text : List Char} {draft : Draft} (h : read text = .ok draft) :
    draft.Writable :=
  writable_of_readLines (fun _ => not_mem_of_mem_lines) h

theorem Draft.Writable.startSymbol {draft : Draft} (h : draft.Writable)
    (hrules : draft.rules ≠ []) : ChartParser.Writable draft.startSymbol := by
  obtain ⟨rules, start⟩ := draft
  cases start with
  | some label => exact h.start label rfl
  | none =>
      cases rules with
      | nil => exact absurd rfl hrules
      | cons r rules => exact (h.rules r (List.mem_cons_self ..)).head

end GrammarText

/-- Every grammar that was read can be written. -/
theorem Grammar.writable_of_ofText {text : List Char} {g : Grammar} (h : ofText text = .ok g) :
    g.Writable := by
  obtain ⟨draft, hread, hrules, hstart⟩ := ofText_eq_ok_iff.mp h
  have hdraft := GrammarText.writable_of_read hread
  have hne : draft.rules ≠ [] := hrules ▸ g.rules_ne_nil
  exact ⟨hstart ▸ hdraft.startSymbol hne, hrules ▸ hdraft.rules⟩

end ChartParser
