import ChartParser.Proofs.Text.Prefix
import ChartParser.Proofs.Treebank.Atoms

/-! # The tokens of a text

What it means that a text is made of certain tokens, said without scanning it: blanks separate, and
an atom goes on as far as it can. The scanner finds the tokens of every text, and no text is made of
tokens in two ways. -/

namespace ChartParser.Treebank

/-- `Spells text ts` says that the text is made of the tokens `ts` with blanks between them. -/
inductive Spells : List Char → List Token → Prop where
  | nil : Spells [] []
  | blank {c : Char} {rest : List Char} {ts : List Token} (isBlank : Text.isBlank c = true)
      (tail : Spells rest ts) : Spells (c :: rest) ts
  | opening {rest : List Char} {ts : List Token} (tail : Spells rest ts) :
      Spells ('(' :: rest) (.opening :: ts)
  | closing {rest : List Char} {ts : List Token} (tail : Spells rest ts) :
      Spells (')' :: rest) (.closing :: ts)
  | atom {text rest : List Char} {ts : List Token} (ne_nil : text ≠ [])
      (chars : ∀ c ∈ text, isAtomChar c = true)
      (maximal : ∀ c ∈ rest.head?, isAtomChar c = false) (tail : Spells rest ts) :
      Spells (text ++ rest) (.atom text :: ts)

/-! ### Atom characters -/

theorem isAtomChar_eq_true_iff {c : Char} :
    isAtomChar c = true ↔ Text.isBlank c = false ∧ c ≠ '(' ∧ c ≠ ')' := by
  simp [isAtomChar, and_assoc]

/-! ### The scanner -/

/-- The scanner finds what the text is made of. -/
theorem spells_tokens (text : List Char) : Spells text ((tokens text).map Prod.fst) := by
  fun_induction tokens text with
  | case1 => exact .nil
  | case2 c rest hblank ih => exact .blank hblank ih
  | case3 rest hblank ih => exact .opening ih
  | case4 rest hblank hopening ih => exact .closing ih
  | case5 c rest hblank hopening hclosing ih =>
      have hc : isAtomChar c = true :=
        isAtomChar_eq_true_iff.mpr ⟨by simpa using hblank, hopening, hclosing⟩
      have hchars : ∀ d ∈ c :: rest.takeWhile isAtomChar, isAtomChar d = true :=
        List.forall_mem_cons.mpr ⟨hc, List.all_eq_true.mp List.all_takeWhile⟩
      have hatom := Spells.atom (List.cons_ne_nil _ _) hchars Text.not_of_mem_head?_dropWhile ih
      rwa [List.cons_append, List.takeWhile_append_dropWhile] at hatom

/-- What the text is made of is found by the scanner. -/
theorem Spells.tokens_eq {text : List Char} {ts : List Token} (h : Spells text ts) :
    (tokens text).map Prod.fst = ts := by
  induction h with
  | nil => rw [tokens, List.map_nil]
  | blank hblank _ ih => rw [tokens, if_pos hblank, ih]
  | opening _ ih =>
      rw [tokens, if_neg (by decide), if_pos rfl, List.map_cons, ih]
  | closing _ ih =>
      rw [tokens, if_neg (by decide), if_neg (by decide), if_pos rfl, List.map_cons, ih]
  | @atom text rest ts hne hchars hmaximal _ ih =>
      obtain ⟨c, text, rfl⟩ := List.exists_cons_of_ne_nil hne
      obtain ⟨hc, htext⟩ := List.forall_mem_cons.mp hchars
      obtain ⟨hblank, hopening, hclosing⟩ := isAtomChar_eq_true_iff.mp hc
      rw [List.cons_append, tokens, if_neg (by simp [hblank]), if_neg hopening, if_neg hclosing,
        Text.takeWhile_append_of_head htext hmaximal, Text.dropWhile_append_of_head htext hmaximal,
        List.map_cons, ih]

theorem spells_iff {text : List Char} {ts : List Token} :
    Spells text ts ↔ (tokens text).map Prod.fst = ts := by
  constructor
  · exact Spells.tokens_eq
  · rintro rfl
    exact spells_tokens text

end ChartParser.Treebank
