import ChartParser.Proofs.Text.Words

/-! # Tokens are stable

A token was cut out of a sentence by a greedy scan, and what followed it there is gone when it
stands alone. The scan takes it whole again, so tokens with blanks between them are split into
themselves. -/

namespace ChartParser

namespace Text

variable {s : List Char} {tokens : List (List Char)}

theorem Slices.token_mem (h : Slices s tokens) :
    ∀ token ∈ tokens, token ≠ [] ∧ Blankless token := by
  induction h with
  | nil => simp
  | blank _ _ ih => exact ih
  | token hne hblankless _ ih => exact List.forall_mem_cons.mpr ⟨⟨hne, hblankless⟩, ih⟩

theorem mem_of_mem_intercalate {separator : List Char} {c : Char}
    (h : c ∈ separator.intercalate tokens) : c ∈ separator ∨ ∃ token ∈ tokens, c ∈ token := by
  induction tokens with
  | nil => simp at h
  | cons token tokens ih =>
      cases tokens with
      | nil => exact .inr ⟨token, by simp, by simpa using h⟩
      | cons next tokens =>
          rw [List.intercalate_cons_cons, List.append_assoc, List.mem_append, List.mem_append] at h
          rcases h with h | h | h
          · exact .inr ⟨token, by simp, h⟩
          · exact .inl h
          · refine (ih h).imp_right ?_
            rintro ⟨other, hother, hmem⟩
            exact ⟨other, List.mem_cons_of_mem token hother, hmem⟩

@[simp] theorem fields_nil : fields [] = [] := rfl

/-- Fields that are joined by spaces are found again. -/
theorem fields_intercalate (h : ∀ token ∈ tokens, token ≠ [] ∧ Blankless token) :
    fields ([' '].intercalate tokens) = tokens := by
  induction tokens with
  | nil => rfl
  | cons token tokens ih =>
      obtain ⟨⟨hne, hblankless⟩, htokens⟩ := List.forall_mem_cons.mp h
      have htoken : fields token = [token] := fields_of_blankless hne hblankless
      cases tokens with
      | nil => simpa using htoken
      | cons next tokens =>
          rw [List.intercalate_cons_cons, List.append_assoc, List.singleton_append,
            fields_append_blank (by decide), htoken, ih htokens, List.singleton_append]

end Text

namespace Tokenizer

open Text (isBlank isWordChar)

/-- A scanned word does not change the test that the scan makes at its next character. -/
theorem head?_scanWord (text : List Char) :
    ((scanWord text).1.head?.map isWordChar).getD false =
      (text.head?.map isWordChar).getD false := by
  cases text with
  | nil => rfl
  | cons c text =>
      rw [scanWord]
      by_cases hc : isWordChar c = true
      · simp [hc]
      · split
        · rfl
        · simpa using hc

theorem scanWord_scanWord (text : List Char) :
    scanWord (scanWord text).1 = ((scanWord text).1, []) := by
  induction text with
  | nil => rfl
  | cons c text ih =>
      rw [scanWord]
      split
      · next hc =>
        rw [← head?_scanWord] at hc
        simp [scanWord, hc, ih]
      · rfl

@[simp] theorem splitWords_nil : splitWords [] = [] := by rw [splitWords]

/-- A token of its own is one token. -/
theorem splitWords_of_mem_splitWords {text token : List Char} (h : token ∈ splitWords text) :
    splitWords token = [token] := by
  fun_induction splitWords text with
  | case1 => contradiction
  | case2 c rest hc scanned ih =>
      rcases List.mem_cons.mp h with rfl | h
      · rw [splitWords, if_pos hc, scanWord_scanWord]
        simp [scanned]
      · exact ih h
  | case3 c rest _ _ ih => exact ih h
  | case4 rest hword hblank ih =>
      rcases List.mem_cons.mp h with rfl | h
      · rw [splitWords, if_neg hword, if_neg hblank, if_pos rfl]
        have hrest : (rest.takeWhile isWordChar).dropWhile isWordChar = [] :=
          List.dropWhile_eq_nil_iff.mpr fun c hc => List.mem_takeWhile_imp hc
        rw [List.takeWhile_idem, hrest, splitWords_nil]
      · exact ih h
  | case5 c rest hword hblank hclitic ih =>
      rcases List.mem_cons.mp h with rfl | h
      · rw [splitWords, if_neg hword, if_neg hblank, if_neg hclitic, splitWords_nil]
      · exact ih h

/-- However they are split, words with spaces between them are split into themselves. -/
theorem tokenize_intercalate (tokenizer : Tokenizer) (sentence : String) :
    tokenizer.tokenize (" ".intercalate (words.tokenize sentence)) = words.tokenize sentence := by
  have hline : (" ".intercalate (words.tokenize sentence)).toList =
      [' '].intercalate (splitWords sentence.toList) := by
    rw [String.toList_intercalate, (map_toList_tokenize sentence).1]
    rfl
  have hfields : Text.fields ([' '].intercalate (splitWords sentence.toList)) =
      splitWords sentence.toList :=
    Text.fields_intercalate (slices_splitWords sentence.toList).token_mem
  cases tokenizer with
  | words =>
      have hwords : (splitWords sentence.toList).map splitWords =
          (splitWords sentence.toList).map fun token => [token] :=
        List.map_congr_left fun token => splitWords_of_mem_splitWords
      change (splitWords (" ".intercalate (words.tokenize sentence)).toList).map String.ofList = _
      rw [hline, splitWords_eq_flatMap, hfields, List.flatMap_def, hwords, ← List.flatMap_def,
        List.flatMap_singleton', tokenize]
  | blanks =>
      change (Text.fields (" ".intercalate (words.tokenize sentence)).toList).map String.ofList = _
      rw [hline, hfields, tokenize]

/-- Tokens with spaces between them make no line end. -/
theorem not_mem_intercalate (tokenizer : Tokenizer) (sentence : String) :
    '\n' ∉ (" ".intercalate (tokenizer.tokenize sentence)).toList := by
  intro h
  rw [String.toList_intercalate] at h
  rcases Text.mem_of_mem_intercalate h with h | ⟨text, htext, h⟩
  · exact absurd h (by decide)
  · obtain ⟨token, htoken, rfl⟩ := List.mem_map.mp htext
    exact absurd (blankless_of_mem_tokenize htoken '\n' h) (by decide)

end Tokenizer

end ChartParser
