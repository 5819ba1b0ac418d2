import ChartParser.Proofs.Batch.Alignment
import ChartParser.Proofs.Text.Stability
import ChartParser.Proofs.Text.Utf8

/-! # Tokenized sentences

A sentence may be split into words beforehand: the line of its tokens, with spaces between them, is
parsed as the sentence itself, and splitting at blanks will do for it. -/

namespace ChartParser

open Text (encodeUtf8 decodeUtf8)

/-! ### Carriage returns -/

/-- A carriage return at the end of a sentence is in no token. -/
theorem Tokenizer.tokenize_append_return (tokenizer : Tokenizer) (sentence : String) :
    tokenizer.tokenize (sentence ++ "\r") = tokenizer.tokenize sentence := by
  have hreturn : Text.isBlank '\r' = true := by decide
  have hlist : (sentence ++ "\r").toList = sentence.toList ++ '\r' :: [] := String.toList_append
  cases tokenizer with
  | words => simp only [tokenize, hlist, splitWords_append_blank hreturn, splitWords_nil,
      List.append_nil]
  | blanks => simp only [tokenize, hlist, Text.fields_append_blank hreturn, Text.fields_nil,
      List.append_nil]

namespace Batch

variable {g : Grammar}

/-- The bytes of a line that has lost its carriage return are those of its sentence. -/
theorem exists_withoutReturn_encodeUtf8 (sentence : String) :
    ∃ s, withoutReturn (encodeUtf8 sentence) = encodeUtf8 s ∧
      (sentence = s ∨ sentence = s ++ "\r") := by
  unfold withoutReturn
  split
  · next hlast =>
    have hreturn : sentence.toList.getLast? = some '\r' :=
      Text.getLast?_of_getLast?_encodeUtf8 (by decide) hlast
    obtain ⟨initial, hinitial⟩ := List.getLast?_eq_some_iff.mp hreturn
    have hsentence : sentence = String.ofList initial ++ "\r" := by
      rw [← String.toList_inj, hinitial, String.toList_append, String.toList_ofList]
      rfl
    have hbyte : encodeUtf8 "\r" = [13] := by decide
    refine ⟨String.ofList initial, ?_, .inr hsentence⟩
    rw [hsentence, Text.encodeUtf8_append, hbyte, List.dropLast_concat]
  · exact ⟨sentence, rfl, .inl rfl⟩

/-! ### One sentence -/

/-- What is parsed of a line is what its sentence is split into. -/
theorem exists_decodeUtf8 (sentence : String) :
    ∃ s, decodeUtf8 (withoutLineEnd (encodeUtf8 sentence ++ [10])) = some s ∧
      ∀ tokenizer : Tokenizer, tokenizer.tokenize s = tokenizer.tokenize sentence := by
  obtain ⟨s, hbytes, hsentence⟩ := exists_withoutReturn_encodeUtf8 sentence
  refine ⟨s, ?_, fun tokenizer => ?_⟩
  · rw [withoutLineEnd_append]
    exact Text.decodeUtf8_eq_some_iff.mpr hbytes
  · rcases hsentence with rfl | rfl
    · rfl
    · exact (tokenizer.tokenize_append_return s).symm

/-- A line is parsed by its tokens. -/
theorem parseLine_congr {first second : Tokenizer} {s t : String}
    (h : first.tokenize s = second.tokenize t) (number : Int32) :
    parseLine g first number (encodeUtf8 s ++ [10]) =
      parseLine g second number (encodeUtf8 t ++ [10]) := by
  obtain ⟨s', hs, hfirst⟩ := exists_decodeUtf8 s
  obtain ⟨t', ht, hsecond⟩ := exists_decodeUtf8 t
  rw [parseLine, parseLine, hs, ht]
  simp only [hfirst, hsecond, h]

theorem not_mem_encodeUtf8 {sentence : String} (h : '\n' ∉ sentence.toList) :
    10 ∉ encodeUtf8 sentence :=
  fun hmem => h (Text.mem_of_mem_encodeUtf8 (by decide) hmem)

theorem run_congr {first second : Tokenizer} {s t : String} (hs : '\n' ∉ s.toList)
    (ht : '\n' ∉ t.toList) (h : first.tokenize s = second.tokenize t) (bareLabels : Bool) :
    run g ⟨first, bareLabels⟩ (encodeUtf8 (s ++ "\n")) =
      run g ⟨second, bareLabels⟩ (encodeUtf8 (t ++ "\n")) := by
  have hpieces : ∀ {u : String}, '\n' ∉ u.toList →
      Text.pieces 10 (encodeUtf8 (u ++ "\n")) = [encodeUtf8 u ++ [10]] := fun hu => by
    rw [Text.encodeUtf8_append]
    exact Text.pieces_append (not_mem_encodeUtf8 hu) []
  simp only [run, hpieces hs, hpieces ht, List.zipIdx_singleton, List.map_cons, List.map_nil,
    parseLine_congr h]

/-- The words of a sentence, with spaces between them, are split into themselves, be it as words or
at blanks. So the line of the tokens is parsed, counted and reported on as the sentence is. -/
theorem run_intercalate_tokenize (sentence : String) :
    let tokens := Tokenizer.words.tokenize sentence
    let line := " ".intercalate tokens
    (∀ tokenizer : Tokenizer, tokenizer.tokenize line = tokens) ∧
      ('\n' ∉ sentence.toList → ∀ (g : Grammar) (tokenizer : Tokenizer) (bareLabels : Bool),
        run g ⟨tokenizer, bareLabels⟩ (encodeUtf8 (line ++ "\n")) =
          run g ⟨.words, bareLabels⟩ (encodeUtf8 (sentence ++ "\n"))) := by
  intro tokens line
  have htokens : ∀ tokenizer : Tokenizer, tokenizer.tokenize line = tokens := fun tokenizer =>
    tokenizer.tokenize_intercalate sentence
  have hline : '\n' ∉ line.toList := Tokenizer.words.not_mem_intercalate sentence
  exact ⟨htokens, fun hsentence g tokenizer bareLabels =>
    run_congr hline hsentence (htokens tokenizer) bareLabels⟩

/-- A clitic, a word with both joints in it, and a joint that ends a word before the carriage
return. -/
theorem run_intercalate_tokenize_clitic :
    let tokens := ["x", "'x", "x-x.x", "."]
    '\n' ∉ "x'x\tx-x.x.\r".toList ∧
      Tokenizer.words.tokenize "x'x\tx-x.x.\r" = tokens ∧
      Tokenizer.words.tokenize "x 'x x-x.x ." = tokens ∧
      Tokenizer.blanks.tokenize "x 'x x-x.x ." = tokens ∧
      run Grammar.doubling ⟨.blanks, false⟩ (encodeUtf8 "x 'x x-x.x .\n") =
        run Grammar.doubling ⟨.words, false⟩ (encodeUtf8 "x'x\tx-x.x.\r\n") := by
  have hsentence : '\n' ∉ "x'x\tx-x.x.\r".toList := by decide
  have htokens : Tokenizer.words.tokenize "x'x\tx-x.x.\r" = ["x", "'x", "x-x.x", "."] := by
    decide +kernel
  have hline : " ".intercalate ["x", "'x", "x-x.x", "."] = "x 'x x-x.x ." := by decide
  obtain ⟨hsplit, hrun⟩ := run_intercalate_tokenize "x'x\tx-x.x.\r"
  rw [htokens, hline] at hsplit hrun
  exact ⟨hsentence, htokens, hsplit .words, hsplit .blanks,
    hrun hsentence Grammar.doubling .blanks false⟩

end Batch

end ChartParser
