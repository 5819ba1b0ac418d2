import ChartParser.Proofs.Text.Prefix
import ChartParser.Proofs.Text.Tokens

/-! # Words between blanks

The tokens of a sentence stand in it one after another, and only blanks are left out. A word never
reaches across a blank, so a sentence may be cut at its blanks first and every field be split on its
own. -/

namespace ChartParser

namespace Text

variable {c : Char} {s t : List Char} {tokens : List (List Char)}

/-- `Slices s tokens` says that the tokens stand in the text in this order, none of them empty or
with a blank in it, and that every character outside of them is blank. -/
inductive Slices : List Char → List (List Char) → Prop where
  | nil : Slices [] []
  | blank {c : Char} {s : List Char} {tokens : List (List Char)} (isBlank : isBlank c = true)
      (tail : Slices s tokens) : Slices (c :: s) tokens
  | token {token s : List Char} {tokens : List (List Char)} (ne_nil : token ≠ [])
      (blankless : Blankless token) (tail : Slices s tokens) :
      Slices (token ++ s) (token :: tokens)

theorem filter_of_blankless (h : Blankless s) : s.filter (fun c => !isBlank c) = s := by
  apply List.filter_eq_self.mpr
  intro c hc
  simp [h c hc]

/-- Put together, the tokens are the text without its blanks. -/
theorem Slices.flatten_eq (h : Slices s tokens) :
    tokens.flatten = s.filter (fun c => !isBlank c) := by
  induction h with
  | nil => rfl
  | blank hblank _ ih => rw [ih, List.filter_cons_of_neg (by simp [hblank])]
  | token _ hblankless _ ih =>
      rw [List.flatten_cons, ih, List.filter_append, filter_of_blankless hblankless]

/-! ### Fields -/

theorem pushField_nil (fields : List (List Char)) : pushField [] fields = fields := rfl

theorem pushField_of_ne_nil {run : List Char} (h : run ≠ []) (fields : List (List Char)) :
    pushField run fields = run :: fields := by
  rw [pushField, if_neg (by simpa using h)]

/-- A blank ends the run of characters before it. -/
theorem foldr_extendFields_append (hc : isBlank c = true) (s t : List Char) :
    (s ++ c :: t).foldr extendFields ([], []) =
      ((s.foldr extendFields ([], [])).1, (s.foldr extendFields ([], [])).2 ++ fields t) := by
  induction s with
  | nil =>
      rw [List.nil_append, List.foldr_cons, extendFields, if_pos hc]
      rfl
  | cons d s ih =>
      rw [List.cons_append, List.foldr_cons, ih, List.foldr_cons]
      by_cases hd : isBlank d = true
      · by_cases hrun : (s.foldr extendFields ([], [])).1 = []
        · simp [extendFields, hd, hrun, pushField_nil]
        · simp [extendFields, hd, pushField_of_ne_nil hrun]
      · simp [extendFields, hd]

/-- The fields on both sides of a blank are found apart. -/
theorem fields_append_blank (hc : isBlank c = true) (s t : List Char) :
    fields (s ++ c :: t) = fields s ++ fields t := by
  unfold fields
  simp only [foldr_extendFields_append hc]
  by_cases hrun : (s.foldr extendFields ([], [])).1 = []
  · rw [hrun, pushField_nil, pushField_nil]
    rfl
  · rw [pushField_of_ne_nil hrun, pushField_of_ne_nil hrun]
    rfl

theorem fields_of_blankless (hne : s ≠ []) (h : Blankless s) : fields s = [s] := by
  have hfold : s.foldr extendFields ([], []) = (s, []) := by
    clear hne
    induction s with
    | nil => rfl
    | cons c s ih =>
        obtain ⟨hc, hs⟩ := List.forall_mem_cons.mp h
        rw [List.foldr_cons, ih hs, extendFields, if_neg (by simp [hc])]
  rw [fields, hfold]
  exact pushField_of_ne_nil hne []

/-- Induction along the blanks of a text: it has none, or else the text behind its first one is
shorter. -/
@[elab_as_elim]
theorem blank_induction {motive : List Char → Prop} (blankless : ∀ s, Blankless s → motive s)
    (blank : ∀ s c t, Blankless s → isBlank c = true → motive t → motive (s ++ c :: t))
    (s : List Char) : motive s := by
  -- the characters before the first blank are collected one by one
  suffices h : ∀ t run, Blankless run → motive (run ++ t) from h s [] (by simp [Blankless])
  intro t
  induction t with
  | nil =>
      intro run hrun
      rw [List.append_nil]
      exact blankless run hrun
  | cons c t ih =>
      intro run hrun
      by_cases hc : isBlank c = true
      · exact blank run c t hrun hc (ih [] (by simp [Blankless]))
      · have hextended : Blankless (run ++ [c]) :=
          List.forall_mem_append.mpr ⟨hrun, List.forall_mem_singleton.mpr (by simpa using hc)⟩
        simpa using ih (run ++ [c]) hextended

/-- A text without a blank is a slice of itself. -/
theorem slices_fields_append {s t : List Char} {tokens : List (List Char)} (hs : Blankless s)
    (ht : Slices t tokens) : Slices (s ++ t) (fields s ++ tokens) := by
  by_cases hne : s = []
  · rw [hne]
    exact ht
  · rw [fields_of_blankless hne hs]
    exact .token hne hs ht

/-- The fields of a text are slices of it, and only blanks are left out. -/
theorem slices_fields (s : List Char) : Slices s (fields s) := by
  induction s using blank_induction with
  | blankless s hs => simpa using slices_fields_append hs .nil
  | blank s c t hs hc ih =>
      rw [fields_append_blank hc]
      exact slices_fields_append hs (.blank hc ih)

end Text

namespace Tokenizer

open Text (Blankless Slices isBlank isWordChar)

variable {c : Char}

/-! ### Words -/

theorem scanWord_append (text : List Char) : (scanWord text).1 ++ (scanWord text).2 = text := by
  fun_induction scanWord text with
  | case1 => rfl
  | case2 c rest _ word after hscan ih =>
      rw [hscan] at ih
      rw [List.cons_append, ih]
  | case3 => rfl

/-- The words of a text are slices of it, and only blanks are left out. -/
theorem slices_splitWords (text : List Char) : Slices text (splitWords text) := by
  fun_induction splitWords text with
  | case1 => exact .nil
  | case2 c rest hc scanned ih =>
      have hword : Blankless (c :: scanned.1) :=
        List.forall_mem_cons.mpr ⟨Text.isBlank_of_isWordChar hc, blankless_scanWord rest⟩
      have hslices := Slices.token (List.cons_ne_nil _ _) hword ih
      rwa [List.cons_append, scanWord_append] at hslices
  | case3 c rest _ hblank ih => exact .blank hblank ih
  | case4 rest _ hblank ih =>
      have hclitic : Blankless ('\'' :: rest.takeWhile isWordChar) := by
        refine List.forall_mem_cons.mpr ⟨by simpa using hblank, fun c hc => ?_⟩
        exact Text.isBlank_of_isWordChar (List.mem_takeWhile_imp hc)
      have hslices := Slices.token (List.cons_ne_nil _ _) hclitic ih
      rwa [List.cons_append, List.takeWhile_append_dropWhile] at hslices
  | case5 c rest _ hblank _ ih =>
      have hmark : Blankless [c] := List.forall_mem_singleton.mpr (by simpa using hblank)
      exact .token (List.cons_ne_nil _ _) hmark ih

theorem isWordChar_of_isBlank (hc : isBlank c = true) : isWordChar c = false := by
  refine Bool.eq_false_iff.mpr fun hword => ?_
  rw [Text.isBlank_of_isWordChar hword] at hc
  contradiction

/-- A blank is no part of a word, and no joint leads across it. -/
theorem scanWord_append_blank (hc : isBlank c = true) (text rest : List Char) :
    scanWord (text ++ c :: rest) = ((scanWord text).1, (scanWord text).2 ++ c :: rest) := by
  have hword := isWordChar_of_isBlank hc
  have hjoint : isJoint c = false := by
    refine Bool.eq_false_iff.mpr fun hjoint => ?_
    simp only [isJoint, Bool.or_eq_true, beq_iff_eq] at hjoint
    rcases hjoint with rfl | rfl
    · exact absurd hc (by decide)
    · exact absurd hc (by decide)
  induction text with
  | nil => simp [scanWord, hword, hjoint]
  | cons d text ih =>
      have hhead : ((text ++ c :: rest).head?.map isWordChar).getD false =
          (text.head?.map isWordChar).getD false := by
        cases text with
        | nil => simp [hword]
        | cons e text => rfl
      rw [List.cons_append, scanWord, hhead, scanWord, ih]
      split
      · rfl
      · rfl

theorem splitWords_append_blank (hc : isBlank c = true) (text rest : List Char) :
    splitWords (text ++ c :: rest) = splitWords text ++ splitWords rest := by
  have hword := isWordChar_of_isBlank hc
  fun_induction splitWords text with
  | case1 => simp [splitWords, hword, hc]
  | case2 d text hd scanned ih =>
      rw [List.cons_append, splitWords, if_pos hd, scanWord_append_blank hc]
      simp only [List.cons_append, ← ih]
      rfl
  | case3 d text hd hblank ih =>
      rw [List.cons_append, splitWords, if_neg hd, if_pos hblank, ih]
  | case4 text hd hblank ih =>
      rw [List.cons_append, splitWords, if_neg hd, if_neg hblank, if_pos rfl,
        Text.takeWhile_append_cons hword, Text.dropWhile_append_cons hword, ih]
      rfl
  | case5 d text hd hblank hclitic ih =>
      rw [List.cons_append, splitWords, if_neg hd, if_neg hblank, if_neg hclitic, ih]
      rfl

/-- Words are found field by field. -/
theorem splitWords_eq_flatMap (s : List Char) :
    splitWords s = (Text.fields s).flatMap splitWords := by
  have hrun : ∀ s : List Char, Blankless s → splitWords s = (Text.fields s).flatMap splitWords := by
    intro s hs
    by_cases hne : s = []
    · rw [hne, splitWords]
      rfl
    · rw [Text.fields_of_blankless hne hs, List.flatMap_singleton]
  induction s using Text.blank_induction with
  | blankless s hs => exact hrun s hs
  | blank s c t hs hc ih =>
      rw [splitWords_append_blank hc, Text.fields_append_blank hc, List.flatMap_append, ← ih,
        ← hrun s hs]

theorem map_toList_tokenize (sentence : String) :
    (words.tokenize sentence).map String.toList = splitWords sentence.toList ∧
      (blanks.tokenize sentence).map String.toList = Text.fields sentence.toList := by
  constructor
  · rw [tokenize, List.map_map]
    simp [Function.comp_def]
  · rw [tokenize, List.map_map]
    simp [Function.comp_def]

/-- Splitting a sentence into words leaves out its blanks and nothing else, and never looks across
one: the tokens are slices of the sentence, together they are the sentence without its blanks, as
the fields are, and they are the words of the fields, one field after another. -/
theorem tokenize_words_spec (sentence : String) :
    Slices sentence.toList ((words.tokenize sentence).map String.toList) ∧
      String.join (words.tokenize sentence) =
        String.ofList (sentence.toList.filter fun c => !isBlank c) ∧
      String.join (words.tokenize sentence) = String.join (blanks.tokenize sentence) ∧
      words.tokenize sentence = (blanks.tokenize sentence).flatMap words.tokenize := by
  obtain ⟨hwords, hfields⟩ := map_toList_tokenize sentence
  have hslices := slices_splitWords sentence.toList
  have hwordsJoin : (String.join (words.tokenize sentence)).toList =
      sentence.toList.filter fun c => !isBlank c := by
    rw [String.toList_join, List.flatMap_def, hwords, hslices.flatten_eq]
  have hfieldsJoin : (String.join (blanks.tokenize sentence)).toList =
      sentence.toList.filter fun c => !isBlank c := by
    rw [String.toList_join, List.flatMap_def, hfields,
      (Text.slices_fields sentence.toList).flatten_eq]
  refine ⟨?_, ?_, ?_, ?_⟩
  · rw [hwords]
    exact hslices
  · rw [← hwordsJoin, String.ofList_toList]
  · rw [← String.toList_inj, hwordsJoin, hfieldsJoin]
  · rw [tokenize, tokenize, splitWords_eq_flatMap, List.map_flatMap, List.flatMap_map]
    simp only [tokenize, String.toList_ofList]

end Tokenizer

end ChartParser
