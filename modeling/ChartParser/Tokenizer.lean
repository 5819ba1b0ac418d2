import ChartParser.Text.WordChar

/-! Splitting a sentence into the tokens that a grammar's words are matched against. -/

namespace ChartParser

/-- How a sentence is split: into words, clitics and punctuation marks, or only at blanks. -/
inductive Tokenizer where
  | words
  | blanks
deriving DecidableEq

namespace Tokenizer

/-- Marks that join two words into one. -/
def isJoint (c : Char) : Bool := c == '-' || c == '.'

/-- The rest of a word after its first character: word characters, and single joints with a word
character after them. Gives that rest and the text after the word. -/
def scanWord : List Char → List Char × List Char
  | [] => ([], [])
  | c :: rest =>
      if Text.isWordChar c || isJoint c && (rest.head?.map Text.isWordChar).getD false then
        let (word, after) := scanWord rest
        (c :: word, after)
      else ([], c :: rest)

theorem length_scanWord (text : List Char) : (scanWord text).2.length ≤ text.length := by
  fun_induction scanWord text with
  | case1 => exact Nat.le_refl _
  | case2 c rest _ word after hs ih =>
      rw [hs] at ih
      exact Nat.le_succ_of_le ih
  | case3 => exact Nat.le_refl _

/-- The words, clitics and marks of a text. A clitic is an apostrophe with the word characters after
it, and a mark is a single character that is neither blank nor part of a word or of a clitic. -/
def splitWords : List Char → List (List Char)
  | [] => []
  | c :: rest =>
      if Text.isWordChar c then
        let scanned := scanWord rest
        (c :: scanned.1) :: splitWords scanned.2
      else if Text.isBlank c then splitWords rest
      else if c = '\'' then
        (c :: rest.takeWhile Text.isWordChar) :: splitWords (rest.dropWhile Text.isWordChar)
      else [c] :: splitWords rest
termination_by text => text.length
decreasing_by
  all_goals
    have := length_scanWord rest
    have := (List.dropWhile_sublist Text.isWordChar (l := rest)).length_le
    simp only [List.length_cons]
    omega

/-- The tokens of a sentence from left to right. -/
def tokenize (tokenizer : Tokenizer) (sentence : String) : List String :=
  match tokenizer with
  | words => (splitWords sentence.toList).map String.ofList
  | blanks => (Text.fields sentence.toList).map String.ofList

end Tokenizer

end ChartParser
