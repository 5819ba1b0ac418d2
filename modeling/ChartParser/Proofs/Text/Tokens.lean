import ChartParser.Tokenizer
import Mathlib.Data.List.TakeWhile

/-! # Tokens have no blanks

However a sentence is split, no blank gets into a token: the characters of words are not blank, and
whatever else is kept was looked at before. -/

namespace ChartParser

namespace Text

/-- The code points of the blank characters. -/
def blankCodes : List Nat :=
  [0x20, 0x09, 0x0a, 0x0b, 0x0c, 0x0d, 0x85, 0xa0, 0x1680, 0x2000, 0x2001, 0x2002, 0x2003, 0x2004,
    0x2005, 0x2006, 0x2007, 0x2008, 0x2009, 0x200a, 0x2028, 0x2029, 0x202f, 0x205f, 0x3000]

theorem toNat_mem_blankCodes {c : Char} (h : isBlank c = true) : c.toNat ∈ blankCodes := by
  simp only [isBlank, Bool.or_eq_true, Bool.and_eq_true, beq_iff_eq, decide_eq_true_eq] at h
  simp only [blankCodes, List.mem_cons, List.not_mem_nil, or_false]
  omega

/-- No blank is a word character. -/
theorem isBlank_of_isWordChar {c : Char} (h : isWordChar c = true) : isBlank c = false := by
  have hcodes : ∀ n ∈ blankCodes, inRanges n wordRanges = false := by decide +kernel
  refine Bool.eq_false_iff.mpr fun hblank => ?_
  rw [isWordChar, hcodes _ (toNat_mem_blankCodes hblank)] at h
  contradiction

/-- A row of characters without a blank. -/
def Blankless (s : List Char) : Prop := ∀ c ∈ s, isBlank c = false

theorem blankless_pushField {run : List Char} {fields : List (List Char)} (hrun : Blankless run)
    (hfields : ∀ field ∈ fields, Blankless field) :
    ∀ field ∈ pushField run fields, Blankless field := by
  unfold pushField
  split
  · exact hfields
  · exact List.forall_mem_cons.mpr ⟨hrun, hfields⟩

theorem blankless_foldr_extendFields (s : List Char) :
    Blankless (s.foldr extendFields ([], [])).1 ∧
      ∀ field ∈ (s.foldr extendFields ([], [])).2, Blankless field := by
  induction s with
  | nil => simp [Blankless]
  | cons c s ih =>
      obtain ⟨hrun, hfields⟩ := ih
      rw [List.foldr_cons, extendFields]
      split
      · exact ⟨by simp [Blankless], blankless_pushField hrun hfields⟩
      · next hc => exact ⟨List.forall_mem_cons.mpr ⟨by simpa using hc, hrun⟩, hfields⟩

theorem blankless_of_mem_fields {s field : List Char} (h : field ∈ fields s) : Blankless field :=
  blankless_pushField (blankless_foldr_extendFields s).1 (blankless_foldr_extendFields s).2 field h

end Text

namespace Tokenizer

open Text (Blankless isBlank isWordChar)

theorem blankless_scanWord (text : List Char) : Blankless (scanWord text).1 := by
  fun_induction scanWord text with
  | case1 => simp [Blankless]
  | case2 c rest hc word after hscan ih =>
      rw [hscan] at ih
      refine List.forall_mem_cons.mpr ⟨?_, ih⟩
      rcases Bool.or_eq_true_iff.mp hc with hword | hjoint
      · exact Text.isBlank_of_isWordChar hword
      · have hjoint := (Bool.and_eq_true_iff.mp hjoint).1
        simp only [isJoint, Bool.or_eq_true, beq_iff_eq] at hjoint
        rcases hjoint with rfl | rfl
        · decide
        · decide
  | case3 => simp [Blankless]

theorem blankless_of_mem_splitWords {text token : List Char} (h : token ∈ splitWords text) :
    Blankless token := by
  have htake : ∀ rest : List Char, Blankless (rest.takeWhile isWordChar) := fun rest c hc =>
    Text.isBlank_of_isWordChar (List.mem_takeWhile_imp hc)
  fun_induction splitWords text with
  | case1 => contradiction
  | case2 c rest hc scanned ih =>
      rcases List.mem_cons.mp h with rfl | h
      · exact List.forall_mem_cons.mpr ⟨Text.isBlank_of_isWordChar hc, blankless_scanWord rest⟩
      · exact ih h
  | case3 c rest _ _ ih => exact ih h
  | case4 rest _ hblank ih =>
      rcases List.mem_cons.mp h with rfl | h
      · exact List.forall_mem_cons.mpr ⟨by simpa using hblank, htake rest⟩
      · exact ih h
  | case5 c rest _ hblank _ ih =>
      rcases List.mem_cons.mp h with rfl | h
      · exact List.forall_mem_singleton.mpr (by simpa using hblank)
      · exact ih h

/-- No token has a blank in it. -/
theorem blankless_of_mem_tokenize {tokenizer : Tokenizer} {sentence token : String}
    (h : token ∈ tokenizer.tokenize sentence) : Blankless token.toList := by
  cases tokenizer with
  | words =>
      obtain ⟨text, htext, rfl⟩ := List.mem_map.mp h
      rw [String.toList_ofList]
      exact blankless_of_mem_splitWords htext
  | blanks =>
      obtain ⟨text, htext, rfl⟩ := List.mem_map.mp h
      rw [String.toList_ofList]
      exact Text.blankless_of_mem_fields htext

end Tokenizer

end ChartParser
