import ChartParser.Treebank.Reader

/-! # The symbols of treebanks

Every label and every word of a tree that was read is an atom of the treebank text, so it is not
empty and neither a blank nor a parenthesis occurs in it. The trees are put together on a stack of
open constituents; that stack is made of atoms at every step, and so is every finished tree. -/

namespace ChartParser

namespace Treebank

/-- A name that stands in a treebank text as one atom. -/
structure IsAtom (name : String) : Prop where
  ne_empty : name ≠ ""
  chars : ∀ c ∈ name.toList, isAtomChar c = true

theorem IsAtom.ofList {text : List Char} (hne : text ≠ []) (h : ∀ c ∈ text, isAtomChar c = true) :
    IsAtom (String.ofList text) where
  ne_empty := by simpa using hne
  chars := by simpa using h

theorem IsAtom.not_isBlank {name : String} (h : IsAtom name) :
    ∀ c ∈ name.toList, Text.isBlank c = false := by
  intro c hc
  have hchar := h.chars c hc
  simp only [isAtomChar, Bool.not_eq_true', Bool.or_eq_false_iff] at hchar
  exact hchar.1.1

/-! ### Tokens -/

/-- An atom among tokens has the text of an atom. -/
def Token.Proper : Token → Prop
  | .atom text => IsAtom (String.ofList text)
  | _ => True

theorem proper_of_mem_tokens {text : List Char} : ∀ token ∈ tokens text, token.1.Proper := by
  fun_induction tokens text with
  | case1 => simp
  | case2 c rest hblank ih => exact ih
  | case3 rest hblank ih => exact List.forall_mem_cons.mpr ⟨trivial, ih⟩
  | case4 rest hblank hopening ih => exact List.forall_mem_cons.mpr ⟨trivial, ih⟩
  | case5 c rest hblank hopening hclosing ih =>
      refine List.forall_mem_cons.mpr ⟨.ofList (List.cons_ne_nil _ _) ?_, ih⟩
      have hc : isAtomChar c = true := by simp [isAtomChar, hblank, hopening, hclosing]
      have hrest : ∀ d ∈ rest.takeWhile isAtomChar, isAtomChar d = true :=
        List.all_eq_true.mp List.all_takeWhile
      exact List.forall_mem_cons.mpr ⟨hc, hrest⟩

end Treebank

open Treebank

/-! ### Trees -/

/-- A tree whose labels and words are atoms. -/
inductive Tree.OfAtoms : Tree String String → Prop where
  | leaf {word : Spanned String} (word_isAtom : IsAtom word.value) : OfAtoms (.leaf word)
  | branch {label : Spanned String} {children : List (Tree String String)}
      (label_isAtom : IsAtom label.value) (ofAtoms : ∀ t ∈ children, OfAtoms t) :
      OfAtoms (.branch label children)

theorem Tree.ofAtoms_leaf_iff {word : Spanned String} :
    (Tree.leaf word).OfAtoms ↔ IsAtom word.value := by
  constructor
  · intro h
    cases h with
    | leaf hword => exact hword
  · exact .leaf

theorem Tree.ofAtoms_branch_iff {label : Spanned String} {children : List (Tree String String)} :
    (Tree.branch label children).OfAtoms ↔ IsAtom label.value ∧ ∀ t ∈ children, t.OfAtoms := by
  constructor
  · intro h
    cases h with
    | branch hlabel hchildren => exact ⟨hlabel, hchildren⟩
  · rintro ⟨hlabel, hchildren⟩
    exact .branch hlabel hchildren

namespace Treebank

/-- An open constituent whose label and children are made of atoms. -/
structure Frame.OfAtoms (frame : Frame) : Prop where
  label : IsAtom frame.label
  children : ∀ t ∈ frame.children, t.OfAtoms

theorem Frame.OfAtoms.push {frame : Frame} {child : Tree String String} (h : frame.OfAtoms)
    (hchild : child.OfAtoms) : (frame.push child).OfAtoms where
  label := h.label
  children := List.forall_mem_cons.mpr ⟨hchild, h.children⟩

theorem Frame.OfAtoms.close {frame : Frame} (h : frame.OfAtoms) (stop : Nat) :
    (frame.close stop).OfAtoms :=
  .branch h.label fun t ht => h.children t (List.mem_reverse.mp ht)

/-- Every token keeps the stack made of atoms, and what leaves the stack is a finished tree. -/
theorem ofAtoms_of_readTokens {done : List (Tree String String)} {position : Nat}
    {frames : List Frame} {ts : List (Token × List Char)} {trees : List (Tree String String)}
    (hdone : ∀ t ∈ done, t.OfAtoms) (hframes : ∀ frame ∈ frames, frame.OfAtoms)
    (hts : ∀ token ∈ ts, token.1.Proper) (h : readTokens done position frames ts = .ok trees) :
    ∀ t ∈ trees, t.OfAtoms := by
  fun_induction readTokens done position frames ts with
  | case1 =>
      cases h
      exact fun t ht => hdone t (List.mem_reverse.mp ht)
  | case2 => contradiction
  | case3 done position frames _ label _ rest ih =>
      obtain ⟨_, hts⟩ := List.forall_mem_cons.mp hts
      obtain ⟨hlabel, hrest⟩ := List.forall_mem_cons.mp hts
      have hopened : Frame.OfAtoms ⟨String.ofList label, position, []⟩ := ⟨hlabel, by simp⟩
      exact ih hdone (List.forall_mem_cons.mpr ⟨hopened, hframes⟩) hrest h
  | case4 => contradiction
  | case5 => contradiction
  | case6 done position frame frames word _ rest ih =>
      obtain ⟨hword, hrest⟩ := List.forall_mem_cons.mp hts
      obtain ⟨hframe, hframes⟩ := List.forall_mem_cons.mp hframes
      refine ih hdone (List.forall_mem_cons.mpr ⟨?_, hframes⟩) hrest h
      exact hframe.push (.leaf hword)
  | case7 => contradiction
  | case8 done position frame _ rest _ ih =>
      obtain ⟨_, hrest⟩ := List.forall_mem_cons.mp hts
      have hclosed := (hframes frame (List.mem_cons_self ..)).close position
      exact ih (List.forall_mem_cons.mpr ⟨hclosed, hdone⟩) (by simp) hrest h
  | case9 done position frame _ rest _ outer others ih =>
      -- the closed constituent becomes the last child of the one around it
      obtain ⟨_, hrest⟩ := List.forall_mem_cons.mp hts
      obtain ⟨hframe, hframes⟩ := List.forall_mem_cons.mp hframes
      obtain ⟨houter, hothers⟩ := List.forall_mem_cons.mp hframes
      have hpushed := houter.push (hframe.close position)
      exact ih hdone (List.forall_mem_cons.mpr ⟨hpushed, hothers⟩) hrest h

theorem ofAtoms_of_read {text : List Char} {trees : List (Tree String String)}
    (h : read text = .ok trees) : ∀ t ∈ trees, t.OfAtoms :=
  ofAtoms_of_readTokens (by simp) (by simp) proper_of_mem_tokens h

end Treebank

end ChartParser
