import ChartParser.Proofs.Text.Collapse
import ChartParser.Proofs.Tree.Rows
import ChartParser.Proofs.Treebank.Atoms
import ChartParser.Tree.Printer

/-! # The two written forms of a tree

The indented form of a tree differs from the form on one line in blank space alone. Every level
takes the text of a child apart into lines and puts it together again with a margin; collapsed, that
is the text of the child after a space. -/

namespace ChartParser

open Text Treebank

theorem Treebank.IsAtom.unpadded {name : String} (h : IsAtom name) : Unpadded name.toList :=
  .of_forall_not_blank (by simpa using h.ne_empty) h.not_isBlank

/-! ### Margins -/

/-- Whether a carriage return went with a line end is not seen if a blank follows. -/
theorem Text.collapseBlanks_withoutLineEnd {c : Char} (h : isBlank c = true) (l s : List Char) :
    collapseBlanks (withoutLineEnd (l ++ ['\n']) ++ c :: s) = collapseBlanks (l ++ c :: s) := by
  rcases withoutLineEnd_append l with hl | hl
  · rw [hl]
  · -- the carriage return belongs to the run of blanks that goes on with the blank after it
    have hrun : collapseBlanks ('\r' :: c :: s) = collapseBlanks (c :: s) :=
      collapseBlanks_cons_cons (by decide) h s
    rw [← collapseBlanks_append_congr hrun, List.append_cons, hl]

namespace Tree

theorem indent_eq_of_not_mem {s : List Char} (hne : s ≠ []) (h : '\n' ∉ s) :
    indent s = '\n' :: ' ' :: ' ' :: s := by
  rw [indent, lines_of_not_mem hne h, List.flatMap_singleton]

theorem indent_append {l : List Char} (h : '\n' ∉ l) (rest : List Char) :
    indent (l ++ '\n' :: rest) =
      '\n' :: ' ' :: ' ' :: (withoutLineEnd (l ++ ['\n']) ++ indent rest) := by
  rw [indent, lines_append h, List.flatMap_cons, indent]
  rfl

theorem collapseBlanks_margin (s : List Char) :
    collapseBlanks ('\n' :: ' ' :: ' ' :: s) = collapseBlanks ('\n' :: s) := by
  rw [collapseBlanks_cons_cons (by decide) (by decide),
    collapseBlanks_cons_cons (by decide) (by decide)]
  rfl

/-- Margins are blank space before lines, so an indented text collapses as if it only had a line end
in front. -/
theorem collapseBlanks_indent {s : List Char} (hne : s ≠ []) (hlast : endsBlank s = false) :
    collapseBlanks (indent s) = collapseBlanks ('\n' :: s) := by
  induction hlength : s.length using Nat.strong_induction_on generalizing s with
  | h n ih =>
      by_cases hmem : '\n' ∈ s
      · obtain ⟨l, rest, rfl, hl⟩ := List.eq_append_cons_of_mem hmem
        have hrest : rest ≠ [] := by
          rintro rfl
          rw [endsBlank_concat] at hlast
          contradiction
        have hlastRest : endsBlank rest = false := by
          rwa [endsBlank, List.getLast?_append_of_ne_nil _ (List.cons_ne_nil _ _), ← endsBlank,
            endsBlank_cons_of_ne_nil hrest] at hlast
        have hshorter : rest.length < n := by
          rw [← hlength, List.length_append, List.length_cons]
          omega
        have hindent := ih rest.length hshorter hrest hlastRest rfl
        rw [indent_append hl, collapseBlanks_margin]
        apply collapseBlanks_cons_congr
        rw [collapseBlanks_append_congr hindent, collapseBlanks_withoutLineEnd (by decide)]
      · rw [indent_eq_of_not_mem hne hmem, collapseBlanks_margin]

/-! ### Rows -/

theorem renderAll_eq_flatMap (ts : List (Tree String String)) :
    renderAll ts = ts.flatMap fun t => ' ' :: t.render :=
  eq_flatMap_of_cons rfl (fun _ _ => rfl) ts

theorem indentAll_eq_flatMap (ts : List (Tree String String)) :
    indentAll ts = ts.flatMap fun t => indent t.renderIndented :=
  eq_flatMap_of_cons rfl (fun _ _ => rfl) ts

/-- The form on one line neither starts nor ends with a blank. -/
theorem unpadded_render {t : Tree String String} (h : t.OfAtoms) : Unpadded t.render := by
  cases h with
  | leaf hword => exact hword.unpadded
  | @branch label children hlabel hchildren =>
      rw [render]
      refine ⟨by simp, ?_, ?_⟩
      · rw [List.cons_append, List.cons_append, startsBlank_cons]
        decide
      · rw [endsBlank_concat]
        decide

theorem endsBlank_renderAll {ts : List (Tree String String)} (h : ∀ t ∈ ts, t.OfAtoms) :
    endsBlank (renderAll ts) = false := by
  induction ts with
  | nil => rfl
  | cons t ts ih =>
      obtain ⟨ht, hts⟩ := List.forall_mem_cons.mp h
      have hrender := unpadded_render ht
      refine endsBlank_append ?_ (ih hts)
      rw [endsBlank_cons_of_ne_nil hrender.ne_nil]
      exact hrender.endsBlank_eq_false

/-- Trees that are written one after another, each so that it collapses to a space and its form on
one line, collapse to a row. -/
theorem collapseBlanks_flatMap {ts : List (Tree String String)}
    {form : Tree String String → List Char} (hatoms : ∀ t ∈ ts, t.OfAtoms)
    (hform : ∀ t ∈ ts, collapseBlanks (form t) = ' ' :: t.render) :
    collapseBlanks (ts.flatMap form) = renderAll ts := by
  induction ts with
  | nil => rfl
  | cons t ts ih =>
      obtain ⟨ht, hatoms⟩ := List.forall_mem_cons.mp hatoms
      obtain ⟨hfirst, hform⟩ := List.forall_mem_cons.mp hform
      have hrender := unpadded_render ht
      have hlast : endsBlank (form t) = false := by
        rw [← endsBlank_collapseBlanks, hfirst, endsBlank_cons_of_ne_nil hrender.ne_nil]
        exact hrender.endsBlank_eq_false
      rw [List.flatMap_cons, collapseBlanks_append hlast, hfirst, ih hatoms hform, renderAll]

/-! ### The indented form -/

/-- With every run of blanks collapsed to one space, the indented form is the form on one line. -/
theorem collapseBlanks_renderIndented {t : Tree String String} (h : t.OfAtoms) :
    collapseBlanks t.renderIndented = t.render := by
  induction h with
  | leaf hword => exact collapseBlanks_of_forall_not_blank hword.not_isBlank
  | @branch label children hlabel hchildren ih =>
      have hrow : collapseBlanks
          (if children.all isLeaf then renderAll children else indentAll children) =
            renderAll children := by
        split
        · -- collapsing once more changes nothing
          have hform : ∀ t ∈ children, collapseBlanks (' ' :: t.render) = ' ' :: t.render := by
            intro t ht
            rw [(unpadded_render (hchildren t ht)).collapseBlanks_cons (by decide), ← ih t ht,
              collapseBlanks_collapseBlanks]
          have hspaced := collapseBlanks_flatMap hchildren hform
          rwa [← renderAll_eq_flatMap] at hspaced
        · rw [indentAll_eq_flatMap]
          apply collapseBlanks_flatMap hchildren
          intro t ht
          have hchild : Unpadded t.renderIndented := by
            apply Unpadded.of_collapseBlanks
            rw [ih t ht]
            exact unpadded_render (hchildren t ht)
          rw [collapseBlanks_indent hchild.ne_nil hchild.endsBlank_eq_false,
            hchild.collapseBlanks_cons (by decide), ih t ht]
      have hlast : endsBlank
          (if children.all isLeaf then renderAll children else indentAll children) = false := by
        rw [← endsBlank_collapseBlanks, hrow]
        exact endsBlank_renderAll hchildren
      have hclosing : collapseBlanks [')'] = [')'] := by decide
      rw [renderIndented, render, List.cons_append, List.cons_append, List.append_assoc,
        collapseBlanks_cons_of_not_blank (by decide),
        collapseBlanks_append hlabel.unpadded.endsBlank_eq_false, collapseBlanks_append hlast, hrow,
        collapseBlanks_of_forall_not_blank hlabel.not_isBlank, hclosing, List.cons_append,
        List.cons_append, List.append_assoc]

end Tree

end ChartParser
