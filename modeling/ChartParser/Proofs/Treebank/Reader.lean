import ChartParser.Proofs.Tree.Placement
import ChartParser.Proofs.Treebank.Token

/-! # What the reader accepts

A text is read as a list of trees exactly if its tokens are those of the trees, one tree after
another, and the trees are well-formed. The reader keeps a stack of open constituents. For
soundness, two facts survive every token: the stack and the finished trees have the tokens that were
read, and the open constituents stand one inside the other up to the position. For completeness,
the tokens of a tree push just that tree. -/

namespace ChartParser

open Treebank

namespace Tree

mutual

/-- The tokens of a tree: a word, or a label and the children in parentheses. -/
def brackets : Tree String String → List Token
  | leaf word => [.atom word.value.toList]
  | branch label children =>
      .opening :: .atom label.value.toList :: (bracketsAll children ++ [.closing])

/-- The tokens of a row of trees. -/
def bracketsAll : List (Tree String String) → List Token
  | [] => []
  | t :: ts => brackets t ++ bracketsAll ts

end

theorem bracketsAll_eq_flatMap (ts : List (Tree String String)) :
    bracketsAll ts = ts.flatMap brackets :=
  eq_flatMap_of_cons rfl (fun _ _ => rfl) ts

end Tree

namespace Treebank

/-- A text is a treebank of some trees if it is made of their tokens and they are well-formed. -/
structure IsTreebank (text : List Char) (trees : List (Tree String String)) : Prop where
  spells : Spells text (trees.flatMap Tree.brackets)
  wellFormed : ∀ t ∈ trees, t.WellFormed

/-! ### The tokens on the stack -/

/-- The tokens that open the constituents of a stack and fill them so far. -/
def openTokens : List Frame → List Token
  | [] => []
  | frame :: frames =>
      openTokens frames ++ .opening :: .atom frame.label.toList ::
        frame.children.reverse.flatMap Tree.brackets

theorem openTokens_push (frame : Frame) (child : Tree String String) (frames : List Frame) :
    openTokens (frame.push child :: frames) = openTokens (frame :: frames) ++ child.brackets := by
  simp [openTokens, Frame.push]

theorem brackets_close (frame : Frame) (stop : Nat) :
    (frame.close stop).brackets = openTokens [frame] ++ [.closing] := by
  simp [Frame.close, Tree.brackets, Tree.bracketsAll_eq_flatMap, openTokens]

theorem openTokens_cons (frame : Frame) (frames : List Frame) :
    openTokens (frame :: frames) = openTokens frames ++ openTokens [frame] :=
  rfl

/-- No token is lost on the way from the text to the trees, and none is read twice. -/
theorem brackets_of_readTokens {done : List (Tree String String)} {position : Nat}
    {frames : List Frame} {ts : List (Token × List Char)} {trees : List (Tree String String)}
    (h : readTokens done position frames ts = .ok trees) :
    trees.flatMap Tree.brackets =
      done.reverse.flatMap Tree.brackets ++ openTokens frames ++ ts.map Prod.fst := by
  fun_induction readTokens done position frames ts with
  | case1 =>
      cases h
      simp [openTokens]
  | case2 => contradiction
  | case3 done position frames _ label _ rest ih =>
      rw [ih h, openTokens_cons]
      simp [openTokens]
  | case4 => contradiction
  | case5 => contradiction
  | case6 done position frame frames word _ rest ih =>
      rw [ih h, openTokens_push]
      simp [Tree.brackets]
  | case7 => contradiction
  | case8 done position frame _ rest _ ih =>
      rw [ih h, List.reverse_cons, List.flatMap_append, List.flatMap_singleton, brackets_close]
      simp [openTokens]
  | case9 done position frame _ rest _ outer others ih =>
      rw [ih h, openTokens_push, brackets_close,
        openTokens_cons frame (outer :: others)]
      simp

/-! ### The positions on the stack -/

/-- The children of an open constituent fill it from its start to a position. -/
structure Frame.FilledTo (frame : Frame) (position : Nat) : Prop where
  childful : ∀ t ∈ frame.children, t.Childful
  placed : Tree.PlacedAll frame.start frame.children.reverse
  position_eq : position = frame.start + (Tree.leavesAll frame.children.reverse).length

theorem Frame.FilledTo.opened (label : String) (position : Nat) :
    Frame.FilledTo ⟨label, position, []⟩ position where
  childful := by simp
  placed := trivial
  position_eq := rfl

theorem Frame.FilledTo.push {frame : Frame} {position : Nat} {child : Tree String String}
    (h : frame.FilledTo position) (hchildful : child.Childful)
    (hplaced : Tree.Placed position child) :
    (frame.push child).FilledTo (position + child.leaves.length) where
  childful := List.forall_mem_cons.mpr ⟨hchildful, h.childful⟩
  placed := by
    change Tree.PlacedAll frame.start (child :: frame.children).reverse
    rw [List.reverse_cons, Tree.placedAll_append, ← h.position_eq]
    exact ⟨h.placed, hplaced, trivial⟩
  position_eq := by
    change _ = frame.start + (Tree.leavesAll (child :: frame.children).reverse).length
    rw [h.position_eq, List.reverse_cons, Tree.leavesAll_eq_flatMap, Tree.leavesAll_eq_flatMap]
    simp [Nat.add_assoc]

theorem Frame.FilledTo.childful_close {frame : Frame} {position : Nat}
    (h : frame.FilledTo position) (hne : frame.children ≠ []) :
    (frame.close position).Childful :=
  .branch (by simpa using hne) fun t ht => h.childful t (List.mem_reverse.mp ht)

theorem Frame.FilledTo.placed_close {frame : Frame} {position : Nat}
    (h : frame.FilledTo position) : Tree.Placed frame.start (frame.close position) :=
  ⟨by rw [← h.position_eq], h.placed⟩

/-- The open constituents stand one inside the other, the innermost in front and filled to a
position. -/
def Nested : Nat → List Frame → Prop
  | position, [] => position = 0
  | position, frame :: frames => frame.FilledTo position ∧ Nested frame.start frames

theorem nested_nil : Nested 0 [] := rfl

theorem wellFormed_of_readTokens {done : List (Tree String String)} {position : Nat}
    {frames : List Frame} {ts : List (Token × List Char)} {trees : List (Tree String String)}
    (hdone : ∀ t ∈ done, t.WellFormed) (hframes : Nested position frames)
    (h : readTokens done position frames ts = .ok trees) : ∀ t ∈ trees, t.WellFormed := by
  fun_induction readTokens done position frames ts with
  | case1 =>
      cases h
      exact fun t ht => hdone t (List.mem_reverse.mp ht)
  | case2 => contradiction
  | case3 done position frames _ label _ rest ih => exact ih hdone ⟨.opened _ _, hframes⟩ h
  | case4 => contradiction
  | case5 => contradiction
  | case6 done position frame frames word _ rest ih =>
      obtain ⟨hframe, hframes⟩ := hframes
      exact ih hdone ⟨hframe.push .leaf rfl, hframes⟩ h
  | case7 => contradiction
  | case8 done position frame _ rest hne ih =>
      -- the outermost constituent starts at zero, so what it closes to is canonical
      obtain ⟨hframe, hstart⟩ := hframes
      have hchildful := hframe.childful_close (by simpa using hne)
      have hplaced := hframe.placed_close
      rw [Nested] at hstart
      rw [hstart] at hplaced
      have hclosed : (frame.close position).WellFormed :=
        ⟨rfl, hchildful, (Tree.canonical_iff hchildful).mpr hplaced⟩
      exact ih (List.forall_mem_cons.mpr ⟨hclosed, hdone⟩) nested_nil h
  | case9 done position frame _ rest hne outer others ih =>
      obtain ⟨hframe, houter, hothers⟩ := hframes
      have hpushed := houter.push (hframe.childful_close (by simpa using hne)) hframe.placed_close
      have hposition : frame.start + (frame.close position).leaves.length = position :=
        hframe.position_eq.symm
      rw [hposition] at hpushed
      exact ih hdone ⟨hpushed, hothers⟩ h

/-! ### The tokens of a tree -/

/-- Under an open constituent, the tokens of a tree make the tree its last child. -/
def Pushes (t : Tree String String) : Prop :=
  ∀ (done : List (Tree String String)) (position : Nat) (frame : Frame) (frames : List Frame)
    (ts rest : List (Token × List Char)), Tree.Placed position t → ts.map Prod.fst = t.brackets →
      readTokens done position (frame :: frames) (ts ++ rest) =
        readTokens done (position + t.leaves.length) (frame.push t :: frames) rest

/-- The tokens of a row of trees are read under an open constituent, and the row follows its
children. -/
theorem readTokens_row {row : List (Tree String String)} (hrow : ∀ t ∈ row, Pushes t)
    (done : List (Tree String String)) (position : Nat) (frame : Frame) (frames : List Frame)
    (ts rest : List (Token × List Char)) (hplaced : Tree.PlacedAll position row)
    (hts : ts.map Prod.fst = Tree.bracketsAll row) :
    readTokens done position (frame :: frames) (ts ++ rest) =
      readTokens done (position + (Tree.leavesAll row).length)
        ({ frame with children := row.reverse ++ frame.children } :: frames) rest := by
  induction row generalizing position frame ts with
  | nil =>
      rw [Tree.bracketsAll, List.map_eq_nil_iff] at hts
      rw [hts]
      rfl
  | cons t row ih =>
      obtain ⟨ht, hrow⟩ := List.forall_mem_cons.mp hrow
      obtain ⟨us, vs, rfl, hus, hvs⟩ := List.map_eq_append_iff.mp hts
      obtain ⟨hplaced, hplacedAll⟩ := hplaced
      rw [List.append_assoc, ht _ _ _ _ us _ hplaced hus, ih hrow _ _ vs hplacedAll hvs]
      simp [Tree.leavesAll, Frame.push, Nat.add_assoc]

/-- The tokens of a constituent without the last one open it and fill it. -/
theorem readTokens_branch {label : Spanned String} {children : List (Tree String String)}
    (hchildren : ∀ t ∈ children, Pushes t) (done : List (Tree String String)) (position : Nat)
    (frames : List Frame) (ts rest : List (Token × List Char))
    (hplaced : Tree.PlacedAll position children)
    (hts : ts.map Prod.fst = (Tree.branch label children).brackets) :
    ∃ text : List Char, readTokens done position frames (ts ++ rest) =
      readTokens done (position + (Tree.leavesAll children).length)
        (⟨label.value, position, children.reverse⟩ :: frames) ((.closing, text) :: rest) := by
  obtain ⟨⟨_, _⟩, us, rfl, rfl, hus⟩ := List.map_eq_cons_iff.mp hts
  obtain ⟨⟨_, _⟩, vs, rfl, rfl, hvs⟩ := List.map_eq_cons_iff.mp hus
  obtain ⟨ws, last, rfl, hws, hlast⟩ := List.map_eq_append_iff.mp hvs
  obtain ⟨⟨_, text⟩, _, rfl, rfl, hnil⟩ := List.map_eq_cons_iff.mp hlast
  rw [List.map_eq_nil_iff] at hnil
  subst hnil
  refine ⟨text, ?_⟩
  have hrow := readTokens_row hchildren done position ⟨label.value, position, []⟩ frames ws
    ((.closing, text) :: rest) hplaced hws
  rw [List.append_nil] at hrow
  simpa [readTokens] using hrow

/-- A frame that the children of a constituent fill closes to the constituent. -/
theorem close_eq_branch {label : Spanned String} {children : List (Tree String String)}
    {position : Nat} (h : Tree.Placed position (.branch label children)) :
    Frame.close ⟨label.value, position, children.reverse⟩
      (position + (Tree.leavesAll children).length) = .branch label children := by
  rw [Frame.close, List.reverse_reverse, ← h.1]

theorem pushes_of_childful {t : Tree String String} (h : t.Childful) : Pushes t := by
  induction h with
  | leaf =>
      intro done position frame frames ts rest hplaced hts
      obtain ⟨⟨_, _⟩, _, rfl, rfl, hnil⟩ := List.map_eq_cons_iff.mp hts
      rw [List.map_eq_nil_iff] at hnil
      rw [hnil, List.cons_append, List.nil_append, readTokens, String.ofList_toList, ← hplaced]
      rfl
  | @branch label children hne _ ih =>
      intro done position frame frames ts rest hplaced hts
      obtain ⟨text, hread⟩ :=
        readTokens_branch ih done position (frame :: frames) ts rest hplaced.2 hts
      rw [hread, readTokens, if_neg (by simpa using hne), close_eq_branch hplaced]
      rfl

/-- The tokens of well-formed trees are read as these trees. -/
theorem readTokens_brackets {trees : List (Tree String String)}
    (h : ∀ t ∈ trees, t.WellFormed) (done : List (Tree String String))
    (ts : List (Token × List Char)) (hts : ts.map Prod.fst = trees.flatMap Tree.brackets) :
    readTokens done 0 [] ts = .ok (done.reverse ++ trees) := by
  induction trees generalizing done ts with
  | nil =>
      rw [List.flatMap_nil, List.map_eq_nil_iff] at hts
      rw [hts, readTokens, List.append_nil]
  | cons t trees ih =>
      obtain ⟨ht, htrees⟩ := List.forall_mem_cons.mp h
      rw [List.flatMap_cons] at hts
      obtain ⟨us, vs, rfl, hus, hvs⟩ := List.map_eq_append_iff.mp hts
      cases t with
      | leaf word => cases ht.isBranch
      | branch label children =>
          obtain ⟨hne, hchildren⟩ := Tree.childful_branch_iff.mp ht.childful
          have hplaced := (Tree.canonical_iff ht.childful).mp ht.canonical
          obtain ⟨text, hread⟩ := readTokens_branch
            (fun t ht => pushes_of_childful (hchildren t ht)) done 0 [] us vs hplaced.2 hus
          rw [hread, readTokens, if_neg (by simpa using hne), close_eq_branch hplaced,
            ih htrees _ vs hvs]
          simp

/-! ### The reader -/

theorem read_eq_ok_iff {text : List Char} {trees : List (Tree String String)} :
    read text = .ok trees ↔ IsTreebank text trees := by
  constructor
  · intro h
    have hbrackets : trees.flatMap Tree.brackets = (tokens text).map Prod.fst :=
      brackets_of_readTokens h
    have hspells : Spells text (trees.flatMap Tree.brackets) := spells_iff.mpr hbrackets.symm
    exact ⟨hspells, wellFormed_of_readTokens (by simp) nested_nil h⟩
  · intro h
    exact readTokens_brackets h.wellFormed [] (tokens text) (spells_iff.mp h.spells)

/-- The reader returns the trees that a text is a treebank of, and refuses every text that is none
of any trees. -/
theorem read_spec (text : List Char) :
    (∀ trees, read text = .ok trees ↔ IsTreebank text trees) ∧
      ((∃ fault, read text = .error fault) ↔ ∀ trees, ¬IsTreebank text trees) := by
  refine ⟨fun trees => read_eq_ok_iff, ?_⟩
  constructor
  · rintro ⟨fault, hfault⟩ trees htrees
    rw [← read_eq_ok_iff, hfault] at htrees
    cases htrees
  · intro hnone
    cases hread : read text with
    | error fault => exact ⟨fault, rfl⟩
    | ok trees => exact absurd (read_eq_ok_iff.mp hread) (hnone trees)

end Treebank

end ChartParser
