import ChartParser.Proofs.Counts.Productions
import ChartParser.Proofs.Tree.Rows

/-! # Constituents and their productions

What is counted of a tree can be said of its constituents one by one. A tree is counted exactly when
it is no bare word and all of its constituents are in normal form, and then each of them
contributes one production, that of its own labels and children. -/

namespace ChartParser

/-- A constituent of a tree: the bare label of the constituent above it, if there is one, its own
bare label, and its children. -/
structure Constituent where
  parent? : Option String
  label : String
  children : List (Tree String String)

namespace Constituent

/-- Exactly one word or exactly two constituents stand below. -/
def isNormal (c : Constituent) : Bool :=
  match c.children with
  | [.leaf _] => true
  | [.branch .., .branch ..] => true
  | _ => false

/-- The symbol of a child: its word, or its annotated label. -/
def symbol (labelling : Labelling) (c : Constituent) : Tree String String → Symbol
  | .leaf word => .terminal word.value
  | .branch label _ => .nonterminal (labelling.label (some c.label) label.value)

/-- The annotated label with the symbols of the children. -/
def production (labelling : Labelling) (c : Constituent) : Production :=
  ⟨labelling.label c.parent? c.label, c.children.map (c.symbol labelling)⟩

theorem isNormal_iff {c : Constituent} :
    c.isNormal = true ↔ (∃ word, c.children = [.leaf word]) ∨
      ∃ l ls r rs, c.children = [.branch l ls, .branch r rs] := by
  constructor
  · intro h
    unfold isNormal at h
    split at h
    · next word hchildren => exact .inl ⟨word, hchildren⟩
    · next l ls r rs hchildren => exact .inr ⟨l, ls, r, rs, hchildren⟩
    · contradiction
  · rintro (⟨word, h⟩ | ⟨l, ls, r, rs, h⟩)
    · simp [isNormal, h]
    · simp [isNormal, h]

end Constituent

namespace Tree

variable {labelling : Labelling} {parent? : Option String} {t : Tree String String}
variable {used : List Production}

mutual

/-- The constituents of a tree from the root down and from left to right, given the label above. -/
def constituents (parent? : Option String) : Tree String String → List Constituent
  | leaf _ => []
  | branch label children =>
      ⟨parent?, label.value, children⟩ :: constituentsAll (some label.value) children

/-- The constituents of a row of trees. -/
def constituentsAll (parent? : Option String) : List (Tree String String) → List Constituent
  | [] => []
  | t :: ts => constituents parent? t ++ constituentsAll parent? ts

end

theorem constituentsAll_eq_flatMap (parent? : Option String) (ts : List (Tree String String)) :
    constituentsAll parent? ts = ts.flatMap (constituents parent?) :=
  eq_flatMap_of_cons rfl (fun _ _ => rfl) ts

@[simp] theorem constituents_leaf (parent? : Option String) (word : Spanned String) :
    (leaf word : Tree String String).constituents parent? = [] :=
  rfl

@[simp] theorem constituents_branch (parent? : Option String) (label : Spanned String)
    (children : List (Tree String String)) :
    (branch label children).constituents parent? =
      ⟨parent?, label.value, children⟩ :: children.flatMap (constituents (some label.value)) := by
  rw [constituents, constituentsAll_eq_flatMap]

/-- Whether a tree is no bare word and all of its constituents are in normal form. -/
def isCountable (t : Tree String String) : Bool :=
  t.isBranch && (t.constituents none).all Constituent.isNormal

/-- A tree that is counted consists of normal constituents, and their productions are counted. -/
theorem constituents_of_productions (h : t.productions labelling parent? = .ok used) :
    t.isBranch = true ∧ (∀ c ∈ t.constituents parent?, c.isNormal = true) ∧
      used = (t.constituents parent?).map (·.production labelling) := by
  induction h using productions_induction with
  | lexical parent? label word =>
      refine ⟨rfl, ?_, ?_⟩
      · simp [Constituent.isNormal]
      · simp [Constituent.production, Constituent.symbol, lexicalProduction]
  | binary parent? label l ls r rs left right _ _ ihleft ihright =>
      obtain ⟨_, hleft, rfl⟩ := ihleft
      obtain ⟨_, hright, rfl⟩ := ihright
      rw [constituents_branch, List.flatMap_cons, List.flatMap_singleton]
      refine ⟨rfl, ?_, ?_⟩
      · exact List.forall_mem_cons.mpr ⟨rfl, List.forall_mem_append.mpr ⟨hleft, hright⟩⟩
      · rw [List.map_cons, List.map_append]
        rfl

/-- Where every constituent is in normal form, counting reaches all of them. -/
theorem exists_productions_of_isNormal (labelling : Labelling) (hbranch : t.isBranch = true)
    (h : ∀ c ∈ t.constituents parent?, c.isNormal = true) :
    ∃ used, t.productions labelling parent? = .ok used := by
  induction t generalizing parent? with
  | leaf word => contradiction
  | branch label children ih =>
      rw [constituents_branch, List.forall_mem_cons, List.forall_mem_flatMap] at h
      obtain ⟨hroot, hbelow⟩ := h
      rcases Constituent.isNormal_iff.mp hroot with ⟨word, rfl⟩ | ⟨l, ls, r, rs, rfl⟩
      · exact ⟨_, productions_lexical parent? label word⟩
      · have hleft := ih (.branch l ls) (by simp) rfl (hbelow (.branch l ls) (by simp))
        have hright := ih (.branch r rs) (by simp) rfl (hbelow (.branch r rs) (by simp))
        obtain ⟨left, hleft⟩ := hleft
        obtain ⟨right, hright⟩ := hright
        exact ⟨_, productions_binary hleft hright⟩

theorem productions_eq_ok_iff :
    t.productions labelling none = .ok used ↔
      t.isCountable = true ∧ used = (t.constituents none).map (·.production labelling) := by
  rw [isCountable, Bool.and_eq_true, List.all_eq_true]
  constructor
  · intro h
    obtain ⟨hbranch, hnormal, hused⟩ := constituents_of_productions h
    exact ⟨⟨hbranch, hnormal⟩, hused⟩
  · rintro ⟨⟨hbranch, hnormal⟩, rfl⟩
    obtain ⟨used, hused⟩ := exists_productions_of_isNormal labelling hbranch hnormal
    rw [hused, (constituents_of_productions hused).2.2]

/-- A tree cannot be counted if it is a bare word or some constituent is not in normal form. -/
theorem isCountable_eq_false_iff :
    t.isCountable = false ↔
      t.isLeaf = true ∨ ∃ c ∈ t.constituents none, c.isNormal = false := by
  rw [isCountable, Bool.and_eq_false_iff, List.all_eq_false]
  cases t <;> simp [isBranch, isLeaf]

end Tree

end ChartParser
