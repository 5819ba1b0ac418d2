import ChartParser.Tree.Basic

/-! # Trees and rows of trees

A constituent is made of a row of trees, and a property that passes from the children of every
constituent to the constituent holds of all trees. What a function does to a row is what it does to
the trees of the row, one after another. -/

namespace ChartParser.Tree

variable {L W V X : Type}

/-- Induction over trees: a constituent may rely on each of its children. -/
@[elab_as_elim, induction_eliminator]
theorem induction {motive : Tree L W → Prop} (leaf : ∀ word, motive (.leaf word))
    (branch : ∀ label children, (∀ t ∈ children, motive t) → motive (.branch label children)) :
    ∀ t, motive t
  | .leaf word => leaf word
  | .branch label children => branch label children fun t _ => induction leaf branch t

/-! ### Along a row -/

/-- A function of rows that puts together what another one makes of every tree. -/
theorem eq_flatMap_of_cons {α : Type} {one : Tree L W → List α} {all : List (Tree L W) → List α}
    (hnil : all [] = []) (hcons : ∀ t ts, all (t :: ts) = one t ++ all ts)
    (ts : List (Tree L W)) : all ts = ts.flatMap one := by
  induction ts with
  | nil => exact hnil
  | cons t ts ih => rw [hcons, List.flatMap_cons, ih]

theorem leavesAll_eq_flatMap (ts : List (Tree L W)) : leavesAll ts = ts.flatMap leaves :=
  eq_flatMap_of_cons rfl (fun _ _ => rfl) ts

theorem mapAll_eq_map (f : Spanned L → V) (g : Spanned W → X) (ts : List (Tree L W)) :
    mapAll f g ts = ts.map (map f g) := by
  induction ts with
  | nil => rfl
  | cons t ts ih => rw [mapAll, List.map_cons, ih]

@[simp] theorem leaves_leaf (word : Spanned W) : (leaf word : Tree L W).leaves = [word.value] :=
  rfl

@[simp] theorem leaves_branch (label : Spanned L) (children : List (Tree L W)) :
    (branch label children).leaves = children.flatMap leaves :=
  leavesAll_eq_flatMap children

@[simp] theorem map_leaf (f : Spanned L → V) (g : Spanned W → X) (word : Spanned W) :
    (leaf word).map f g = leaf ⟨g word, word.span⟩ :=
  rfl

@[simp] theorem map_branch (f : Spanned L → V) (g : Spanned W → X) (label : Spanned L)
    (children : List (Tree L W)) :
    (branch label children).map f g = branch ⟨f label, label.span⟩ (children.map (map f g)) := by
  rw [map, mapAll_eq_map]

/-! ### Parts -/

/-- `t.IsPartOf u` says that `t` is `u` or stands somewhere below its root. -/
inductive IsPartOf : Tree L W → Tree L W → Prop where
  | refl (t : Tree L W) : IsPartOf t t
  | child {t u : Tree L W} {label : Spanned L} {children : List (Tree L W)} (mem : u ∈ children)
      (part : IsPartOf t u) : IsPartOf t (branch label children)

theorem isPartOf_leaf_iff {t : Tree L W} {word : Spanned W} :
    t.IsPartOf (leaf word) ↔ t = leaf word := by
  constructor
  · intro h
    cases h with
    | refl => rfl
  · rintro rfl
    exact .refl _

theorem isPartOf_branch_iff {t : Tree L W} {label : Spanned L} {children : List (Tree L W)} :
    t.IsPartOf (branch label children) ↔
      t = branch label children ∨ ∃ u ∈ children, t.IsPartOf u := by
  constructor
  · intro h
    cases h with
    | refl => exact .inl rfl
    | child mem part => exact .inr ⟨_, mem, part⟩
  · rintro (rfl | ⟨u, mem, part⟩)
    · exact .refl _
    · exact .child mem part

end ChartParser.Tree
