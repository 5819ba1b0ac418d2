import ChartParser.Proofs.Grammar.Trees
import ChartParser.Proofs.Text.Prefix
import ChartParser.Proofs.Tree.Rows
import ChartParser.Tree.Labelling

/-! # Annotated trees

A tree with the labels under which it is counted, each constituent carrying the bare label of its
parent if the labelling says so. Annotation leaves the words alone, and the bare label of an
annotated constituent is the label that it had before. -/

namespace ChartParser

/-! ### Labels with and without a caret -/

namespace Labelling

@[simp] theorem label_none (labelling : Labelling) (bare : String) :
    labelling.label none bare = bare := by
  cases labelling <;> rfl

@[simp] theorem label_bare (parent? : Option String) (bare : String) :
    Labelling.bare.label parent? bare = bare :=
  rfl

theorem label_parent_some (above bare : String) :
    Labelling.parent.label (some above) bare = bare ++ "^" ++ above :=
  rfl

/-- A label that no caret divides. -/
structure IsBare (label : String) : Prop where
  ne_empty : label ≠ ""
  not_mem : '^' ∉ label.toList

theorem bareLabel_of_not_mem {label : String} (h : '^' ∉ label.toList) :
    bareLabel label = label := by
  have hall : label.toList.takeWhile (· ≠ '^') = label.toList := by
    refine List.takeWhile_eq_self_iff.mpr fun c hc => ?_
    simpa using ne_of_mem_of_not_mem hc h
  unfold bareLabel
  rw [hall]
  split
  · rfl
  · exact String.ofList_toList

/-- A label without a caret is found again in front of the caret. -/
theorem IsBare.bareLabel_append {bare : String} (h : IsBare bare) (above : String) :
    bareLabel (bare ++ "^" ++ above) = bare := by
  have hall : ∀ c ∈ bare.toList, decide (c ≠ '^') = true := by
    intro c hc
    simpa using ne_of_mem_of_not_mem hc h.not_mem
  have hchars : (bare ++ "^" ++ above).toList = bare.toList ++ '^' :: above.toList := by simp
  have htake : (bare ++ "^" ++ above).toList.takeWhile (· ≠ '^') = bare.toList := by
    rw [hchars, Text.takeWhile_append_of_head hall (by simp)]
  unfold bareLabel
  rw [htake]
  split
  · next hnil => exact absurd (String.toList_eq_nil_iff.mp hnil) h.ne_empty
  · exact String.ofList_toList

theorem IsBare.bareLabel_label {bare : String} (h : IsBare bare) (labelling : Labelling)
    (parent? : Option String) : bareLabel (labelling.label parent? bare) = bare := by
  cases labelling with
  | bare => exact bareLabel_of_not_mem h.not_mem
  | parent =>
      cases parent? with
      | none => exact bareLabel_of_not_mem h.not_mem
      | some above => exact h.bareLabel_append above

end Labelling

namespace Tree

variable {L W : Type}

mutual

/-- The tree with the labels under which it is counted, below a parent with a given bare label. -/
def withLabels (labelling : Labelling) (parent? : Option String) :
    Tree String String → Tree String String
  | leaf word => leaf word
  | branch label children =>
      branch ⟨labelling.label parent? label.value, label.span⟩
        (withLabelsAll labelling (some label.value) children)

/-- The trees of a row with the labels under which they are counted. -/
def withLabelsAll (labelling : Labelling) (parent? : Option String) :
    List (Tree String String) → List (Tree String String)
  | [] => []
  | t :: ts => withLabels labelling parent? t :: withLabelsAll labelling parent? ts

end

mutual

/-- The labels of the constituents of a tree. -/
def labels : Tree L W → List L
  | leaf _ => []
  | branch label children => label.value :: labelsAll children

/-- The labels of the constituents of a row of trees. -/
def labelsAll : List (Tree L W) → List L
  | [] => []
  | t :: ts => labels t ++ labelsAll ts

end

mutual

/-- The label of every constituent but the root, behind the label of the constituent above it. -/
def edges : Tree L W → List (L × L)
  | leaf _ => []
  | branch label children => edgesAll label.value children

/-- The edges of a row of trees, with those that lead to their roots. -/
def edgesAll (above : L) : List (Tree L W) → List (L × L)
  | [] => []
  | t :: ts => t.rootLabel?.toList.map (above, ·) ++ edges t ++ edgesAll above ts

end

/-! ### Equations -/

theorem withLabelsAll_eq_map (labelling : Labelling) (parent? : Option String)
    (ts : List (Tree String String)) :
    withLabelsAll labelling parent? ts = ts.map (withLabels labelling parent?) := by
  induction ts with
  | nil => rfl
  | cons t ts ih => rw [withLabelsAll, List.map_cons, ih]

@[simp] theorem withLabels_leaf (labelling : Labelling) (parent? : Option String)
    (word : Spanned String) : withLabels labelling parent? (leaf word) = leaf word :=
  rfl

@[simp] theorem withLabels_branch (labelling : Labelling) (parent? : Option String)
    (label : Spanned String) (children : List (Tree String String)) :
    withLabels labelling parent? (branch label children) =
      branch ⟨labelling.label parent? label.value, label.span⟩
        (children.map (withLabels labelling (some label.value))) := by
  rw [withLabels, withLabelsAll_eq_map]

theorem labelsAll_eq_flatMap (ts : List (Tree L W)) : labelsAll ts = ts.flatMap labels :=
  eq_flatMap_of_cons rfl (fun _ _ => rfl) ts

theorem labels_branch (label : Spanned L) (children : List (Tree L W)) :
    (branch label children).labels = label.value :: children.flatMap labels := by
  rw [labels, labelsAll_eq_flatMap]

theorem edges_binary (label left right : Spanned L) (ts us : List (Tree L W)) :
    (branch label [branch left ts, branch right us]).edges =
      (label.value, left.value) :: (branch left ts).edges ++
        (label.value, right.value) :: (branch right us).edges := by
  simp [edges, edgesAll, rootLabel?]

@[simp] theorem withBareLabels_leaf (word : Spanned String) :
    (leaf word : Tree String String).withBareLabels = leaf word :=
  rfl

@[simp] theorem withBareLabels_branch (label : Spanned String)
    (children : List (Tree String String)) :
    (branch label children).withBareLabels =
      branch ⟨Labelling.bareLabel label.value, label.span⟩ (children.map withBareLabels) := by
  rw [withBareLabels, map_branch]
  rfl

/-! ### Words and roots -/

theorem leaves_withLabels (labelling : Labelling) (parent? : Option String)
    (t : Tree String String) : (t.withLabels labelling parent?).leaves = t.leaves := by
  induction t generalizing parent? with
  | leaf word => rfl
  | branch label children ih =>
      rw [withLabels_branch, leaves_branch, leaves_branch, List.flatMap_map]
      exact List.flatMap_congr fun t ht => ih t ht (some label.value)

theorem leaves_withBareLabels (t : Tree String String) : t.withBareLabels.leaves = t.leaves := by
  induction t with
  | leaf word => rfl
  | branch label children ih =>
      rw [withBareLabels_branch, leaves_branch, leaves_branch, List.flatMap_map]
      exact List.flatMap_congr ih

theorem rootLabel?_withLabels_none (labelling : Labelling) (t : Tree String String) :
    (t.withLabels labelling none).rootLabel? = t.rootLabel? := by
  cases t with
  | leaf word => rfl
  | branch label children => simp [rootLabel?]

theorem rootLabel?_withBareLabels (t : Tree String String) :
    t.withBareLabels.rootLabel? = t.rootLabel?.map Labelling.bareLabel := by
  cases t <;> rfl

theorem mem_labels_of_rootLabel? {t : Tree L W} {root : L} (h : t.rootLabel? = some root) :
    root ∈ t.labels := by
  cases t with
  | leaf word => contradiction
  | branch label children =>
      obtain rfl := Option.some.inj h
      rw [labels_branch]
      exact List.mem_cons_self

theorem labels_withBareLabels (t : Tree String String) :
    t.withBareLabels.labels = t.labels.map Labelling.bareLabel := by
  induction t with
  | leaf word => rfl
  | branch label children ih =>
      rw [withBareLabels_branch, labels_branch, labels_branch, List.map_cons, List.flatMap_map,
        List.map_flatMap]
      exact congrArg _ (List.flatMap_congr ih)

end Tree

/-- Every label of a tree of a grammar heads a rule. -/
theorem Grammar.Licenses.exists_rule_of_mem_labels {g : Grammar} {t : Tree String String}
    {v : Binary64} (h : g.Licenses t v) {label : String} (hlabel : label ∈ t.labels) :
    ∃ r ∈ g.rules, r.head = label := by
  induction h with
  | lexical rule =>
      obtain rfl := List.mem_singleton.mp hlabel
      exact ⟨_, rule, rfl⟩
  | binary rule _ _ ih ih' =>
      rw [Tree.labels_branch, List.flatMap_cons, List.flatMap_singleton, List.mem_cons,
        List.mem_append] at hlabel
      rcases hlabel with rfl | hleft | hright
      · exact ⟨_, rule, rfl⟩
      · exact ih hleft
      · exact ih' hright

end ChartParser
