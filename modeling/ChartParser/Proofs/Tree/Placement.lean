import ChartParser.Proofs.Grammar.Trees
import ChartParser.Proofs.Tree.Rows

/-! # Where the parts of a tree stand

In a canonical tree the words have the positions 0, 1, 2 and so on, and a constituent spans from its
first word to its last. The same is said from the root down by the position where a tree begins: the
parts of a constituent follow one another without a gap. That form is kept by every step of reading
and printing. -/

namespace ChartParser

/-! ### Rows of neighbouring spans -/

namespace Span

/-- The spans of some neighbouring positions, from a first one on. -/
def row (start length : Nat) : List Span := (List.range' start length).map fun i => ⟨i, i + 1⟩

@[simp] theorem length_row (start length : Nat) : (row start length).length = length := by
  simp [row]

theorem row_add (start m n : Nat) : row start (m + n) = row start m ++ row (start + m) n := by
  rw [row, ← List.range'_append_1, List.map_append, row, row]

theorem getElem?_row {start length i : Nat} (h : i < length) :
    (row start length)[i]? = some ⟨start + i, start + i + 1⟩ := by
  simp [row, h]

theorem head?_row {start length : Nat} (h : 0 < length) :
    (row start length).head?.map Span.start = some start := by
  rw [List.head?_eq_getElem?, getElem?_row h, Option.map_some, Nat.add_zero]

theorem getLast?_row {start length : Nat} (h : 0 < length) :
    (row start length).getLast?.map Span.stop = some (start + length) := by
  rw [List.getLast?_eq_getElem?, length_row, getElem?_row (by omega), Option.map_some,
    Option.some_inj]
  change start + (length - 1) + 1 = start + length
  omega

end Span

namespace Tree

variable {L W : Type}

/-! ### Canonical trees -/

mutual

/-- The spans of the leaves of a tree, from left to right. -/
def leafSpans : Tree L W → List Span
  | leaf word => [word.span]
  | branch _ children => leafSpansAll children

/-- The spans of the leaves of a row of trees, from left to right. -/
def leafSpansAll : List (Tree L W) → List Span
  | [] => []
  | t :: ts => leafSpans t ++ leafSpansAll ts

end

/-- Every constituent has at least one child. -/
inductive Childful : Tree L W → Prop where
  | leaf {word : Spanned W} : Childful (.leaf word)
  | branch {label : Spanned L} {children : List (Tree L W)} (ne_nil : children ≠ [])
      (childful : ∀ t ∈ children, Childful t) : Childful (.branch label children)

/-- Every constituent spans from the start of its first leaf to the end of its last. -/
inductive SpansLeaves : Tree L W → Prop where
  | leaf {word : Spanned W} : SpansLeaves (.leaf word)
  | branch {label : Spanned L} {children : List (Tree L W)}
      (start_eq : (leafSpansAll children).head?.map Span.start = some label.span.start)
      (stop_eq : (leafSpansAll children).getLast?.map Span.stop = some label.span.stop)
      (spansLeaves : ∀ t ∈ children, SpansLeaves t) : SpansLeaves (.branch label children)

/-- The leaves have the positions from zero on, and the constituents span their leaves. -/
structure Canonical (t : Tree L W) : Prop where
  leafSpan_eq : ∀ i (s : Span), t.leafSpans[i]? = some s → s = ⟨i, i + 1⟩
  spansLeaves : t.SpansLeaves

/-- A constituent with words below every constituent in it, and with canonical spans. -/
structure WellFormed (t : Tree L W) : Prop where
  isBranch : t.isBranch = true
  childful : t.Childful
  canonical : t.Canonical

theorem childful_branch_iff {label : Spanned L} {children : List (Tree L W)} :
    (branch label children).Childful ↔ children ≠ [] ∧ ∀ t ∈ children, t.Childful := by
  constructor
  · intro h
    cases h with
    | branch hne hchildren => exact ⟨hne, hchildren⟩
  · rintro ⟨hne, hchildren⟩
    exact .branch hne hchildren

theorem spansLeaves_branch_iff {label : Spanned L} {children : List (Tree L W)} :
    (branch label children).SpansLeaves ↔
      (leafSpansAll children).head?.map Span.start = some label.span.start ∧
        (leafSpansAll children).getLast?.map Span.stop = some label.span.stop ∧
          ∀ t ∈ children, t.SpansLeaves := by
  constructor
  · intro h
    cases h with
    | branch hstart hstop hchildren => exact ⟨hstart, hstop, hchildren⟩
  · rintro ⟨hstart, hstop, hchildren⟩
    exact .branch hstart hstop hchildren

theorem Childful.leaves_ne_nil {t : Tree L W} (h : t.Childful) : t.leaves ≠ [] := by
  induction h with
  | leaf => simp
  | @branch label children hne _ ih =>
      obtain ⟨t, ts, rfl⟩ := List.exists_cons_of_ne_nil hne
      simp [ih t List.mem_cons_self]

theorem leafSpansAll_eq_flatMap (ts : List (Tree L W)) :
    leafSpansAll ts = ts.flatMap leafSpans :=
  eq_flatMap_of_cons rfl (fun _ _ => rfl) ts

theorem length_leafSpans (t : Tree L W) : t.leafSpans.length = t.leaves.length := by
  induction t with
  | leaf word => rfl
  | branch label children ih =>
      rw [leafSpans, leafSpansAll_eq_flatMap, leaves_branch, List.length_flatMap,
        List.length_flatMap, List.map_congr_left ih]

/-! ### From a first position on -/

mutual

/-- The leaves of a tree have the positions from a given one on, and the constituents span them. -/
def Placed (start : Nat) : Tree L W → Prop
  | leaf word => word.span = ⟨start, start + 1⟩
  | branch label children =>
      label.span = ⟨start, start + (leavesAll children).length⟩ ∧ PlacedAll start children

/-- The trees of a row stand one after another, from a given position on. -/
def PlacedAll (start : Nat) : List (Tree L W) → Prop
  | [] => True
  | t :: ts => Placed start t ∧ PlacedAll (start + t.leaves.length) ts

end

theorem placedAll_append {start : Nat} {ts us : List (Tree L W)} :
    PlacedAll start (ts ++ us) ↔
      PlacedAll start ts ∧ PlacedAll (start + (leavesAll ts).length) us := by
  induction ts generalizing start with
  | nil => simp [PlacedAll, leavesAll]
  | cons t ts ih =>
      rw [List.cons_append, PlacedAll, PlacedAll, ih, leavesAll, List.length_append,
        Nat.add_assoc, and_assoc]

/-- A row is placed as a whole if its trees are. -/
theorem placedAll_iff {ts : List (Tree L W)} (start : Nat)
    (h : ∀ t ∈ ts, ∀ start, Placed start t ↔
      t.leafSpans = Span.row start t.leaves.length ∧ t.SpansLeaves) :
    PlacedAll start ts ↔
      leafSpansAll ts = Span.row start (leavesAll ts).length ∧ ∀ t ∈ ts, t.SpansLeaves := by
  induction ts generalizing start with
  | nil => simp [PlacedAll, leafSpansAll, leavesAll, Span.row]
  | cons t ts ih =>
      obtain ⟨ht, hts⟩ := List.forall_mem_cons.mp h
      have hlength : t.leafSpans.length = (Span.row start t.leaves.length).length := by
        rw [Span.length_row, length_leafSpans]
      rw [PlacedAll, ht, ih _ hts, leafSpansAll, leavesAll, List.length_append, Span.row_add,
        List.append_eq_append_iff_of_size_eq_left hlength, List.forall_mem_cons]
      exact and_and_and_comm

/-- Seen from the root, the tree is placed; seen from the leaves, these have their positions and the
constituents span them. -/
theorem placed_iff {t : Tree L W} (h : t.Childful) (start : Nat) :
    Placed start t ↔ t.leafSpans = Span.row start t.leaves.length ∧ t.SpansLeaves := by
  induction t generalizing start with
  | leaf word => simp [Placed, leafSpans, Span.row, SpansLeaves.leaf]
  | branch label children ih =>
      have hpos : 0 < (leavesAll children).length := List.length_pos_iff.mpr h.leaves_ne_nil
      obtain ⟨_, hchildren⟩ := childful_branch_iff.mp h
      have hrow := placedAll_iff start fun t ht => ih t ht (hchildren t ht)
      rw [Placed, hrow, leafSpans, leaves, spansLeaves_branch_iff]
      constructor
      · rintro ⟨hspan, hleaves, hspans⟩
        refine ⟨hleaves, ?_, ?_, hspans⟩
        · rw [hleaves, Span.head?_row hpos, hspan]
        · rw [hleaves, Span.getLast?_row hpos, hspan]
      · rintro ⟨hleaves, hstart, hstop, hspans⟩
        rw [hleaves, Span.head?_row hpos, Option.some_inj] at hstart
        rw [hleaves, Span.getLast?_row hpos, Option.some_inj] at hstop
        refine ⟨?_, hleaves, hspans⟩
        rw [hstop, hstart]

theorem canonical_iff {t : Tree L W} (h : t.Childful) : t.Canonical ↔ Placed 0 t := by
  rw [placed_iff h]
  have hrow : (∀ i (s : Span), t.leafSpans[i]? = some s → s = ⟨i, i + 1⟩) ↔
      t.leafSpans = Span.row 0 t.leaves.length := by
    constructor
    · intro hspan
      apply List.ext_getElem?
      intro i
      rcases Nat.lt_or_ge i t.leaves.length with hi | hi
      · have hget := List.getElem?_eq_getElem (l := t.leafSpans) (i := i)
          (by rwa [length_leafSpans])
        rw [hget, hspan i _ hget, Span.getElem?_row hi, Nat.zero_add]
      · rw [List.getElem?_eq_none (by rwa [length_leafSpans]),
          List.getElem?_eq_none (by rwa [Span.length_row])]
    · intro heq i s hs
      have hi : i < t.leaves.length := by
        rw [← length_leafSpans]
        exact (List.getElem?_eq_some_iff.mp hs).1
      rw [heq, Span.getElem?_row hi, Nat.zero_add] at hs
      exact (Option.some.inj hs).symm
  constructor
  · exact fun hcanonical => ⟨hrow.mp hcanonical.leafSpan_eq, hcanonical.spansLeaves⟩
  · exact fun hplaced => ⟨hrow.mpr hplaced.1, hplaced.2⟩

/-! ### Binary trees -/

theorem Covers.childful {t : Tree L W} {s : Span} (h : t.Covers s) : t.Childful := by
  induction h with
  | lexical => exact .branch (List.cons_ne_nil _ _) (List.forall_mem_singleton.mpr .leaf)
  | binary _ _ _ _ ih ih' =>
      exact .branch (List.cons_ne_nil _ _)
        (List.forall_mem_cons.mpr ⟨ih, List.forall_mem_singleton.mpr ih'⟩)

theorem Covers.stop_eq {t : Tree L W} {s : Span} (h : t.Covers s) :
    s.stop = s.start + t.leaves.length := by
  induction h with
  | lexical => rfl
  | binary _ _ _ _ ih ih' =>
      rw [leaves_binary, List.length_append, ← Nat.add_assoc, ← ih]
      exact ih'

/-- A tree whose spans fit together is placed where its span starts. -/
theorem Covers.placed {t : Tree L W} {s : Span} (h : t.Covers s) : Placed s.start t := by
  induction h with
  | lexical => exact ⟨rfl, rfl, trivial⟩
  | @binary label t u start split stop hstart hstop first second ih ih' =>
      have hsplit : start + t.leaves.length = split := first.stop_eq.symm
      refine ⟨?_, ih, ?_, trivial⟩
      · have hcovers : Covers (branch ⟨label, ⟨start, stop⟩⟩ [t, u]) ⟨start, stop⟩ :=
          .binary hstart hstop first second
        exact congrArg (Span.mk start) hcovers.stop_eq
      · rwa [hsplit]

end Tree

end ChartParser
