import ChartParser.Proofs.Counts.Constituents

/-! # Counting is exact

A tree is counted whole or not at all, and what the counts hold after any sequence of trees is the
multiplicity of every production among the constituents of the trees that were counted. Nothing of
it depends on the order of the trees, and the three maps agree with each other. -/

namespace ChartParser

open Std (ExtTreeMap)

namespace RuleCounts

variable {t : Tree String String}

/-! ### One tree -/

theorem exists_countTree_eq_ok (counts : RuleCounts) (labelling : Labelling)
    (h : t.isCountable = true) : ∃ next, counts.countTree labelling t = .ok next := by
  have hproductions : t.productions labelling none = .ok _ :=
    Tree.productions_eq_ok_iff.mpr ⟨h, rfl⟩
  cases t with
  | leaf word => contradiction
  | branch label children =>
      rw [countTree, hproductions]
      exact ⟨_, rfl⟩

/-- Whether a tree is counted does not depend on the counts before it. -/
theorem exists_countTree_eq_error_iff (counts : RuleCounts) (labelling : Labelling) :
    (∃ fault, counts.countTree labelling t = .error fault) ↔ t.isCountable = false := by
  constructor
  · rintro ⟨fault, hfault⟩
    refine Bool.eq_false_iff.mpr fun h => ?_
    obtain ⟨next, hnext⟩ := exists_countTree_eq_ok counts labelling h
    rw [hfault] at hnext
    contradiction
  · intro h
    cases hcount : counts.countTree labelling t with
    | error fault => exact ⟨fault, rfl⟩
    | ok next =>
        obtain ⟨_, used, _, hused, _⟩ := exists_of_countTree hcount
        rw [(Tree.productions_eq_ok_iff.mp hused).1] at h
        contradiction

/-! ### A sequence of trees -/

/-- Counts trees one after another, each under its own labelling. A tree that cannot be counted
leaves the counts as they were before it. -/
def countEach (counts : RuleCounts) (jobs : List (Labelling × Tree String String)) : RuleCounts :=
  jobs.foldl
    (fun counts job =>
      match counts.countTree job.1 job.2 with
      | .ok next => next
      | .error _ => counts)
    counts

/-- The trees of a sequence that are counted. -/
def counted (jobs : List (Labelling × Tree String String)) :
    List (Labelling × Tree String String) :=
  jobs.filter fun job => job.2.isCountable

/-- The annotated productions at the constituents of the trees of a sequence. -/
def uses (jobs : List (Labelling × Tree String String)) : List Production :=
  jobs.flatMap fun job => (job.2.constituents none).map (·.production job.1)

/-- The labels at the roots of the trees of a sequence. -/
def rootLabels (jobs : List (Labelling × Tree String String)) : List String :=
  jobs.filterMap fun job => job.2.rootLabel?

variable {counts : RuleCounts} {jobs jobs' : List (Labelling × Tree String String)}

theorem countEach_cons_of_counted {job : Labelling × Tree String String} {next : RuleCounts}
    (h : counts.countTree job.1 job.2 = .ok next) :
    counts.countEach (job :: jobs) = next.countEach jobs := by
  simp only [countEach, List.foldl_cons, h]

theorem countEach_cons_of_fault {job : Labelling × Tree String String} {fault : CountFault}
    (h : counts.countTree job.1 job.2 = .error fault) :
    counts.countEach (job :: jobs) = counts.countEach jobs := by
  simp only [countEach, List.foldl_cons, h]

/-- The counts are tallies of the productions, their heads and the root labels of the counted
trees, in addition to what was counted before. -/
theorem countEach_eq (counts : RuleCounts) (jobs : List (Labelling × Tree String String)) :
    counts.countEach jobs =
      ⟨(uses (counted jobs)).foldl tally counts.productions,
        ((uses (counted jobs)).map (·.head)).foldl tally counts.heads,
        (rootLabels (counted jobs)).foldl tally counts.roots,
        counts.trees + (counted jobs).length⟩ := by
  induction jobs generalizing counts with
  | nil => rfl
  | cons job jobs ih =>
      cases hjob : job.2.isCountable with
      | true =>
          obtain ⟨next, hnext⟩ := exists_countTree_eq_ok counts job.1 hjob
          obtain ⟨root, used, hroot, hused, heq⟩ := exists_of_countTree hnext
          obtain ⟨_, rfl⟩ := Tree.productions_eq_ok_iff.mp hused
          have hcounted : counted (job :: jobs) = job :: counted jobs :=
            List.filter_cons_of_pos hjob
          have huses : uses (job :: counted jobs) = _ ++ uses (counted jobs) := List.flatMap_cons
          have hroots : rootLabels (job :: counted jobs) = root :: rootLabels (counted jobs) :=
            List.filterMap_cons_some hroot
          rw [countEach_cons_of_counted hnext, ih, hcounted, heq, huses, hroots]
          simp only [List.map_append, List.foldl_append, List.foldl_cons, List.length_cons,
            Nat.add_assoc, Nat.add_comm 1]
      | false =>
          obtain ⟨fault, hfault⟩ :=
            (exists_countTree_eq_error_iff counts job.1).mpr hjob
          have hcounted : counted (job :: jobs) = counted jobs :=
            List.filter_cons_of_neg (by simp [hjob])
          rw [countEach_cons_of_fault hfault, ih, hcounted]

/-- A counted tree has a root label. -/
theorem length_rootLabels_counted (jobs : List (Labelling × Tree String String)) :
    (rootLabels (counted jobs)).length = (counted jobs).length := by
  refine List.filterMap_length_eq_length.mpr fun job hjob => ?_
  have hbranch := (List.mem_filter.mp hjob).2
  cases ht : job.2 with
  | leaf word => simp [ht, Tree.isCountable, Tree.isBranch] at hbranch
  | branch label children => rfl

theorem countEach_perm (h : jobs.Perm jobs') : counts.countEach jobs' = counts.countEach jobs := by
  have hcounted : (counted jobs').Perm (counted jobs) := h.symm.filter _
  have huses : (uses (counted jobs')).Perm (uses (counted jobs)) := hcounted.flatMap_right _
  have hroots : (rootLabels (counted jobs')).Perm (rootLabels (counted jobs)) :=
    hcounted.filterMap _
  rw [countEach_eq, countEach_eq, foldl_tally_perm huses, foldl_tally_perm (huses.map _),
    foldl_tally_perm hroots, hcounted.length_eq]

/-- Trees are counted one after another from nothing, each under its own labelling. A tree fails
exactly if it is a bare word or has a constituent that is not in normal form. The count of a
production is the number of constituents of counted trees at which it stands, that of a head is the
sum over its productions, the counts of the roots add up to the number of trees, and any other order
of the trees gives the same counts. -/
theorem countEach_spec (jobs : List (Labelling × Tree String String)) :
    let counts := empty.countEach jobs
    (∀ (before : RuleCounts) (labelling : Labelling) (t : Tree String String),
      (∃ fault, before.countTree labelling t = .error fault) ↔
        t.isLeaf = true ∨ ∃ c ∈ t.constituents none, c.isNormal = false) ∧
    (∀ p, counts.count p = (uses (counted jobs)).count p) ∧
    (∀ head, counts.heads[head]?.getD 0 =
      ((counts.productions.toList.filter (·.1.head = head)).map (·.2)).sum) ∧
    (counts.roots.toList.map (·.2)).sum = counts.trees ∧
    counts.trees = (counted jobs).length ∧
    ∀ jobs', jobs.Perm jobs' → empty.countEach jobs' = counts := by
  intro counts
  have hcounts : counts = _ := countEach_eq empty jobs
  have htrees : counts.trees = (counted jobs).length := by
    rw [hcounts]
    exact Nat.zero_add _
  refine ⟨?_, ?_, ?_, ?_, htrees, fun jobs' h => countEach_perm h⟩
  · intro before labelling t
    exact (exists_countTree_eq_error_iff before labelling).trans Tree.isCountable_eq_false_iff
  · intro p
    rw [hcounts]
    exact getD_foldl_tally (uses (counted jobs)) p
  · intro head
    rw [hcounts]
    calc
      _ = ((uses (counted jobs)).map (·.head)).count head := getD_foldl_tally _ head
      _ = (uses (counted jobs)).countP (·.head = head) := by
          rw [List.count, List.countP_map]
          rfl
      _ = _ := (sum_filter_foldl_tally (uses (counted jobs)) (·.head = head)).symm
  · rw [htrees, hcounts, ← length_rootLabels_counted]
    exact sum_foldl_tally (rootLabels (counted jobs))

/-- A tree counted under parent labels, one that is not in normal form, and one with the label that
the first annotates its `A` with. -/
def mixedJobs : List (Labelling × Tree String String) :=
  [(.parent, .branch ⟨"S", ⟨0, 2⟩⟩ [.branch ⟨"A", ⟨0, 1⟩⟩ [.leaf ⟨"a", ⟨0, 1⟩⟩],
      .branch ⟨"B", ⟨1, 2⟩⟩ [.leaf ⟨"b", ⟨1, 2⟩⟩]]),
    (.bare, .branch ⟨"S", ⟨0, 1⟩⟩ [.branch ⟨"A^S", ⟨0, 1⟩⟩ [.leaf ⟨"a", ⟨0, 1⟩⟩]]),
    (.bare, .branch ⟨"A^S", ⟨0, 1⟩⟩ [.leaf ⟨"a", ⟨0, 1⟩⟩])]

/-- The second tree counts for nothing, and the annotated label of the first and the bare one of
the third are the same, in whatever order they come. -/
theorem countEach_spec_mixedJobs :
    mixedJobs.Perm mixedJobs.reverse ∧
      (empty.countEach mixedJobs).count ⟨"A^S", [.terminal "a"]⟩ = 2 ∧
      (empty.countEach mixedJobs).trees = 2 ∧
      empty.countEach mixedJobs.reverse = empty.countEach mixedJobs := by
  obtain ⟨_, hcount, _, _, htrees, hperm⟩ := countEach_spec mixedJobs
  have hreverse : mixedJobs.Perm mixedJobs.reverse := mixedJobs.reverse_perm.symm
  refine ⟨hreverse, ?_, ?_, hperm _ hreverse⟩
  · rw [hcount]
    decide +kernel
  · rw [htrees]
    decide +kernel

end RuleCounts

end ChartParser
