import ChartParser.Proofs.Counts.Trained
import ChartParser.Proofs.Parse.Completeness
import ChartParser.Proofs.Tree.Printer
import ChartParser.Proofs.Treebank.Reader

/-! # Written trees are read back

The form of a tree on one line is made of the tokens of the tree, and the indented form is made of
the same tokens, as it collapses to the other. So both are read back, and so are any number of trees
one below the other. The spans are not written, but they are canonical and found again. -/

namespace ChartParser

open Text Treebank

namespace Treebank

/-! ### Tokens of joined texts -/

theorem IsAtom.spells {name : String} (h : IsAtom name) :
    Spells name.toList [.atom name.toList] := by
  have hatom : Spells (name.toList ++ []) [.atom name.toList] :=
    .atom (by simpa using h.ne_empty) h.chars (by simp) .nil
  rwa [List.append_nil] at hatom

/-- No token goes across the seam of two texts if the second one goes on with no atom. -/
theorem Spells.append {s t : List Char} {ts us : List Token} (hs : Spells s ts) (ht : Spells t us)
    (hhead : ∀ c ∈ t.head?, isAtomChar c = false) : Spells (s ++ t) (ts ++ us) := by
  induction hs with
  | nil => exact ht
  | blank hblank _ ih => exact .blank hblank ih
  | opening _ ih => exact .opening ih
  | closing _ ih => exact .closing ih
  | @atom text rest ts hne hchars hmaximal _ ih =>
      rw [List.append_assoc]
      refine .atom hne hchars ?_ ih
      cases rest with
      | nil => exact hhead
      | cons c rest => exact hmaximal

/-- Collapsing blanks keeps at least one of them between two atoms. -/
theorem Spells.collapseBlanks {s : List Char} {ts : List Token} (h : Spells s ts) :
    Spells (collapseBlanks s) ts := by
  induction h with
  | nil => exact .nil
  | @blank c rest ts hblank _ ih =>
      rw [Text.collapseBlanks_cons, if_pos hblank]
      split
      · exact ih
      · exact .blank (by decide) ih
  | opening _ ih =>
      rw [collapseBlanks_cons_of_not_blank (by decide)]
      exact .opening ih
  | closing _ ih =>
      rw [collapseBlanks_cons_of_not_blank (by decide)]
      exact .closing ih
  | @atom text rest ts hne hchars hmaximal _ ih =>
      have hname : IsAtom (String.ofList text) := .ofList hne hchars
      have htext : ∀ c ∈ text, isBlank c = false := by simpa using hname.not_isBlank
      have hunpadded : Unpadded text := .of_forall_not_blank hne htext
      rw [collapseBlanks_append hunpadded.endsBlank_eq_false,
        collapseBlanks_of_forall_not_blank htext]
      refine .atom hne hchars ?_ ih
      rw [head?_collapseBlanks]
      cases rest with
      | nil => simp
      | cons c rest =>
          have hc : isAtomChar c = false := hmaximal c rfl
          by_cases hblank : isBlank c = true
          · have hspace : isAtomChar ' ' = false := by decide
            simpa [hblank] using hspace
          · simpa [hblank] using hc

theorem spells_collapseBlanks_iff {s : List Char} {ts : List Token} :
    Spells (collapseBlanks s) ts ↔ Spells s ts := by
  constructor
  · intro h
    have hself := (spells_tokens s).collapseBlanks
    rw [spells_iff] at h hself
    rw [spells_iff, ← hself, h]
  · exact Spells.collapseBlanks

end Treebank

/-! ### Tokens of a written tree -/

namespace Tree

/-- A row goes on with no atom, as a space stands before each of its trees. -/
theorem not_isAtomChar_head?_renderAll (ts : List (Tree String String)) :
    ∀ c ∈ (renderAll ts).head?, isAtomChar c = false := by
  have hspace : isAtomChar ' ' = false := by decide
  cases ts with
  | nil => simp [renderAll]
  | cons t ts => simpa [renderAll] using hspace

theorem spells_renderAll {ts : List (Tree String String)}
    (h : ∀ t ∈ ts, Spells t.render t.brackets) : Spells (renderAll ts) (bracketsAll ts) := by
  induction ts with
  | nil => exact .nil
  | cons t ts ih =>
      obtain ⟨ht, hts⟩ := List.forall_mem_cons.mp h
      exact .blank (by decide) (ht.append (ih hts) (not_isAtomChar_head?_renderAll ts))

theorem spells_render {t : Tree String String} (h : t.OfAtoms) : Spells t.render t.brackets := by
  induction h with
  | leaf hword => exact hword.spells
  | @branch label children hlabel _ ih =>
      have hparenthesis : isAtomChar ')' = false := by decide
      have hrow := hlabel.spells.append (spells_renderAll ih)
        (not_isAtomChar_head?_renderAll children)
      rw [render]
      exact .opening (hrow.append (.closing .nil) (by simpa using hparenthesis))

theorem spells_renderIndented {t : Tree String String} (h : t.OfAtoms) :
    Spells t.renderIndented t.brackets := by
  rw [← spells_collapseBlanks_iff, collapseBlanks_renderIndented h]
  exact spells_render h

/-- Trees that can be written and read back: well-formed, and with atoms for labels and words. -/
structure Printable (t : Tree String String) : Prop where
  wellFormed : t.WellFormed
  ofAtoms : t.OfAtoms

end Tree

namespace Treebank

/-! ### Trees one below the other -/

theorem spells_intercalate {trees : List (Tree String String)}
    {form : Tree String String → List Char} (h : ∀ t ∈ trees, Spells (form t) t.brackets) :
    Spells (['\n'].intercalate (trees.map form)) (trees.flatMap Tree.brackets) := by
  induction trees with
  | nil => exact .nil
  | cons t trees ih =>
      obtain ⟨ht, htrees⟩ := List.forall_mem_cons.mp h
      cases trees with
      | nil => simpa using ht
      | cons u trees =>
          have hjoined := Spells.blank (c := '\n') (by decide) (ih htrees)
          have hhead : isAtomChar '\n' = false := by decide
          rw [List.map_cons, List.map_cons, List.intercalate_cons_cons, List.append_assoc]
          exact ht.append hjoined (by simpa using hhead)

theorem read_intercalate {trees : List (Tree String String)}
    {form : Tree String String → List Char} (hprintable : ∀ t ∈ trees, t.Printable)
    (hform : ∀ t ∈ trees, Spells (form t) t.brackets) :
    read (['\n'].intercalate (trees.map form)) = .ok trees :=
  read_eq_ok_iff.mpr ⟨spells_intercalate hform, fun t ht => (hprintable t ht).wellFormed⟩

/-- The trees of a treebank text can be written again. -/
theorem printable_of_read {text : List Char} {trees : List (Tree String String)}
    (h : read text = .ok trees) : ∀ t ∈ trees, t.Printable := fun t ht =>
  ⟨(read_eq_ok_iff.mp h).wellFormed t ht, ofAtoms_of_read h t ht⟩

end Treebank

/-! ### Parses -/

namespace Grammar

theorem Licenses.ofAtoms {g : Grammar} (hg : g.OfAtoms) {t : Tree String String} {v : Binary64}
    (h : g.Licenses t v) : t.OfAtoms := by
  induction h with
  | lexical hrule =>
      have hproduction := hg.rules _ hrule
      have hword := hproduction.body _ (List.mem_singleton_self _)
      exact .branch hproduction.head (List.forall_mem_singleton.mpr (.leaf hword))
  | binary hrule _ _ ih ih' =>
      exact .branch (hg.rules _ hrule).head
        (List.forall_mem_cons.mpr ⟨ih, List.forall_mem_singleton.mpr ih'⟩)

theorem printable_of_parse {g : Grammar} (hg : g.OfAtoms) {tokens : List String} {parse : Parse}
    (h : g.parse tokens = some parse) : parse.tree.Printable := by
  have hparses := g.parsesOver_of_parse tokens h
  have hchildful := hparses.covers.childful
  have hbranch : parse.tree.isBranch = true := by
    obtain ⟨children, htree⟩ := hparses.root
    rw [htree]
    rfl
  refine ⟨⟨hbranch, hchildful, ?_⟩, hparses.licensed.ofAtoms hg⟩
  exact (Tree.canonical_iff hchildful).mpr hparses.covers.placed

end Grammar

namespace Treebank

/-- Written one below the other in either form, printable trees are read back with their spans, and
the two forms of a tree differ in blank space alone. The parses by a grammar whose labels and words
are atoms are printable. -/
theorem read_written :
    (∀ trees : List (Tree String String), (∀ t ∈ trees, t.Printable) →
      read (['\n'].intercalate (trees.map Tree.render)) = .ok trees ∧
        read (['\n'].intercalate (trees.map Tree.renderIndented)) = .ok trees ∧
        ∀ t ∈ trees, collapseBlanks t.renderIndented = t.render) ∧
      ∀ (g : Grammar) (tokens : List String) (parse : Parse), g.OfAtoms →
        g.parse tokens = some parse → parse.tree.Printable := by
  constructor
  · intro trees h
    refine ⟨?_, ?_, ?_⟩
    · exact read_intercalate h fun t ht => Tree.spells_render (h t ht).ofAtoms
    · exact read_intercalate h fun t ht => Tree.spells_renderIndented (h t ht).ofAtoms
    · exact fun t ht => Tree.collapseBlanks_renderIndented (h t ht).ofAtoms
  · exact fun g tokens parse hg hparse => Grammar.printable_of_parse hg hparse

/-- A constituent with words and constituents side by side. -/
def barkingDog : Tree String String :=
  .branch ⟨"S", ⟨0, 4⟩⟩
    [.branch ⟨"NP", ⟨0, 2⟩⟩ [.leaf ⟨"the", ⟨0, 1⟩⟩, .branch ⟨"N", ⟨1, 2⟩⟩ [.leaf ⟨"dog", ⟨1, 2⟩⟩]],
      .leaf ⟨"barks", ⟨2, 3⟩⟩, .branch ⟨"Adv", ⟨3, 4⟩⟩ [.leaf ⟨"loudly", ⟨3, 4⟩⟩]]

example : barkingDog.renderIndented =
    "(S\n  (NP\n    the\n    (N dog))\n  barks\n  (Adv loudly))".toList := by
  decide +kernel

theorem printable_barkingDog : barkingDog.Printable := by
  have hread : read "(S (NP the (N dog)) barks (Adv loudly))".toList = .ok [barkingDog] := by
    decide +kernel
  exact printable_of_read hread barkingDog (List.mem_singleton_self _)

theorem ofAtoms_doubling : Grammar.doubling.OfAtoms := by
  have hsymbol : IsAtom "S" :=
    .ofList (List.cons_ne_nil 'S' []) (List.forall_mem_singleton.mpr (by decide))
  have hword : IsAtom "x" :=
    .ofList (List.cons_ne_nil 'x' []) (List.forall_mem_singleton.mpr (by decide))
  refine ⟨hsymbol, fun r hr => ?_⟩
  rcases List.mem_pair.mp hr with rfl | rfl
  · exact ⟨hsymbol, List.forall_mem_cons.mpr ⟨hsymbol, List.forall_mem_singleton.mpr hsymbol⟩⟩
  · exact ⟨hsymbol, List.forall_mem_singleton.mpr hword⟩

/-- Two trees in either form, and a parse. -/
theorem read_written_barkingDog :
    barkingDog.Printable ∧
      read (['\n'].intercalate ([barkingDog, barkingDog].map Tree.render)) =
        .ok [barkingDog, barkingDog] ∧
      read (['\n'].intercalate ([barkingDog, barkingDog].map Tree.renderIndented)) =
        .ok [barkingDog, barkingDog] ∧
      collapseBlanks barkingDog.renderIndented = barkingDog.render ∧
      Grammar.doubling.OfAtoms ∧
      ∃ parse, Grammar.doubling.parse ["x", "x", "x"] = some parse ∧ parse.tree.Printable := by
  have hprintable : ∀ t ∈ [barkingDog, barkingDog], t.Printable := by
    intro t ht
    obtain rfl : t = barkingDog := by simpa using ht
    exact printable_barkingDog
  obtain ⟨hrender, hindented, hcollapse⟩ := read_written.1 [barkingDog, barkingDog] hprintable
  have hsome : (Grammar.doubling.parse ["x", "x", "x"]).isSome := by decide +kernel
  obtain ⟨parse, hparse⟩ := Option.isSome_iff_exists.mp hsome
  exact ⟨printable_barkingDog, hrender, hindented, hcollapse barkingDog List.mem_cons_self,
    ofAtoms_doubling, parse, hparse, read_written.2 _ _ parse ofAtoms_doubling hparse⟩

end Treebank

end ChartParser
