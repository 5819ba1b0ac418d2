import ChartParser.Batch
import ChartParser.Proofs.Parse.Completeness
import ChartParser.Proofs.Text.Lines
import ChartParser.Proofs.Text.Tokens
import ChartParser.Proofs.Tree.Annotation
import ChartParser.Proofs.Tree.Printer

/-! # Output lines and input lines

Every line of an input becomes one line of output, which depends on that line alone. It is a tree or
it is empty, and a tree takes no more than its line: its labels are heads of rules, its words are
tokens, and neither have a line end in them. -/

namespace ChartParser

/-! ### Trees on one line -/

theorem Labelling.mem_of_mem_bareLabel {c : Char} {label : String}
    (h : c ∈ (bareLabel label).toList) : c ∈ label.toList := by
  unfold bareLabel at h
  split at h
  · exact h
  · rw [String.toList_ofList] at h
    exact (List.takeWhile_sublist _).subset h

theorem Tree.not_mem_render {t : Tree String String}
    (hlabels : ∀ label ∈ t.labels, '\n' ∉ label.toList)
    (hwords : ∀ word ∈ t.leaves, '\n' ∉ word.toList) : '\n' ∉ t.render := by
  induction t with
  | leaf word => exact hwords word.value (List.mem_singleton_self _)
  | branch label children ih =>
      rw [labels_branch, List.forall_mem_cons, List.forall_mem_flatMap] at hlabels
      rw [leaves_branch, List.forall_mem_flatMap] at hwords
      obtain ⟨hlabel, hbelow⟩ := hlabels
      have hchildren : ∀ t ∈ children, '\n' ∉ t.render := fun t ht =>
        ih t ht (hbelow t ht) (hwords t ht)
      simpa [render, renderAll_eq_flatMap, hlabel] using hchildren

namespace Grammar

variable {g : Grammar} {tokens : List String} {parse : Parse}

theorem labels_of_parse (hheads : ∀ r ∈ g.rules, '\n' ∉ r.head.toList)
    (h : g.parse tokens = some parse) : ∀ label ∈ parse.tree.labels, '\n' ∉ label.toList := by
  intro label hlabel
  obtain ⟨r, hr, rfl⟩ := (g.derives_of_parse tokens h).licensed.exists_rule_of_mem_labels hlabel
  exact hheads r hr

end Grammar

namespace Batch

variable {g : Grammar} {options : Options}

/-! ### One line -/

/-- A line without the carriage return at its end. -/
def withoutReturn (line : List UInt8) : List UInt8 :=
  if line.getLast? = some 13 then line.dropLast else line

theorem withoutLineEnd_of_not_mem {line : List UInt8} (h : 10 ∉ line) :
    withoutLineEnd line = withoutReturn line := by
  rcases List.eq_nil_or_concat line with rfl | ⟨initial, c, rfl⟩
  · rfl
  · have hc : c ≠ 10 := by
      rintro rfl
      simp at h
    unfold withoutLineEnd withoutReturn
    rw [List.concat_eq_append, List.reverse_concat, List.getLast?_concat, List.dropLast_concat]
    split
    · next heq => exact absurd (List.cons.inj heq).1 hc
    · next heq => exact absurd (List.cons.inj heq).1 hc
    · next heq =>
      obtain ⟨rfl, rfl⟩ := List.cons.inj heq
      simp
    · next hother =>
      have hreturn : c ≠ 13 := fun heq => hother initial.reverse (heq ▸ rfl)
      simp [hreturn]

/-- A line feed takes one carriage return with it. -/
theorem withoutLineEnd_append (line : List UInt8) :
    withoutLineEnd (line ++ [10]) = withoutReturn line := by
  rcases List.eq_nil_or_concat line with rfl | ⟨initial, c, rfl⟩
  · rfl
  · unfold withoutLineEnd withoutReturn
    rw [List.concat_eq_append, List.reverse_concat, List.reverse_concat, List.getLast?_concat,
      List.dropLast_concat]
    by_cases hc : c = 13
    · simp [hc]
    · simp [hc]

/-- What becomes of a line that has lost its line end. -/
def outcome (g : Grammar) (tokenizer : Tokenizer) (line : List UInt8) : Outcome :=
  match Text.decodeUtf8 line with
  | none => .notUtf8
  | some sentence =>
      match g.parse (tokenizer.tokenize sentence) with
      | some parse => .parsed parse.tree
      | none => .unparsed

/-- The number of a line shows in its events alone. -/
theorem value_parseLine (g : Grammar) (tokenizer : Tokenizer) (number : Int32)
    (piece : List UInt8) :
    (parseLine g tokenizer number piece).value = outcome g tokenizer (withoutLineEnd piece) := by
  unfold parseLine outcome
  cases Text.decodeUtf8 (withoutLineEnd piece) with
  | none => rfl
  | some sentence =>
      cases hparse : g.parse (tokenizer.tokenize sentence) <;> simp [hparse]

/-- What an output line says of its input line: nothing, if the input line is no text or has no
parse, and otherwise the tree of the parse, with its bare labels if they are asked for. -/
structure Answers (g : Grammar) (options : Options) (line : List UInt8) (output : List Char) :
    Prop where
  eq_nil_iff : output = [] ↔ ∀ sentence, Text.decodeUtf8 (withoutReturn line) = some sentence →
    g.parse (options.tokenizer.tokenize sentence) = none
  eq_render : ∀ sentence parse, Text.decodeUtf8 (withoutReturn line) = some sentence →
    g.parse (options.tokenizer.tokenize sentence) = some parse →
    output = (if options.bareLabels then parse.tree.withBareLabels else parse.tree).render

/-- The output line of an input line. -/
def answer (g : Grammar) (options : Options) (line : List UInt8) : List Char :=
  (outcome g options.tokenizer (withoutReturn line)).line options.bareLabels

theorem line_parsed (tree : Tree String String) (bareLabels : Bool) :
    (Outcome.parsed tree).line bareLabels =
      (if bareLabels then tree.withBareLabels else tree).render := by
  cases bareLabels <;> rfl

/-- A parse is a constituent, so there is something to print. -/
theorem line_parsed_ne_nil {tokens : List String} {parse : Parse}
    (h : g.parse tokens = some parse) (bareLabels : Bool) :
    (Outcome.parsed parse.tree).line bareLabels ≠ [] := by
  obtain ⟨children, htree⟩ := (g.parsesOver_of_parse tokens h).root
  cases bareLabels <;> simp [Outcome.line, htree, Tree.render]

theorem not_mem_line_parsed (hheads : ∀ r ∈ g.rules, '\n' ∉ r.head.toList) {tokenizer : Tokenizer}
    {sentence : String} {parse : Parse}
    (h : g.parse (tokenizer.tokenize sentence) = some parse) (bareLabels : Bool) :
    '\n' ∉ (Outcome.parsed parse.tree).line bareLabels := by
  have hlabels := Grammar.labels_of_parse hheads h
  have hwords : ∀ word ∈ parse.tree.leaves, '\n' ∉ word.toList := by
    intro word hword hmem
    rw [(g.derives_of_parse _ h).leaves_eq] at hword
    have hblank := Tokenizer.blankless_of_mem_tokenize hword '\n' hmem
    contradiction
  cases bareLabels with
  | false => exact Tree.not_mem_render hlabels hwords
  | true =>
      refine Tree.not_mem_render ?_ ?_
      · rw [Tree.labels_withBareLabels, List.forall_mem_map]
        exact fun label hlabel hmem => hlabels label hlabel (Labelling.mem_of_mem_bareLabel hmem)
      · rwa [Tree.leaves_withBareLabels]

theorem answers_answer (g : Grammar) (options : Options) (line : List UInt8) :
    Answers g options line (answer g options line) := by
  unfold answer outcome
  cases hdecode : Text.decodeUtf8 (withoutReturn line) with
  | none => constructor <;> simp [hdecode, Outcome.line]
  | some sentence =>
      cases hparse : g.parse (options.tokenizer.tokenize sentence) with
      | none =>
          constructor
          · simp [hdecode, hparse, Outcome.line]
          · intro other parse hother hsome
            cases hdecode.symm.trans hother
            cases hparse.symm.trans hsome
      | some parse =>
          have hne := line_parsed_ne_nil hparse options.bareLabels
          constructor
          · simp [hdecode, hparse, hne]
          · intro other found hother hfound
            cases hdecode.symm.trans hother
            cases hparse.symm.trans hfound
            simp only [hparse, line_parsed]

theorem not_mem_answer (hheads : ∀ r ∈ g.rules, '\n' ∉ r.head.toList) (options : Options)
    (line : List UInt8) : '\n' ∉ answer g options line := by
  unfold answer outcome
  cases Text.decodeUtf8 (withoutReturn line) with
  | none => exact List.not_mem_nil
  | some sentence =>
      cases hparse : g.parse (options.tokenizer.tokenize sentence) with
      | none => simp [hparse, Outcome.line]
      | some parse => simpa [hparse] using not_mem_line_parsed hheads hparse options.bareLabels

theorem isParsed_iff_answer_ne_nil (g : Grammar) (options : Options) (line : List UInt8) :
    (outcome g options.tokenizer (withoutReturn line)).isParsed = true ↔
      answer g options line ≠ [] := by
  unfold answer outcome
  cases Text.decodeUtf8 (withoutReturn line) with
  | none => simp [Outcome.isParsed, Outcome.line]
  | some sentence =>
      cases hparse : g.parse (options.tokenizer.tokenize sentence) with
      | none => simp [hparse, Outcome.isParsed, Outcome.line]
      | some parse => simpa [hparse, Outcome.isParsed] using line_parsed_ne_nil hparse _

/-! ### All lines -/

/-- The outcomes of the lines of an input, in their order. -/
def outcomes (g : Grammar) (tokenizer : Tokenizer) (input : List UInt8) : List Outcome :=
  (Text.pieces 10 input).map fun piece => outcome g tokenizer (withoutLineEnd piece)

theorem value_run (g : Grammar) (options : Options) (input : List UInt8) :
    (run g options input).value =
      report options.bareLabels (outcomes g options.tokenizer input) := by
  change report options.bareLabels ((((Text.pieces 10 input).zipIdx 1).map _).map Logged.value) = _
  congr 1
  conv_rhs => rw [outcomes, ← List.zipIdx_map_fst 1 (Text.pieces 10 input)]
  rw [List.map_map, List.map_map]
  refine List.map_congr_left ?_
  rintro ⟨piece, number⟩ -
  exact value_parseLine g options.tokenizer (.ofNat number) piece

theorem map_withoutLineEnd_pieces {input : List UInt8} {lines : List (List UInt8)}
    (h : Text.Lined 10 lines input) :
    (Text.pieces 10 input).map withoutLineEnd = lines.map withoutReturn := by
  induction h with
  | nil => rfl
  | last hne hmem =>
      rw [Text.pieces_of_not_mem hne hmem, List.map_singleton, List.map_singleton,
        withoutLineEnd_of_not_mem hmem]
  | cons hmem _ ih =>
      rw [Text.pieces_append hmem, List.map_cons, List.map_cons, withoutLineEnd_append, ih]

theorem outcomes_of_lined {input : List UInt8} {lines : List (List UInt8)}
    (h : Text.Lined 10 lines input) (g : Grammar) (tokenizer : Tokenizer) :
    outcomes g tokenizer input =
      lines.map fun line => outcome g tokenizer (withoutReturn line) := by
  have hpieces := congrArg (List.map (outcome g tokenizer)) (map_withoutLineEnd_pieces h)
  rwa [List.map_map, List.map_map] at hpieces

/-- The reports on two inputs as one. -/
def Report.append (first second : Report) : Report where
  output := first.output ++ second.output
  sentences := first.sentences + second.sentences
  parsed := first.parsed + second.parsed
  failed := first.failed + second.failed

theorem report_append (bareLabels : Bool) (first second : List Outcome) :
    report bareLabels (first ++ second) =
      (report bareLabels first).append (report bareLabels second) := by
  have hfirst := List.countP_le_length (p := Outcome.isParsed) (l := first)
  have hsecond := List.countP_le_length (p := Outcome.isParsed) (l := second)
  simp only [report, Report.append, List.flatMap_append, List.length_append, List.countP_append,
    Report.mk.injEq, true_and]
  omega

/-- A batch writes one line for every line of its input, none with a line end inside, and each of
them answers the input line at its place. The numbers of the report are those of the lines, of the
lines with something on them and of the empty ones. What stands behind a line feed is a batch of
its own. -/
theorem run_spec {g : Grammar} (hheads : ∀ r ∈ g.rules, '\n' ∉ r.head.toList)
    (options : Options) :
    (∀ input, ∃ lines outputs, Text.Lined 10 lines input ∧
      let report := (run g options input).value
      report.output = (outputs.flatMap fun output => output ++ ['\n']) ∧
      (∀ output ∈ outputs, '\n' ∉ output) ∧
      List.Forall₂ (Answers g options) lines outputs ∧
      report.sentences = lines.length ∧
      report.parsed + report.failed = lines.length ∧
      report.parsed = outputs.countP (· ≠ [])) ∧
    ∀ a b, (run g options (a ++ 10 :: b)).value =
      (run g options (a ++ [10])).value.append (run g options b).value := by
  constructor
  · intro input
    obtain ⟨lines, hlines⟩ := Text.exists_lined 10 input
    have hvalue := value_run g options input
    rw [outcomes_of_lined hlines] at hvalue
    refine ⟨lines, lines.map (answer g options), hlines, ?_⟩
    rw [hvalue]
    refine ⟨?_, ?_, ?_, ?_, ?_, ?_⟩
    · simp [report, List.flatMap_map, answer]
    · rw [List.forall_mem_map]
      exact fun line _ => not_mem_answer hheads options line
    · rw [List.forall₂_map_right_iff]
      exact List.forall₂_same.mpr fun line _ => answers_answer g options line
    · simp [report]
    · have hle := List.countP_le_length (p := Outcome.isParsed)
        (l := lines.map fun line => outcome g options.tokenizer (withoutReturn line))
      simp only [report, List.length_map] at hle ⊢
      omega
    · simp only [report, List.countP_map]
      refine List.countP_congr fun line _ => ?_
      simpa using isParsed_iff_answer_ne_nil g options line
  · intro a b
    simp only [value_run, ← report_append, outcomes, ← List.map_append,
      Text.pieces_append_lineEnd a b]

/-- Five lines: a parse before a carriage return, nothing at all, bytes that are no text, a word
without a rule, and a parse before the end of the input. -/
theorem run_spec_doubling :
    let options : Options := ⟨.blanks, false⟩
    let input : List UInt8 := [120, 32, 120, 13, 10, 10, 255, 10, 121, 10, 120]
    (∀ r ∈ Grammar.doubling.rules, '\n' ∉ r.head.toList) ∧
      ∃ lines outputs, Text.Lined 10 lines input ∧
        (outputs.flatMap fun output => output ++ ['\n']) =
          "(S (S x) (S x))\n\n\n\n(S x)\n".toList ∧
        List.Forall₂ (Answers Grammar.doubling options) lines outputs ∧
        lines.length = 5 ∧ outputs.countP (· ≠ []) = 2 := by
  have hheads : ∀ r ∈ Grammar.doubling.rules, '\n' ∉ r.head.toList := by decide
  obtain ⟨lines, outputs, hlines, houtput, -, hanswers, hsentences, -, hparsed⟩ :=
    (run_spec hheads ⟨.blanks, false⟩).1 [120, 32, 120, 13, 10, 10, 255, 10, 121, 10, 120]
  refine ⟨hheads, lines, outputs, hlines, ?_, hanswers, ?_, ?_⟩
  · rw [← houtput]
    decide +kernel
  · rw [← hsentences]
    decide +kernel
  · rw [← hparsed]
    decide +kernel

end Batch

end ChartParser
