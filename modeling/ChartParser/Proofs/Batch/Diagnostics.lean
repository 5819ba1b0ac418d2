import ChartParser.Proofs.Batch.Alignment
import ChartParser.Proofs.Text.Stability
import Mathlib.Algebra.GroupWithZero.Nat
import Std.Data.String.ToInt

/-! # Diagnostics of a batch

A batch reports on its lines between the events of its parses. Its complaints are about the lines
that got an empty line of output, each of them once and in their order, and the totals come last. A
complaint names its line as long as the number of the line fits into 31 bits. -/

namespace ChartParser

namespace Event

/-- Whether an event is about a line that was not parsed. -/
def isComplaint (e : Event) : Bool :=
  e.message = "no parse" || e.message = "sentence is not valid utf-8, skipping"

theorem isComplaint_of_mem_fillEvents {g : Grammar} {tokens : List String} {e : Event}
    (h : e ∈ g.fillEvents tokens) : e.isComplaint = false := by
  rcases List.mem_append.mp h with h | h
  · obtain ⟨⟨word, position⟩, -, he⟩ := List.mem_filterMap.mp h
    obtain ⟨-, hevent⟩ := Option.ite_none_right_eq_some.mp he
    obtain rfl := Option.some.inj hevent
    rfl
  · obtain ⟨width, -, rfl⟩ := List.mem_map.mp h
    rfl

end Event

namespace Batch

variable {g : Grammar} {options : Options}

/-! ### Numbered lines -/

theorem pairwise_zipIdx {α : Type} (l : List α) (n : Nat) :
    (l.zipIdx n).Pairwise fun a b => a.2 < b.2 := by
  rw [← List.pairwise_map, List.zipIdx_map_snd]
  exact List.pairwise_lt_range'

theorem mem_zipIdx_one_iff {α : Type} {l : List α} {a : α} {n : Nat} :
    (a, n) ∈ l.zipIdx 1 ↔ ∃ k, n = k + 1 ∧ l[k]? = some a := by
  rw [List.mk_mem_zipIdx_iff_le_and_getElem?_sub]
  constructor
  · rintro ⟨hle, hget⟩
    exact ⟨n - 1, by omega, hget⟩
  · rintro ⟨k, rfl, hget⟩
    exact ⟨by omega, hget⟩

/-- The numbers of the empty lines of output. -/
def emptyLines (outputs : List (List Char)) : List Nat :=
  (outputs.zipIdx 1).filterMap fun output => if output.1 = [] then some output.2 else none

theorem pairwise_emptyLines (outputs : List (List Char)) :
    (emptyLines outputs).Pairwise (· < ·) := by
  refine (pairwise_zipIdx outputs 1).filterMap _ ?_
  intro a b hlt n hn m hm
  obtain ⟨-, ha⟩ := Option.ite_none_right_eq_some.mp hn
  obtain ⟨-, hb⟩ := Option.ite_none_right_eq_some.mp hm
  obtain rfl := Option.some.inj ha
  obtain rfl := Option.some.inj hb
  exact hlt

theorem mem_emptyLines {outputs : List (List Char)} {n : Nat} :
    n ∈ emptyLines outputs ↔ ∃ k, n = k + 1 ∧ outputs[k]? = some [] := by
  rw [emptyLines, List.mem_filterMap]
  constructor
  · rintro ⟨⟨output, m⟩, hmem, hn⟩
    obtain ⟨rfl, hm⟩ := Option.ite_none_right_eq_some.mp hn
    obtain rfl := Option.some.inj hm
    exact mem_zipIdx_one_iff.mp hmem
  · intro h
    exact ⟨([], n), mem_zipIdx_one_iff.mpr h, by simp⟩

/-- The number of a line is reported as it is if it fits into 31 bits, and never otherwise. -/
theorem repr_toInt_ofNat_eq_iff {n : Nat} : (Int32.ofNat n).toInt.repr = n.repr ↔ n < 2 ^ 31 := by
  have hrepr : n.repr = (n : Int).repr := rfl
  rw [hrepr, Int.repr_inj]
  constructor
  · intro h
    have hlt := Int32.toInt_lt (.ofNat n)
    omega
  · exact Int32.toInt_ofNat_of_lt

/-! ### One line -/

/-- The complaint about a line that has lost its line end, if it is not parsed. -/
def complaint? (g : Grammar) (tokenizer : Tokenizer) (number : Int32) (line : List UInt8) :
    Option Event :=
  match Text.decodeUtf8 line with
  | none => some (.sentenceNotUtf8 number)
  | some sentence =>
      match g.parse (tokenizer.tokenize sentence) with
      | some _ => none
      | none => some (.noParse number (tokenizer.tokenize sentence).length)

theorem filter_events_parseLine (g : Grammar) (tokenizer : Tokenizer) (number : Int32)
    (piece : List UInt8) :
    (parseLine g tokenizer number piece).events.filter Event.isComplaint =
      (complaint? g tokenizer number (withoutLineEnd piece)).toList := by
  have hfill : ∀ tokens, (g.fillEvents tokens).filter Event.isComplaint = [] := by
    intro tokens
    rw [List.filter_eq_nil_iff]
    intro e he
    rw [Event.isComplaint_of_mem_fillEvents he]
    simp
  unfold parseLine complaint?
  cases Text.decodeUtf8 (withoutLineEnd piece) with
  | none => rfl
  | some sentence =>
      simp only
      cases g.parse (tokenizer.tokenize sentence) with
      | some parse => simp [hfill]
      | none => simp [hfill, Event.isComplaint, Event.message]

theorem complaint?_eq_some_iff {tokenizer : Tokenizer} {number : Int32} {line : List UInt8}
    {e : Event} :
    complaint? g tokenizer number line = some e ↔
      Text.decodeUtf8 line = none ∧ e = .sentenceNotUtf8 number ∨
      ∃ sentence, Text.decodeUtf8 line = some sentence ∧
        g.parse (tokenizer.tokenize sentence) = none ∧
        e = .noParse number (tokenizer.tokenize sentence).length := by
  unfold complaint?
  cases Text.decodeUtf8 line with
  | none => simp [eq_comm]
  | some sentence => cases hparse : g.parse (tokenizer.tokenize sentence) <;> simp [hparse, eq_comm]

/-- What a complaint says about the line with a given number: that number, in 32 bits with a sign,
and what is wrong with the line. -/
structure Complains (lines : List (List UInt8)) (n : Nat) (e : Event) : Prop where
  lookup_line : e.fields.lookup "line" = some (Int32.ofNat n).toInt.repr
  message : ∃ line, lines[n - 1]? = some line ∧
    e.message = if Text.decodeUtf8 (withoutReturn line) = none then
      "sentence is not valid utf-8, skipping" else "no parse"

theorem complains_of_complaint? {lines : List (List UInt8)} {tokenizer : Tokenizer} {n : Nat}
    {line : List UInt8} {e : Event} (hmem : (line, n) ∈ lines.zipIdx 1)
    (h : complaint? g tokenizer (.ofNat n) (withoutReturn line) = some e) :
    Complains lines n e := by
  obtain ⟨k, rfl, hline⟩ := mem_zipIdx_one_iff.mp hmem
  rcases complaint?_eq_some_iff.mp h with ⟨hdecode, rfl⟩ | ⟨sentence, hdecode, -, rfl⟩
  · exact ⟨rfl, line, hline, by simp [hdecode, Event.message]⟩
  · exact ⟨rfl, line, hline, by simp [hdecode, Event.message]⟩

theorem isSome_complaint? (g : Grammar) (tokenizer : Tokenizer) (number : Int32)
    (line : List UInt8) :
    (complaint? g tokenizer number line).isSome = !(outcome g tokenizer line).isParsed := by
  unfold complaint? outcome
  cases Text.decodeUtf8 line with
  | none => rfl
  | some sentence =>
      cases hparse : g.parse (tokenizer.tokenize sentence) <;> simp [hparse, Outcome.isParsed]

/-- A line is complained about if its output line is empty. -/
theorem isSome_complaint?_iff {number : Int32} {line : List UInt8} :
    (complaint? g options.tokenizer number (withoutReturn line)).isSome = true ↔
      answer g options line = [] := by
  rw [isSome_complaint?, Bool.not_eq_true', ← Bool.not_eq_true,
    isParsed_iff_answer_ne_nil, not_not]

/-! ### All lines -/

variable {input : List UInt8} {lines : List (List UInt8)}

theorem output_run (h : Text.Lined 10 lines input) (g : Grammar) (options : Options) :
    (run g options input).value.output =
      (lines.map (answer g options)).flatMap fun output => output ++ ['\n'] := by
  rw [value_run, outcomes_of_lined h]
  simp [report, List.flatMap_map, answer]

/-- The output lines are the answers to the input lines. -/
theorem lined_output_run (hheads : ∀ r ∈ g.rules, '\n' ∉ r.head.toList) (options : Options)
    (h : Text.Lined 10 lines input) :
    Text.Lined '\n' (lines.map (answer g options)) (run g options input).value.output := by
  have hanswers : ∀ output ∈ lines.map (answer g options), '\n' ∉ output :=
    List.forall_mem_map.mpr fun line _ => not_mem_answer hheads options line
  rw [output_run h]
  exact Text.lined_flatMap hanswers

theorem filter_events_run (h : Text.Lined 10 lines input) (g : Grammar) (options : Options) :
    (run g options input).events.filter Event.isComplaint =
      (lines.zipIdx 1).filterMap fun line =>
        complaint? g options.tokenizer (.ofNat line.2) (withoutReturn line.1) := by
  have hpieces : ((Text.pieces 10 input).zipIdx 1).map (Prod.map withoutLineEnd id) =
      (lines.zipIdx 1).map (Prod.map withoutReturn id) := by
    rw [← List.zipIdx_map, ← List.zipIdx_map, map_withoutLineEnd_pieces h]
  have hcomplaints := congrArg (List.filterMap fun line : List UInt8 × Nat =>
    complaint? g options.tokenizer (.ofNat line.2) line.1) hpieces
  rw [List.filterMap_map, List.filterMap_map] at hcomplaints
  rw [run, List.filter_append, List.filter_flatMap, List.flatMap_map]
  simp only [filter_events_parseLine]
  rw [← List.filterMap_eq_flatMap_toList, List.filter_singleton]
  simpa [Event.isComplaint, Event.message] using hcomplaints

theorem mem_filter_events_run (h : Text.Lined 10 lines input) {e : Event} :
    e ∈ (run g options input).events.filter Event.isComplaint ↔
      ∃ k line, lines[k]? = some line ∧
        complaint? g options.tokenizer (.ofNat (k + 1)) (withoutReturn line) = some e := by
  rw [filter_events_run h, List.mem_filterMap]
  constructor
  · rintro ⟨⟨line, n⟩, hmem, he⟩
    obtain ⟨k, rfl, hline⟩ := mem_zipIdx_one_iff.mp hmem
    exact ⟨k, line, hline, he⟩
  · rintro ⟨k, line, hline, he⟩
    exact ⟨(line, k + 1), mem_zipIdx_one_iff.mpr ⟨k, rfl, hline⟩, he⟩

/-- There are as many complaints as lines that were not parsed. -/
theorem length_filter_events_run (h : Text.Lined 10 lines input) :
    ((run g options input).events.filter Event.isComplaint).length =
      (run g options input).value.failed := by
  have hlines : (lines.countP fun line =>
        !(outcome g options.tokenizer (withoutReturn line)).isParsed) =
      (lines.zipIdx 1).countP fun line =>
        (complaint? g options.tokenizer (.ofNat line.2) (withoutReturn line.1)).isSome := by
    conv_lhs => rw [← List.zipIdx_map_fst 1 lines]
    rw [List.countP_map]
    refine List.countP_congr fun line _ => ?_
    simp [isSome_complaint?]
  have hcount := List.length_eq_countP_add_countP
    (fun line => (outcome g options.tokenizer (withoutReturn line)).isParsed) (l := lines)
  rw [filter_events_run h, List.length_filterMap_eq_countP, ← hlines, value_run, report,
    outcomes_of_lined h]
  simp only [List.countP_map, List.length_map, Function.comp_def]
  simp only [Bool.not_eq_true, Bool.decide_eq_false] at hcount
  omega

/-- The complaints are about the lines with empty output, one about each and in their order. -/
theorem forall₂_emptyLines (h : Text.Lined 10 lines input) (g : Grammar) (options : Options) :
    List.Forall₂ (Complains lines) (emptyLines (lines.map (answer g options)))
      ((run g options input).events.filter Event.isComplaint) := by
  rw [filter_events_run h, emptyLines, List.zipIdx_map, List.filterMap_map]
  have hsame : List.Forall₂ (fun a b => a = b ∧ a ∈ lines.zipIdx 1) (lines.zipIdx 1)
      (lines.zipIdx 1) := List.forall₂_same.mpr fun a ha => ⟨rfl, ha⟩
  refine List.rel_filterMap ?_ hsame
  rintro ⟨line, n⟩ _ ⟨rfl, hmem⟩
  have hempty : (complaint? g options.tokenizer (.ofNat n) (withoutReturn line)).isSome = true ↔
      answer g options line = [] := isSome_complaint?_iff
  change Option.Rel (Complains lines) (if answer g options line = [] then some n else none)
    (complaint? g options.tokenizer (.ofNat n) (withoutReturn line))
  cases hcomplaint : complaint? g options.tokenizer (.ofNat n) (withoutReturn line) with
  | none =>
      have hanswer : answer g options line ≠ [] := by simpa [hcomplaint] using hempty
      rw [if_neg hanswer]
      exact .none
  | some e =>
      have hanswer : answer g options line = [] := by simpa [hcomplaint] using hempty
      rw [if_pos hanswer]
      exact .some (complains_of_complaint? hmem hcomplaint)

/-- Complaints name their lines as long as the numbers of these fit into 31 bits. -/
theorem map_lookup_eq_iff {numbers : List Nat} {complaints : List Event}
    (h : List.Forall₂ (Complains lines) numbers complaints) :
    complaints.map (fun e => e.fields.lookup "line") = numbers.map (fun n => some n.repr) ↔
      ∀ n ∈ numbers, n < 2 ^ 31 := by
  have hlookup : numbers.map (fun n => some (Int32.ofNat n).toInt.repr) =
      complaints.map fun e => e.fields.lookup "line" := by
    rw [← List.forall₂_eq_eq_eq, List.forall₂_map_left_iff, List.forall₂_map_right_iff]
    exact h.imp fun _ _ hcomplains => hcomplains.lookup_line.symm
  rw [← hlookup, List.map_inj_left]
  simp only [Option.some_inj, repr_toInt_ofNat_eq_iff]

theorem answer_of_notUtf8 {line : List UInt8} (h : Text.decodeUtf8 (withoutReturn line) = none) :
    answer g options line = [] := by
  unfold answer outcome
  rw [h]
  rfl

/-! ### Line feeds alone -/

theorem flatMap_replicate_nil {α : Type} (lineEnd : α) (n : Nat) :
    (List.replicate n []).flatMap (fun line => line ++ [lineEnd]) = List.replicate n lineEnd := by
  rw [List.flatMap_replicate, List.nil_append, List.flatten_replicate_singleton]

theorem lined_lineFeeds (n : Nat) :
    Text.Lined (10 : UInt8) (List.replicate n []) (List.replicate n 10) := by
  have hlines : ∀ line ∈ List.replicate n ([] : List UInt8), 10 ∉ line := by
    intro line hline
    rw [List.eq_of_mem_replicate hline]
    exact List.not_mem_nil
  have hlined := Text.lined_flatMap hlines
  rwa [flatMap_replicate_nil] at hlined

/-- An empty line has no parse. -/
theorem complaint?_nil (g : Grammar) (tokenizer : Tokenizer) (number : Int32) :
    complaint? g tokenizer number [] = some (.noParse number 0) := by
  have htokens : tokenizer.tokenize "" = [] := by
    cases tokenizer with
    | words => simp [Tokenizer.tokenize]
    | blanks => rfl
  refine complaint?_eq_some_iff.mpr (.inr ⟨"", rfl, ?_, ?_⟩)
  · rw [htokens, g.parse_nil]
  · rw [htokens, List.length_nil]

/-- Every one of some empty lines is complained about. -/
theorem mem_filter_events_run_lineFeeds {n : Nat} {e : Event} :
    e ∈ (run g options (List.replicate n 10)).events.filter Event.isComplaint ↔
      ∃ k < n, e = .noParse (.ofNat (k + 1)) 0 := by
  rw [mem_filter_events_run (lined_lineFeeds n)]
  constructor
  · rintro ⟨k, line, hline, he⟩
    rw [List.getElem?_replicate] at hline
    obtain ⟨hk, hnil⟩ := Option.ite_none_right_eq_some.mp hline
    obtain rfl := Option.some.inj hnil
    exact ⟨k, hk, Option.some.inj (he.symm.trans (complaint?_nil g options.tokenizer _))⟩
  · rintro ⟨k, hk, rfl⟩
    exact ⟨k, [], List.getElem?_replicate_of_lt hk, complaint?_nil g options.tokenizer _⟩

/-- Empty lines are written for empty lines. -/
theorem output_run_lineFeeds (g : Grammar) (options : Options) (n : Nat) :
    (run g options (List.replicate n 10)).value.output = List.replicate n '\n' := by
  have hanswer : answer g options [] = [] :=
    isSome_complaint?_iff.mp (Option.isSome_of_eq_some (complaint?_nil g options.tokenizer 0))
  rw [output_run (lined_lineFeeds n), List.map_replicate, hanswer, flatMap_replicate_nil]

/-! ### Complaints and empty lines of output -/

/-- A batch complains about every line that gets an empty line of output, once, in the order of the
lines, and about no other: that it is not UTF-8 if it is not, and else that it has no parse. The
number in a complaint has 32 bits and a sign, so the complaints name their lines exactly if all of
these come before line `2 ^ 31`. The totals that it reports at the end are those that it gives, and
the failures among them are as many as the complaints. -/
theorem run_complaints (hheads : ∀ r ∈ g.rules, '\n' ∉ r.head.toList) (options : Options)
    (input : List UInt8) :
    ∃ (lines : List (List UInt8)) (outputs : List (List Char)) (numbers : List Nat),
      Text.Lined 10 lines input ∧
      let report := (run g options input).value
      let events := (run g options input).events
      let complaints := events.filter Event.isComplaint
      Text.Lined '\n' outputs report.output ∧
      outputs.length = lines.length ∧
      numbers.Pairwise (· < ·) ∧
      (∀ n, n ∈ numbers ↔ ∃ k, n = k + 1 ∧ outputs[k]? = some []) ∧
      (∀ k line, lines[k]? = some line → Text.decodeUtf8 (withoutReturn line) = none →
        k + 1 ∈ numbers) ∧
      List.Forall₂ (Complains lines) numbers complaints ∧
      (complaints.map (fun e => e.fields.lookup "line") = numbers.map (fun n => some n.repr) ↔
        ∀ n ∈ numbers, n < 2 ^ 31) ∧
      (∃ totals, events.getLast? = some totals ∧ totals.message = "parsed sentences" ∧
        totals.fields = [("sentences", report.sentences.repr), ("parsed", report.parsed.repr),
          ("failed", report.failed.repr)]) ∧
      report.failed = complaints.length := by
  obtain ⟨lines, hlines⟩ := Text.exists_lined 10 input
  have hcomplaints := forall₂_emptyLines hlines g options
  refine ⟨lines, lines.map (answer g options), emptyLines (lines.map (answer g options)), hlines,
    ?_, ?_, ?_, ?_, ?_, hcomplaints, ?_, ?_, ?_⟩
  · exact lined_output_run hheads options hlines
  · exact List.length_map ..
  · exact pairwise_emptyLines _
  · exact fun n => mem_emptyLines
  · intro k line hline hdecode
    refine mem_emptyLines.mpr ⟨k, rfl, ?_⟩
    rw [List.getElem?_map, hline, Option.map_some, answer_of_notUtf8 hdecode]
  · exact map_lookup_eq_iff hcomplaints
  · exact ⟨_, List.getLast?_concat .., rfl, rfl⟩
  · exact (length_filter_events_run hlines).symm

/-- Of five lines the second is empty, the third is no text and the fourth has a word without a
rule. -/
theorem run_complaints_doubling :
    let input : List UInt8 := [120, 32, 120, 13, 10, 10, 255, 10, 121, 10, 120]
    let result := run Grammar.doubling ⟨.blanks, false⟩ input
    let complaints := result.events.filter Event.isComplaint
    (∀ r ∈ Grammar.doubling.rules, '\n' ∉ r.head.toList) ∧
      (∃ (lines : List (List UInt8)) (outputs : List (List Char)) (numbers : List Nat),
        Text.Lined 10 lines input ∧ Text.Lined '\n' outputs result.value.output ∧
        (∀ n, n ∈ numbers ↔ ∃ k, n = k + 1 ∧ outputs[k]? = some []) ∧
        List.Forall₂ (Complains lines) numbers complaints) ∧
      complaints.map (fun e => e.fields.lookup "line") = [some "2", some "3", some "4"] ∧
      (∃ totals, result.events.getLast? = some totals ∧
        totals.fields = [("sentences", "5"), ("parsed", "2"), ("failed", "3")]) ∧
      complaints.length = 3 := by
  intro input result complaints
  have hheads : ∀ r ∈ Grammar.doubling.rules, '\n' ∉ r.head.toList := by decide
  obtain ⟨lines, outputs, numbers, hlines, houtput, -, -, hnumbers, -, hcomplaints, -, htotals,
    hfailed⟩ := run_complaints hheads ⟨.blanks, false⟩ input
  obtain ⟨totals, hlast, -, hfields⟩ := htotals
  have hreport : result.value.sentences = 5 ∧ result.value.parsed = 2 ∧
      result.value.failed = 3 := by decide +kernel
  obtain ⟨hsentences, hparsed, hthree⟩ := hreport
  refine ⟨hheads, ⟨lines, outputs, numbers, hlines, houtput, hnumbers, hcomplaints⟩, ?_,
    ⟨totals, hlast, ?_⟩, ?_⟩
  · decide +kernel
  · rw [hfields, hsentences, hparsed, hthree]
    decide
  · exact hfailed.symm.trans hthree

/-- The last one of `2 ^ 31` empty lines is complained about, but not by its number. -/
theorem exists_complaint_lineFeeds :
    let input : List UInt8 := List.replicate (2 ^ 31) 10
    let result := run Grammar.doubling ⟨.blanks, false⟩ input
    let complaints := result.events.filter Event.isComplaint
    (∀ r ∈ Grammar.doubling.rules, '\n' ∉ r.head.toList) ∧
      result.value.output = List.replicate (2 ^ 31) '\n' ∧
      (∃ e ∈ complaints, e.message = "no parse" ∧
        e.fields.lookup "line" = some "-2147483648") ∧
      ∀ e ∈ complaints, e.fields.lookup "line" ≠ some "2147483648" := by
  intro input result complaints
  refine ⟨by decide, output_run_lineFeeds .., ?_, ?_⟩
  · have hlast : Event.noParse (.ofNat (2 ^ 31 - 1 + 1)) 0 ∈ complaints :=
      mem_filter_events_run_lineFeeds.mpr ⟨2 ^ 31 - 1, by decide, rfl⟩
    exact ⟨_, hlast, rfl, by decide +kernel⟩
  · intro e he hline
    obtain ⟨k, -, rfl⟩ := mem_filter_events_run_lineFeeds.mp he
    have hrepr : (Int32.ofNat (k + 1)).toInt.repr = Int.repr 2147483648 := Option.some.inj hline
    have heq := Int.repr_inj.mp hrepr
    have hlt := Int32.toInt_lt (.ofNat (k + 1))
    omega

end Batch

end ChartParser
