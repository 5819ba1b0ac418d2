import ChartParser.GrammarText.Lexeme
import ChartParser.Rule

/-! The lines of a grammar text. A line is a comment, a directive that names the start symbol, or a
head with its alternatives. -/

namespace ChartParser.GrammarText

/-- Why a line is not a line of grammar text. -/
inductive LineFault where
  | lexeme (fault : LexemeFault)
  | afterProbability (text : List Char)
  | emptyAlternative
  | arrowMissing
  | head (fault : LexemeFault)
  | headNotSingle (text : List Char)
  | start (fault : LexemeFault)
  | startNotSingle (text : List Char)
deriving DecidableEq

namespace LineFault

def message : LineFault → String
  | lexeme fault => fault.message
  | afterProbability text => "unexpected input after probability: " ++ String.ofList text
  | emptyAlternative => "empty alternative"
  | arrowMissing => "rule arrow: missing ->"
  | head fault => "rule head: " ++ fault.message
  | headNotSingle text => "rule head: expected one symbol, got " ++ String.ofList text
  | start fault => "%start: " ++ fault.message
  | startNotSingle text => "%start takes exactly one symbol: " ++ String.ofList text

end LineFault

/-- One right-hand side with its probability. -/
structure Alternative where
  body : List Symbol
  prob : Binary64
deriving DecidableEq

/-- What is left of a line where an alternative may end: nothing, the text after a bar, or text
that does not end the alternative. -/
inductive Boundary where
  | lineEnd
  | bar (rest : List Char)
  | more (text : List Char)

/-- Looks past blanks for the end of an alternative. -/
def boundary (text : List Char) : Boundary :=
  match Text.trimStart text with
  | [] => .lineEnd
  | '|' :: rest => .bar rest
  | other => .more other

theorem length_of_boundary_bar {text rest : List Char} (h : boundary text = .bar rest) :
    rest.length < text.length := by
  have ht := Text.length_trimStart_le text
  unfold boundary at h
  split at h
  · contradiction
  next hs =>
    cases h
    rw [hs] at ht
    exact ht
  · contradiction

theorem length_of_boundary_more {text other : List Char} (h : boundary text = .more other) :
    other.length ≤ text.length := by
  have ht := Text.length_trimStart_le text
  unfold boundary at h
  split at h
  · contradiction
  · contradiction
  · cases h
    exact ht

/-- Reads the symbols of an alternative and its probability, which ends it; without a probability
the alternative has probability one. Gives the text after the bar, if a bar ended it. -/
def readBody (text : List Char) : Except LineFault (Alternative × Option (List Char)) :=
  match _hb : boundary text with
  | .lineEnd => .ok (⟨[], .one⟩, none)
  | .bar rest => .ok (⟨[], .one⟩, some rest)
  | .more other =>
      match _hl : readLexeme other with
      | .error fault => .error (.lexeme fault)
      | .ok (.probability prob, after) =>
          match boundary after with
          | .lineEnd => .ok (⟨[], prob⟩, none)
          | .bar rest => .ok (⟨[], prob⟩, some rest)
          | .more unexpected => .error (.afterProbability unexpected)
      | .ok (.label label, after) => do
          let (a, next) ← readBody after
          .ok (⟨.nonterminal label :: a.body, a.prob⟩, next)
      | .ok (.word word, after) => do
          let (a, next) ← readBody after
          .ok (⟨.terminal word :: a.body, a.prob⟩, next)
termination_by text.length
decreasing_by
  all_goals
    exact Nat.lt_of_lt_of_le (length_of_readLexeme _hl) (length_of_boundary_more _hb)

/-- Reads an alternative, which has at least one symbol. -/
def readAlternative (text : List Char) : Except LineFault (Alternative × Option (List Char)) := do
  let (a, next) ← readBody text
  if a.body.isEmpty then .error .emptyAlternative else .ok (a, next)

theorem length_of_readBody {text rest : List Char} {a : Alternative}
    (h : readBody text = .ok (a, some rest)) : rest.length < text.length := by
  fun_induction readBody text generalizing a with
  | case1 => simp at h
  | case2 text rest' hb =>
      cases h
      exact length_of_boundary_bar hb
  | case3 => contradiction
  | case4 text other hb prob after hl hb' => simp at h
  | case5 text other hb prob after hl rest' hb' =>
      cases h
      have h₁ := length_of_boundary_bar hb'
      have h₂ := length_of_readLexeme hl
      have h₃ := length_of_boundary_more hb
      omega
  | case6 => contradiction
  | case7 text other hb label after hl ih =>
      obtain ⟨⟨others, next⟩, hbody, heq⟩ := bind_eq_ok_iff.mp h
      cases heq
      have h₁ := ih hbody
      have h₂ := length_of_readLexeme hl
      have h₃ := length_of_boundary_more hb
      omega
  | case8 text other hb word after hl ih =>
      obtain ⟨⟨others, next⟩, hbody, heq⟩ := bind_eq_ok_iff.mp h
      cases heq
      have h₁ := ih hbody
      have h₂ := length_of_readLexeme hl
      have h₃ := length_of_boundary_more hb
      omega

theorem length_of_readAlternative {text rest : List Char} {a : Alternative}
    (h : readAlternative text = .ok (a, some rest)) : rest.length < text.length := by
  obtain ⟨⟨b, next⟩, hbody, h⟩ := bind_eq_ok_iff.mp h
  simp only at h
  split at h
  · contradiction
  · cases h
    exact length_of_readBody hbody

/-- Reads the alternatives between bars, up to the end of the line. -/
def readAlternatives (text : List Char) : Except LineFault (List Alternative) :=
  match _h : readAlternative text with
  | .error fault => .error fault
  | .ok (a, none) => .ok [a]
  | .ok (a, some rest) => do
      let others ← readAlternatives rest
      .ok (a :: others)
termination_by text.length
decreasing_by exact length_of_readAlternative _h

/-- Cuts a text at its first arrow. -/
def splitArrow : List Char → Option (List Char × List Char)
  | [] => none
  | '-' :: '>' :: rest => some ([], rest)
  | c :: rest => (splitArrow rest).map fun (before, after) => (c :: before, after)

/-- Reads a rule line: one rule for each alternative, all with the same head. -/
def readRules (line : List Char) : Except LineFault (List Rule) :=
  match splitArrow line with
  | none => .error .arrowMissing
  | some (before, after) =>
      let headText := Text.trimStart before
      match readLabel headText with
      | .error fault => .error (.head fault)
      | .ok (head, rest) =>
          if rest.all Text.isBlank then do
            let alternatives ← readAlternatives after
            .ok (alternatives.map fun a => ⟨⟨head, a.body⟩, a.prob⟩)
          else .error (.headNotSingle headText)

/-- Reads the label that a directive names. -/
def readStart (directive : List Char) : Except LineFault String :=
  match readLabel (Text.trimStart directive) with
  | .error fault => .error (.start fault)
  | .ok (label, rest) =>
      if rest.all Text.isBlank then .ok label else .error (.startNotSingle directive)

/-- What a grammar text says: its rules, and its start symbol if a directive names one. -/
structure Draft where
  rules : List Rule := []
  start : Option String := none
deriving DecidableEq

namespace Draft

/-- One text after another: the rules of both, and the start symbol named last. -/
def append (a b : Draft) : Draft := ⟨a.rules ++ b.rules, b.start.or a.start⟩

instance : Append Draft := ⟨append⟩

end Draft

/-- Reads one line, blanks around it removed. An empty line and one that starts with a number sign
say nothing. -/
def readLine (line : List Char) : Except LineFault Draft :=
  match Text.trim line with
  | [] => .ok ⟨[], none⟩
  | '#' :: _ => .ok ⟨[], none⟩
  | '%' :: 's' :: 't' :: 'a' :: 'r' :: 't' :: directive =>
      (readStart directive).map fun label => ⟨[], some label⟩
  | rule => (readRules rule).map fun rules => ⟨rules, none⟩

end ChartParser.GrammarText
