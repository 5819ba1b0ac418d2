import ChartParser.Binary64.Numeral
import ChartParser.Except
import ChartParser.Text.Blank

/-! The lexemes of a rule line: bare labels, quoted words and bracketed probabilities. Each is read
by longest match at the front of a text, together with the text after it. -/

namespace ChartParser.GrammarText

/-- Why no lexeme stands at the front of a text. The text is kept as it was met. -/
inductive LexemeFault where
  | labelExpected (text : List Char)
  | quotedWordExpected (text : List Char)
  | emptyWord
  | numberExpected (text : List Char)
  | bracketExpected (text : List Char)
deriving DecidableEq

namespace LexemeFault

/-- Says which pattern did not match, and where. -/
def mismatch (pattern : String) (text : List Char) : String :=
  "couldn't match " ++ pattern ++ " at " ++ String.ofList text

def message : LexemeFault → String
  | labelExpected text => "nonterminal: " ++ mismatch "(?:[^\\s\"'\\[\\]|\\\\]|\\\\.)+" text
  | quotedWordExpected text =>
      "terminal: " ++ mismatch "\"(?:[^\"\\\\]|\\\\.)*\"|'(?:[^'\\\\]|\\\\.)*'" text
  | emptyWord => "terminal: empty string is not a word"
  | numberExpected text =>
      "probability: " ++ mismatch "\\+?([0-9]+\\.?[0-9]*|\\.[0-9]+)([eE][-+]?[0-9]+)?" text
  | bracketExpected text => mismatch "]" text

end LexemeFault

/-- A lexeme as what it stands for. -/
inductive Lexeme where
  | label (label : String)
  | word (word : String)
  | probability (prob : Binary64)
deriving DecidableEq

/-- Characters that end a bare label unless a backslash stands before them. -/
def endsLabel (c : Char) : Bool :=
  Text.isBlank c || ['\\', '"', '\'', '[', ']', '|'].contains c

/-- The longest bare label at the front of a text, without its backslashes, and the text after it.
A backslash at the end of a line escapes nothing. -/
def scanLabel : List Char → List Char × List Char
  | [] => ([], [])
  | '\\' :: c :: rest =>
      if c = '\n' then ([], '\\' :: c :: rest)
      else
        let (label, after) := scanLabel rest
        (c :: label, after)
  | c :: rest =>
      if endsLabel c then ([], c :: rest)
      else
        let (label, after) := scanLabel rest
        (c :: label, after)

/-- The content of a quoted word up to the closing quote, without its backslashes, and the text
after that quote. -/
def scanQuoted (quote : Char) : List Char → Option (List Char × List Char)
  | [] => none
  | '\\' :: c :: rest =>
      if c = '\n' then none
      else (scanQuoted quote rest).map fun (word, after) => (c :: word, after)
  | c :: rest =>
      if c = quote then some ([], rest)
      else if c = '\\' then none
      else (scanQuoted quote rest).map fun (word, after) => (c :: word, after)

/-- Reads a bare label. -/
def readLabel (text : List Char) : Except LexemeFault (String × List Char) :=
  match scanLabel text with
  | ([], _) => .error (.labelExpected text)
  | (label, after) => .ok (String.ofList label, after)

/-- Reads a word in double or in single quotes. -/
def readWord (text : List Char) : Except LexemeFault (String × List Char) :=
  let quoted? :=
    match text with
    | '"' :: rest => scanQuoted '"' rest
    | '\'' :: rest => scanQuoted '\'' rest
    | _ => none
  match quoted? with
  | none => .error (.quotedWordExpected text)
  | some ([], _) => .error .emptyWord
  | some (word, after) => .ok (String.ofList word, after)

/-- Reads an unsigned number, before which a plus sign may stand. -/
def readNumber (text : List Char) : Except LexemeFault (Binary64 × List Char) :=
  let unsigned :=
    match text with
    | '+' :: rest => rest
    | _ => text
  match Numeral.scan unsigned with
  | none => .error (.numberExpected text)
  | some (numeral, after) => .ok (numeral.toBinary64, after)

/-- Reads a probability after its opening bracket, up to and with the closing one. -/
def readProbability (text : List Char) : Except LexemeFault (Binary64 × List Char) := do
  let (prob, after) ← readNumber (Text.trimStart text)
  match Text.trimStart after with
  | ']' :: rest => .ok (prob, rest)
  | other => .error (.bracketExpected other)

/-- Reads the lexeme that the first character announces. -/
def readLexeme (text : List Char) : Except LexemeFault (Lexeme × List Char) :=
  match text with
  | '[' :: rest => (readProbability rest).map fun (prob, after) => (.probability prob, after)
  | '"' :: _ | '\'' :: _ => (readWord text).map fun (word, after) => (.word word, after)
  | _ => (readLabel text).map fun (label, after) => (.label label, after)

/-! Every reading step leaves a shorter text, so a line is read to its end. -/

theorem length_scanLabel (text : List Char) :
    (scanLabel text).1.length + (scanLabel text).2.length ≤ text.length := by
  fun_induction scanLabel text with
  | case1 => simp
  | case2 rest => simp
  | case3 =>
      simp_all
      omega
  | case4 => simp_all
  | case5 =>
      simp_all
      omega

theorem length_of_scanQuoted {quote : Char} {text word after : List Char}
    (h : scanQuoted quote text = some (word, after)) : after.length < text.length := by
  fun_induction scanQuoted quote text generalizing word with
  | case1 => simp at h
  | case2 => simp at h
  | case3 c rest _ ih =>
      obtain ⟨p, hp, he⟩ := Option.map_eq_some_iff.1 h
      cases he
      have := ih hp
      simp only [List.length_cons]
      omega
  | case4 => simp_all
  | case5 => simp_all
  | case6 c rest _ _ _ ih =>
      obtain ⟨p, hp, he⟩ := Option.map_eq_some_iff.1 h
      cases he
      have := ih hp
      simp only [List.length_cons]
      omega

theorem length_of_readLabel {text after : List Char} {label : String}
    (h : readLabel text = .ok (label, after)) : after.length < text.length := by
  have hl := length_scanLabel text
  unfold readLabel at h
  split at h
  · contradiction
  next label' after' hne hs =>
    cases h
    cases label' with
    | nil => exact (hne rfl).elim
    | cons c label' =>
      simp only [hs, List.length_cons] at hl
      omega

theorem length_of_readWord {text after : List Char} {word : String}
    (h : readWord text = .ok (word, after)) : after.length < text.length := by
  unfold readWord at h
  simp only at h
  split at h
  · contradiction
  · contradiction
  next word' after' _ hs =>
    cases h
    split at hs
    · exact Nat.lt_succ_of_lt (length_of_scanQuoted hs)
    · exact Nat.lt_succ_of_lt (length_of_scanQuoted hs)
    · contradiction

theorem length_of_readNumber {text after : List Char} {prob : Binary64}
    (h : readNumber text = .ok (prob, after)) : after.length ≤ text.length := by
  unfold readNumber at h
  simp only at h
  split at h
  · contradiction
  next n after' hs =>
    cases h
    have hlength := Numeral.length_of_scan hs
    split at hlength
    · exact Nat.le_succ_of_le hlength
    · exact hlength

theorem length_of_readProbability {text after : List Char} {prob : Binary64}
    (h : readProbability text = .ok (prob, after)) : after.length < text.length := by
  obtain ⟨⟨number, unread⟩, hnumber, h⟩ := bind_eq_ok_iff.mp h
  have h₁ := Text.length_trimStart_le text
  have h₂ := length_of_readNumber hnumber
  have h₃ := Text.length_trimStart_le unread
  simp only at h
  split at h
  next rest hrest =>
    cases h
    simp only [hrest, List.length_cons] at h₃
    omega
  · contradiction

theorem length_of_readLexeme {text after : List Char} {lexeme : Lexeme}
    (h : readLexeme text = .ok (lexeme, after)) : after.length < text.length := by
  unfold readLexeme at h
  split at h <;> obtain ⟨p, hp, he⟩ := map_eq_ok_iff.mp h <;> cases he
  · exact Nat.lt_succ_of_lt (length_of_readProbability hp)
  · exact length_of_readWord hp
  · exact length_of_readWord hp
  · exact length_of_readLabel hp

end ChartParser.GrammarText
