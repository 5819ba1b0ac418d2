import ChartParser.Chart.Parse
import ChartParser.Text.Lines
import ChartParser.Text.Utf8
import ChartParser.Tokenizer
import ChartParser.Tree.Labelling
import ChartParser.Tree.Printer

/-! Parsing one sentence a line. Every input line gives one output line, so the two stay aligned
whatever becomes of a sentence. -/

namespace ChartParser

namespace Batch

/-- How sentences are split, and whether trees are written with bare labels. -/
structure Options where
  tokenizer : Tokenizer
  bareLabels : Bool
deriving DecidableEq

/-- What becomes of an input line. -/
inductive Outcome where
  | notUtf8
  | unparsed
  | parsed (tree : Tree String String)
deriving DecidableEq

namespace Outcome

def isParsed : Outcome → Bool
  | parsed _ => true
  | _ => false

/-- The output line without its line feed: a tree, or nothing. -/
def line (bareLabels : Bool) : Outcome → List Char
  | parsed tree => if bareLabels then tree.withBareLabels.render else tree.render
  | _ => []

end Outcome

/-- What a batch writes and how many of its sentences were parsed. -/
structure Report where
  output : List Char
  sentences : Nat
  parsed : Nat
  failed : Nat
deriving DecidableEq

/-- An input line without its line end: a line feed, if there is one, and then a carriage return,
if there is one. -/
def withoutLineEnd (piece : List UInt8) : List UInt8 :=
  match piece.reverse with
  | 10 :: 13 :: line => line.reverse
  | 10 :: line => line.reverse
  | 13 :: line => line.reverse
  | _ => piece

/-- Parses the input line of a given number and reports on it. -/
def parseLine (g : Grammar) (tokenizer : Tokenizer) (number : Int32) (piece : List UInt8) :
    Logged Outcome :=
  match Text.decodeUtf8 (withoutLineEnd piece) with
  | none => ⟨.notUtf8, [.sentenceNotUtf8 number]⟩
  | some sentence =>
      let tokens := tokenizer.tokenize sentence
      match g.parse tokens with
      | some parse => ⟨.parsed parse.tree, g.fillEvents tokens⟩
      | none => ⟨.unparsed, g.fillEvents tokens ++ [.noParse number tokens.length]⟩

/-- The report on the outcomes of all lines. -/
def report (bareLabels : Bool) (outcomes : List Outcome) : Report :=
  let parsed := outcomes.countP Outcome.isParsed
  { output := outcomes.flatMap fun outcome => outcome.line bareLabels ++ ['\n']
    sentences := outcomes.length
    parsed
    failed := outcomes.length - parsed }

/-- Parses every line of an input. The lines are numbered from one, in 32 bits with a sign: behind
`2 ^ 31 - 1` comes `-2 ^ 31`. -/
def run (g : Grammar) (options : Options) (input : List UInt8) : Logged Report :=
  let lines := (Text.pieces 10 input).zipIdx 1 |>.map fun (piece, number) =>
    parseLine g options.tokenizer (.ofNat number) piece
  let result := report options.bareLabels (lines.map Logged.value)
  ⟨result, lines.flatMap Logged.events ++
    [.sentencesParsed result.sentences result.parsed result.failed]⟩

end Batch

end ChartParser
