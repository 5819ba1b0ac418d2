import ChartParser.Grammar.Basic
import ChartParser.GrammarText.Line
import ChartParser.Text.Lines

/-! Whole grammar texts: reading them line by line, and writing a grammar as one. -/

namespace ChartParser

namespace GrammarText

/-- A fault and the number of its line, counted from one. -/
structure Fault where
  line : Nat
  cause : LineFault
deriving DecidableEq

def Fault.message (fault : Fault) : String :=
  "line " ++ fault.line.repr ++ ": " ++ fault.cause.message

/-- Reads lines that are numbered from `n` on, up to the first fault. -/
def readLines (n : Nat) : List (List Char) → Except Fault Draft
  | [] => .ok ⟨[], none⟩
  | line :: lines =>
      match readLine line with
      | .error cause => .error ⟨n, cause⟩
      | .ok first => (readLines (n + 1) lines).map (first ++ ·)

/-- Reads what a text says, whether or not it makes a grammar. -/
def read (text : List Char) : Except Fault Draft := readLines 1 (Text.lines text)

/-- The start symbol of a draft: the one it names, or else the head of its first rule. -/
def Draft.startSymbol (draft : Draft) : String :=
  draft.start.getD ((draft.rules.head?.map (·.head)).getD "")

/-- Why a text is no text of a grammar. -/
inductive Error where
  | malformed (fault : Fault)
  | invalid (error : GrammarError)
deriving DecidableEq

def Error.message : Error → String
  | malformed fault => fault.message
  | invalid error => error.message

end GrammarText

namespace Grammar

/-- The grammar that a text describes. -/
def ofText (text : List Char) : Except GrammarText.Error Grammar :=
  match GrammarText.read text with
  | .error fault => .error (.malformed fault)
  | .ok draft => (ofRules draft.rules draft.startSymbol).mapError .invalid

/-- Reads a grammar and reports on it. -/
def ofTextLogged (text : List Char) : Logged (Except GrammarText.Error Grammar) :=
  announce (ofText text)

/-- The text of a grammar: a directive with the start symbol, then a line for each rule. -/
def render (g : Grammar) : List Char :=
  "%start ".toList ++ Symbol.renderLabel g.start ++ ['\n'] ++
    g.rules.flatMap fun r => r.render ++ ['\n']

instance : ToString Grammar := ⟨fun g => String.ofList g.render⟩

end Grammar

end ChartParser
