import ChartParser.Batch

/-! The arguments of the command line. Options may stand anywhere among the operands, and a call
for help wins over every argument after it. -/

namespace ChartParser.CommandLine

/-- What the program is asked to do. -/
inductive Command where
  | help
  | parse (grammar sentences output : String) (options : Batch.Options)
  | train (treebank output : String) (labelling : Labelling)
deriving DecidableEq

/-- Why the arguments make no command. -/
inductive ArgumentError where
  | unknownOption (option : String)
  | parentOutsideTrain
  | parseOperands
  | parseOptionsOutsideParse
  | trainOperands
  | unknownCommand (name : String)
  | missingCommand
deriving DecidableEq

def ArgumentError.message : ArgumentError → String
  | unknownOption option => "unknown option " ++ option
  | parentOutsideTrain => "--parent only applies to train"
  | parseOperands => "parse takes GRAMMAR SENTENCES OUTPUT"
  | parseOptionsOutsideParse => "parse options given to train"
  | trainOperands => "train takes TREEBANK OUTPUT"
  | unknownCommand name => "unknown command " ++ name
  | missingCommand => "missing command"

/-- The options and the operands of an argument list. -/
structure Arguments where
  blanks : Bool := false
  bareLabels : Bool := false
  parent : Bool := false
  operands : List String := []

/-- An argument that is written like an option: a hyphen and something after it. -/
def looksLikeOption (argument : String) : Bool :=
  match argument.toList with
  | '-' :: _ :: _ => true
  | _ => false

/-- Sorts arguments into options and operands; nothing if help is called for. -/
def sortArguments : List String → Except ArgumentError (Option Arguments)
  | [] => .ok (some {})
  | argument :: rest =>
      if argument = "-h" ∨ argument = "--help" then .ok none
      else if argument = "-w" ∨ argument = "--whitespace" then
        (sortArguments rest).map (Option.map ({ · with blanks := true }))
      else if argument = "-s" ∨ argument = "--strip-annotations" then
        (sortArguments rest).map (Option.map ({ · with bareLabels := true }))
      else if argument = "-p" ∨ argument = "--parent" then
        (sortArguments rest).map (Option.map ({ · with parent := true }))
      else if looksLikeOption argument then .error (.unknownOption argument)
      else
        (sortArguments rest).map
          (Option.map fun a => { a with operands := argument :: a.operands })

/-- The command that sorted arguments make: the first operand names it, and its options and
operands have to fit. -/
def Arguments.command (a : Arguments) : Except ArgumentError Command :=
  match a.operands with
  | [] => .error .missingCommand
  | "parse" :: operands =>
      if a.parent then .error .parentOutsideTrain
      else
        match operands with
        | [grammar, sentences, output] =>
            .ok (.parse grammar sentences output
              ⟨if a.blanks then .blanks else .words, a.bareLabels⟩)
        | _ => .error .parseOperands
  | "train" :: operands =>
      if a.blanks || a.bareLabels then .error .parseOptionsOutsideParse
      else
        match operands with
        | [treebank, output] =>
            .ok (.train treebank output (if a.parent then .parent else .bare))
        | _ => .error .trainOperands
  | name :: _ => .error (.unknownCommand name)

/-- The command that an argument list makes. -/
def readCommand (arguments : List String) : Except ArgumentError Command := do
  match ← sortArguments arguments with
  | none => .ok .help
  | some a => a.command

/-- How to call a program of a given name. -/
def usage (program : String) : String :=
  "Usage: " ++ program ++ " parse GRAMMAR SENTENCES OUTPUT [options]\n" ++
  "       " ++ program ++ " train TREEBANK OUTPUT [options]\n" ++
  "\n" ++
  "Parse options:\n" ++
  "  -w, --whitespace          Split sentences on whitespace only (defaults to\n" ++
  "                            splitting off punctuation and clitics)\n" ++
  "  -s, --strip-annotations   Drop ^parent suffixes from output labels\n" ++
  "\n" ++
  "Train options:\n" ++
  "  -p, --parent              Annotate nonterminals with their parent's label\n" ++
  "\n" ++
  "  -h, --help                Print this message\n" ++
  "\n" ++
  "Set RUST_LOG (e.g. RUST_LOG=debug) for diagnostics on stderr."

end ChartParser.CommandLine
