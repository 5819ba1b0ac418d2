import ChartParser.CommandLine.Arguments
import ChartParser.CommandLine.Files
import ChartParser.Counts.Estimate
import ChartParser.GrammarText.Document
import ChartParser.Treebank.Reader

/-! Running a command over files. Everything that can be wrong with the inputs is found before the
output is created, so a failing run leaves all files as they were. -/

namespace ChartParser.CommandLine

/-- What a run with a file was about when it failed. -/
inductive Action where
  | reading
  | opening
  | creating
  | writing
deriving DecidableEq

def Action.name : Action → String
  | reading => "reading"
  | opening => "opening"
  | creating => "creating"
  | writing => "writing"

/-- Why a command fails. -/
inductive Failure where
  | file (action : Action) (name : String) (fault : FileFault)
  | grammar (error : GrammarText.Error)
  | treebank (fault : Treebank.Fault)
  | estimate (error : EstimateError)
deriving DecidableEq

def Failure.message : Failure → String
  | file action name fault => action.name ++ " " ++ name ++ ": " ++ fault.message
  | grammar error => error.message
  | treebank fault => fault.message
  | estimate error => error.message

/-- What the user sees of a run. -/
structure Result where
  code : UInt32
  output : String
  errors : String
deriving DecidableEq

section

variable {m : Type → Type} {Handle : Type} [Monad m] [Files m Handle]

/-- Carries out a file operation as part of an action on a file of a given name. -/
def attempt {α : Type} (action : Action) (name : String) (operation : m (Except FileFault α)) :
    ExceptT Failure m α :=
  ExceptT.mk do
    let outcome ← operation
    pure (outcome.mapError (.file action name))

/-- Opens a file and reads it as text. -/
def readText (name : String) : ExceptT Failure m String := do
  let handle ← attempt .reading name (Files.openFile name)
  let bytes ← attempt .reading name (Files.readAll handle)
  match Text.decodeUtf8 bytes with
  | some text => pure text
  | none => throw (.file .reading name .notUtf8)

/-- Parses the sentences of one file into another. The sentences are opened before the output is
created and read after it, so an output in place of its input finds that input empty. -/
def runParse (grammar sentences output : String) (options : Batch.Options) :
    ExceptT Failure m Unit := do
  let text ← readText grammar
  let g ← MonadExcept.ofExcept ((Grammar.ofText text.toList).mapError .grammar)
  let input ← attempt .opening sentences (Files.openFile sentences)
  let target ← attempt .creating output (Files.createFile output)
  let bytes ← attempt .reading sentences (Files.readAll input)
  let report := (Batch.run g options bytes).value
  attempt .writing output
    (Files.writeAll target (Text.encodeUtf8 (String.ofList report.output)))

/-- Writes the grammar estimated from the trees of a file into another. -/
def runTrain (treebank output : String) (labelling : Labelling) : ExceptT Failure m Unit := do
  let text ← readText treebank
  let trees ← MonadExcept.ofExcept ((Treebank.read text.toList).mapError .treebank)
  let g ← MonadExcept.ofExcept ((Grammar.estimate labelling trees).mapError .estimate)
  let target ← attempt .writing output (Files.createFile output)
  attempt .writing output (Files.writeAll target (Text.encodeUtf8 (toString g)))

/-- Runs a command of a program of a given name. -/
def runCommand (program : String) : Command → m Result
  | .help => pure ⟨0, usage program ++ "\n", ""⟩
  | .parse grammar sentences output options =>
      finish (runParse grammar sentences output options)
  | .train treebank output labelling => finish (runTrain treebank output labelling)
where
  finish (work : ExceptT Failure m Unit) : m Result := do
    match ← work.run with
    | .ok () => pure ⟨0, "", ""⟩
    | .error failure => pure ⟨1, "", "fatal: " ++ failure.message ++ "\n"⟩

/-- Runs a program of a given name with its arguments. -/
def run (program : String) (arguments : List String) : m Result :=
  match readCommand arguments with
  | .error e =>
      pure ⟨255, "", "argument error: " ++ e.message ++ ".\n\n" ++ usage program ++ "\n"⟩
  | .ok command => runCommand program command

end

end ChartParser.CommandLine
