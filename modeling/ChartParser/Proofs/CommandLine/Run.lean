import ChartParser.CommandLine.Run
import ChartParser.Proofs.CommandLine.Arguments
import ChartParser.Proofs.GrammarText.Document

/-! # The files that a run leaves

A command reads files, decides what to write, and then creates its output; nothing can go wrong
after that. So a run that fails leaves every file as it was, and a run that succeeds writes what the
files said before it, even if the output is one of them. -/

namespace ChartParser.CommandLine

open Std (ExtTreeMap)

variable {α β : Type} {files : Directory}

/-! ### Files -/

theorem getElem?_insert (files : Directory) (name other : String) (bytes : List UInt8) :
    (files.insert name bytes)[other]? = if name = other then some bytes else files[other]? := by
  rw [ExtTreeMap.getElem?_insert]
  simp only [Std.LawfulEqCmp.compare_eq_iff_eq]

/-- What is written last is what stays. -/
theorem insert_insert (files : Directory) (name : String) (bytes bytes' : List UInt8) :
    (files.insert name bytes).insert name bytes' = files.insert name bytes' := by
  apply ExtTreeMap.ext_getElem?
  intro other
  rw [getElem?_insert, getElem?_insert, getElem?_insert]
  split <;> rfl

namespace Directory

/-- The bytes of a file that is needed for an action. -/
def bytes (files : Directory) (action : Action) (name : String) : Except Failure (List UInt8) :=
  match files[name]? with
  | some bytes => .ok bytes
  | none => .error (.file action name .notFound)

/-- The text of a file. -/
def text (files : Directory) (name : String) : Except Failure String :=
  match files[name]?.map Text.decodeUtf8 with
  | some (some text) => .ok text
  | some none => .error (.file .reading name .notUtf8)
  | none => .error (.file .reading name .notFound)

theorem bytes_eq_ok_iff {action : Action} {name : String} {bytes : List UInt8} :
    files.bytes action name = .ok bytes ↔ files[name]? = some bytes := by
  unfold Directory.bytes
  cases files[name]? <;> simp

/-- The text of a file is the one that its bytes encode. -/
theorem text_eq_ok_iff {name text : String} :
    files.text name = .ok text ↔ files[name]? = some (Text.encodeUtf8 text) := by
  unfold Directory.text
  cases files[name]? with
  | none => simp
  | some bytes =>
    rw [Option.some_inj, ← Text.decodeUtf8_eq_some_iff, Option.map_some]
    cases Text.decodeUtf8 bytes <;> simp

end Directory

/-! ### Actions -/

/-- The outcome of an action on files, and the files after it. -/
def onFiles (action : ExceptT Failure (StateM Directory) α) (files : Directory) :
    Except Failure α × Directory :=
  action.run.run files

theorem onFiles_ofExcept (outcome : Except Failure α) (files : Directory) :
    onFiles (MonadExcept.ofExcept outcome) files = (outcome, files) := by
  cases outcome <;> rfl

/-- An action that succeeds is followed by the next one, with the files that it left. -/
theorem onFiles_bind_of_ok {action : ExceptT Failure (StateM Directory) α} {a : α}
    {after : Directory} (h : onFiles action files = (.ok a, after))
    (next : α → ExceptT Failure (StateM Directory) β) :
    onFiles (action >>= next) files = onFiles (next a) after := by
  unfold onFiles at h ⊢
  rw [ExceptT.run_bind, StateT.run_bind, h]
  rfl

/-- Nothing follows an action that fails. -/
theorem onFiles_bind_of_error {action : ExceptT Failure (StateM Directory) α} {failure : Failure}
    {after : Directory} (h : onFiles action files = (.error failure, after))
    (next : α → ExceptT Failure (StateM Directory) β) :
    onFiles (action >>= next) files = (.error failure, after) := by
  unfold onFiles at h ⊢
  rw [ExceptT.run_bind, StateT.run_bind, h]
  rfl

theorem onFiles_attempt (action : Action) (name : String)
    (operation : StateM Directory (Except FileFault α)) (files : Directory) :
    onFiles (attempt action name operation) files =
      ((operation.run files).1.mapError (.file action name), (operation.run files).2) := rfl

/-! ### Deliveries -/

/-- The bytes of a report on the sentences of an input. -/
def reportBytes (g : Grammar) (options : Batch.Options) (input : List UInt8) : List UInt8 :=
  Text.encodeUtf8 (String.ofList (Batch.run g options input).value.output)

theorem reportBytes_nil (g : Grammar) (options : Batch.Options) : reportBytes g options [] = [] :=
  rfl

/-- The end of a command that has found out what to write: it is written, or nothing is. -/
def deliver (files : Directory) (output : String) :
    Except Failure (List UInt8) → Except Failure Unit × Directory
  | .ok bytes => (.ok (), files.insert output bytes)
  | .error failure => (.error failure, files)

/-- An action that only reads is a step of finding out what to write. -/
theorem onFiles_bind_eq_deliver {action : ExceptT Failure (StateM Directory) α}
    {next : α → ExceptT Failure (StateM Directory) Unit} {output : String}
    {outcome : Except Failure α} {rest : α → Except Failure (List UInt8)}
    (haction : onFiles action files = (outcome, files))
    (hnext : ∀ a, onFiles (next a) files = deliver files output (rest a)) :
    onFiles (action >>= next) files = deliver files output (outcome >>= rest) := by
  cases outcome with
  | ok a => exact (onFiles_bind_of_ok haction next).trans (hnext a)
  | error failure => exact onFiles_bind_of_error haction next

/-- What a command comes to that has found out what to write: it writes it, or it says why it
fails and leaves all files as they were. -/
def conclude (files : Directory) (output : String) :
    Except Failure (List UInt8) → Result × Directory
  | .ok bytes => (⟨0, "", ""⟩, files.insert output bytes)
  | .error failure => (⟨1, "", "fatal: " ++ failure.message ++ "\n"⟩, files)

theorem conclude_of_code_ne_zero {output : String} {outcome : Except Failure (List UInt8)}
    (h : (conclude files output outcome).1.code ≠ 0) :
    (conclude files output outcome).2 = files := by
  cases outcome with
  | ok bytes => exact absurd rfl h
  | error failure => rfl

theorem conclude_of_code_eq_zero {output : String} {outcome : Except Failure (List UInt8)}
    (h : (conclude files output outcome).1.code = 0) :
    ∃ bytes, outcome = .ok bytes ∧
      (conclude files output outcome).2 = files.insert output bytes := by
  cases outcome with
  | ok bytes => exact ⟨bytes, rfl, rfl⟩
  | error failure =>
    have hne : (1 : UInt32) ≠ 0 := by decide
    exact absurd h hne

theorem run_finish {work : ExceptT Failure (StateM Directory) Unit} {output : String}
    {outcome : Except Failure (List UInt8)}
    (h : onFiles work files = deliver files output outcome) :
    (runCommand.finish work : StateM Directory Result).run files =
      conclude files output outcome := by
  unfold onFiles at h
  unfold runCommand.finish
  rw [StateT.run_bind, h]
  cases outcome <;> rfl

/-! ### File operations -/

section

variable [Admission]

theorem run_createFile (name : String) (files : Directory) :
    (Files.createFile name : StateM Directory (Except FileFault String)).run files =
      match Admission.refusal? files name with
      | some fault => (.error fault, files)
      | none => (.ok name, files.insert name []) := by
  change StateT.run (match Admission.refusal? files name with | some _ => _ | none => _) files = _
  cases Admission.refusal? files name <;> rfl

theorem onFiles_openFile (action : Action) (name : String) (files : Directory) :
    onFiles (attempt action name (Files.openFile name)) files =
      ((files.bytes action name).map fun _ => name, files) := by
  change ((if files.contains name then Except.ok name else .error FileFault.notFound).mapError
    (Failure.file action name), files) = _
  unfold Directory.bytes
  rw [ExtTreeMap.contains_eq_isSome_getElem?]
  cases files[name]? <;> rfl

theorem onFiles_createFile (action : Action) (name : String) (files : Directory) :
    onFiles (attempt action name (Files.createFile name)) files =
      match Admission.refusal? files name with
      | some fault => (.error (.file action name fault), files)
      | none => (.ok name, files.insert name []) := by
  rw [onFiles_attempt, run_createFile]
  cases Admission.refusal? files name <;> rfl

theorem onFiles_readAll (action : Action) (name handle : String) (files : Directory) :
    onFiles (attempt action name (Files.readAll handle)) files =
      (.ok (files[handle]?.getD []), files) := rfl

theorem onFiles_writeAll (action : Action) (name handle : String) (bytes : List UInt8)
    (files : Directory) :
    onFiles (attempt action name (Files.writeAll handle bytes)) files =
      (.ok (), files.insert handle bytes) := rfl

theorem onFiles_readText (name : String) (files : Directory) :
    onFiles (readText name) files = (files.text name, files) := by
  unfold readText Directory.text
  have hopen := onFiles_openFile .reading name files
  unfold Directory.bytes at hopen
  cases hbytes : files[name]? with
  | none =>
    rw [hbytes] at hopen
    exact onFiles_bind_of_error hopen _
  | some bytes =>
    rw [hbytes] at hopen
    rw [onFiles_bind_of_ok hopen, onFiles_bind_of_ok (onFiles_readAll _ _ _ _), hbytes,
      Option.getD_some, Option.map_some]
    cases Text.decodeUtf8 bytes <;> rfl

/-! ### Commands -/

/-- The bytes to write, unless their file cannot be created. -/
def Directory.grant (files : Directory) (action : Action) (output : String) (bytes : List UInt8) :
    Except Failure (List UInt8) :=
  match Admission.refusal? files output with
  | some fault => .error (.file action output fault)
  | none => .ok bytes

theorem Directory.grant_eq_ok_iff {action : Action} {output : String} {bytes written : List UInt8} :
    files.grant action output bytes = .ok written ↔
      Admission.refusal? files output = none ∧ written = bytes := by
  unfold Directory.grant
  cases Admission.refusal? files output <;> simp [eq_comm]

/-- What the parse command writes, or why it fails. An output in the place of its input empties it
before it is read. -/
def parseOutcome (files : Directory) (grammar sentences output : String)
    (options : Batch.Options) : Except Failure (List UInt8) := do
  let text ← files.text grammar
  let g ← (Grammar.ofText text.toList).mapError .grammar
  let bytes ← files.bytes .opening sentences
  files.grant .creating output
    (reportBytes g options (if output = sentences then [] else bytes))

/-- What the train command writes, or why it fails. -/
def trainOutcome (files : Directory) (treebank output : String) (labelling : Labelling) :
    Except Failure (List UInt8) := do
  let text ← files.text treebank
  let trees ← (Treebank.read text.toList).mapError .treebank
  let g ← (Grammar.estimate labelling trees).mapError .estimate
  files.grant .writing output (Text.encodeUtf8 (toString g))

/-- Opening a file finds out that its bytes are there. -/
theorem onFiles_openFile_eq_deliver {next : String → ExceptT Failure (StateM Directory) Unit}
    {name output : String} {rest : List UInt8 → Except Failure (List UInt8)} (action : Action)
    (hnext : ∀ bytes, files[name]? = some bytes →
      onFiles (next name) files = deliver files output (rest bytes)) :
    onFiles (attempt action name (Files.openFile name) >>= next) files =
      deliver files output (files.bytes action name >>= rest) := by
  have hopen := onFiles_openFile action name files
  cases hbytes : files.bytes action name with
  | ok bytes =>
    rw [hbytes] at hopen
    have hstored := Directory.bytes_eq_ok_iff.1 hbytes
    exact (onFiles_bind_of_ok hopen next).trans (hnext bytes hstored)
  | error failure =>
    rw [hbytes] at hopen
    exact onFiles_bind_of_error hopen next

/-- Creating the output is the last thing that can go wrong. -/
theorem onFiles_createFile_eq_deliver {next : String → ExceptT Failure (StateM Directory) Unit}
    {output : String} {bytes : List UInt8} (action : Action)
    (hnext : onFiles (next output) (files.insert output []) =
      (.ok (), (files.insert output []).insert output bytes)) :
    onFiles (attempt action output (Files.createFile output) >>= next) files =
      deliver files output (files.grant action output bytes) := by
  have hcreate := onFiles_createFile action output files
  unfold Directory.grant
  cases hrefusal : Admission.refusal? files output with
  | none =>
    rw [hrefusal] at hcreate
    rw [onFiles_bind_of_ok hcreate, hnext, insert_insert]
    rfl
  | some fault =>
    rw [hrefusal] at hcreate
    exact onFiles_bind_of_error hcreate next

theorem onFiles_runParse (grammar sentences output : String) (options : Batch.Options)
    (files : Directory) :
    onFiles (runParse grammar sentences output options) files =
      deliver files output (parseOutcome files grammar sentences output options) := by
  apply onFiles_bind_eq_deliver (onFiles_readText grammar files)
  intro text
  apply onFiles_bind_eq_deliver (onFiles_ofExcept _ files)
  intro g
  apply onFiles_openFile_eq_deliver
  intro bytes hbytes
  apply onFiles_createFile_eq_deliver
  -- The sentences are read only now, when the output has been emptied.
  rw [onFiles_bind_of_ok (onFiles_readAll _ _ _ _), onFiles_writeAll, getElem?_insert, hbytes]
  split <;> rfl

theorem onFiles_runTrain (treebank output : String) (labelling : Labelling) (files : Directory) :
    onFiles (runTrain treebank output labelling) files =
      deliver files output (trainOutcome files treebank output labelling) := by
  apply onFiles_bind_eq_deliver (onFiles_readText treebank files)
  intro text
  apply onFiles_bind_eq_deliver (onFiles_ofExcept _ files)
  intro trees
  apply onFiles_bind_eq_deliver (onFiles_ofExcept _ files)
  intro g
  apply onFiles_createFile_eq_deliver
  exact onFiles_writeAll _ _ _ _ _

/-! ### What a command writes -/

/-- The parse command writes the report on the sentences as they were, unless it has emptied
them. -/
theorem parseOutcome_eq_ok_iff {grammar sentences output : String} {options : Batch.Options}
    {written : List UInt8} :
    parseOutcome files grammar sentences output options = .ok written ↔
      ∃ text, files[grammar]? = some (Text.encodeUtf8 text) ∧
      ∃ g, Grammar.ofText text.toList = .ok g ∧
      ∃ bytes, files[sentences]? = some bytes ∧ Admission.refusal? files output = none ∧
        written = reportBytes g options (if output = sentences then [] else bytes) := by
  simp only [parseOutcome, bind_eq_ok_iff, mapError_eq_ok_iff, Directory.text_eq_ok_iff,
    Directory.bytes_eq_ok_iff, Directory.grant_eq_ok_iff]

/-- The train command writes the grammar estimated from the trees of the treebank. -/
theorem trainOutcome_eq_ok_iff {treebank output : String} {labelling : Labelling}
    {written : List UInt8} :
    trainOutcome files treebank output labelling = .ok written ↔
      ∃ text, files[treebank]? = some (Text.encodeUtf8 text) ∧
      ∃ trees, Treebank.read text.toList = .ok trees ∧
      ∃ g, Grammar.estimate labelling trees = .ok g ∧ Admission.refusal? files output = none ∧
        written = Text.encodeUtf8 (toString g) := by
  simp only [trainOutcome, bind_eq_ok_iff, mapError_eq_ok_iff, Directory.text_eq_ok_iff,
    Directory.grant_eq_ok_iff]

/-! ### Runs -/

/-- The result of a run over files, and the files after it. -/
def runOn (program : String) (arguments : List String) (files : Directory) : Result × Directory :=
  (run program arguments : StateM Directory Result).run files

section

variable {program grammar sentences treebank output : String} {arguments : List String}
  {options : Batch.Options} {labelling : Labelling}

theorem runOn_error {e : ArgumentError} (h : readCommand arguments = .error e) :
    runOn program arguments files =
      (⟨255, "", "argument error: " ++ e.message ++ ".\n\n" ++ usage program ++ "\n"⟩, files) := by
  unfold runOn run
  rw [h]
  rfl

theorem runOn_help (h : readCommand arguments = .ok .help) :
    runOn program arguments files = (⟨0, usage program ++ "\n", ""⟩, files) := by
  unfold runOn run
  rw [h]
  rfl

theorem runOn_parse (h : readCommand arguments = .ok (.parse grammar sentences output options)) :
    runOn program arguments files =
      conclude files output (parseOutcome files grammar sentences output options) := by
  unfold runOn run
  rw [h]
  exact run_finish (onFiles_runParse grammar sentences output options files)

theorem runOn_train (h : readCommand arguments = .ok (.train treebank output labelling)) :
    runOn program arguments files =
      conclude files output (trainOutcome files treebank output labelling) := by
  unfold runOn run
  rw [h]
  exact run_finish (onFiles_runTrain treebank output labelling files)

/-- What is left when sentences have been parsed. The output holds the report on the sentences with
the grammar, both as they were before, and is empty if it has taken the place of the sentences. -/
structure Parsed (before after : Directory) (grammar sentences output : String)
    (options : Batch.Options) : Prop where
  others : ∀ name, name ≠ output → after[name]? = before[name]?
  written : ∃ text, before[grammar]? = some (Text.encodeUtf8 text) ∧
    ∃ g, Grammar.ofText text.toList = .ok g ∧
    ∃ bytes, before[sentences]? = some bytes ∧
      (output ≠ sentences → after[output]? = some (reportBytes g options bytes))
  emptied : output = sentences → after[output]? = some []

/-- What is left when a grammar has been estimated: it is in the output. -/
structure Trained (before after : Directory) (treebank output : String)
    (labelling : Labelling) : Prop where
  others : ∀ name, name ≠ output → after[name]? = before[name]?
  written : ∃ text, before[treebank]? = some (Text.encodeUtf8 text) ∧
    ∃ trees, Treebank.read text.toList = .ok trees ∧
    ∃ g, Grammar.estimate labelling trees = .ok g ∧
      after[output]? = some (Text.encodeUtf8 (toString g))

theorem parsed_of_parseOutcome {written : List UInt8}
    (h : parseOutcome files grammar sentences output options = .ok written) :
    Parsed files (files.insert output written) grammar sentences output options := by
  obtain ⟨text, htext, g, hg, bytes, hbytes, -, rfl⟩ := parseOutcome_eq_ok_iff.1 h
  constructor
  case others =>
    intro name hname
    rw [getElem?_insert, if_neg hname.symm]
  case written =>
    refine ⟨text, htext, g, hg, bytes, hbytes, ?_⟩
    intro hother
    rw [getElem?_insert, if_pos rfl, if_neg hother]
  case emptied =>
    intro hsame
    rw [getElem?_insert, if_pos rfl, if_pos hsame, reportBytes_nil]

theorem trained_of_trainOutcome {written : List UInt8}
    (h : trainOutcome files treebank output labelling = .ok written) :
    Trained files (files.insert output written) treebank output labelling := by
  obtain ⟨text, htext, trees, htrees, g, hg, -, rfl⟩ := trainOutcome_eq_ok_iff.1 h
  constructor
  case others =>
    intro name hname
    rw [getElem?_insert, if_neg hname.symm]
  case written =>
    refine ⟨text, htext, trees, htrees, g, hg, ?_⟩
    rw [getElem?_insert, if_pos rfl]

end

/-- A run that fails, or whose arguments call for help, leaves all files as they were. Any other
run has parsed sentences or estimated a grammar, and has changed no file but its output. Which files
can be created at all makes no difference to this. -/
theorem runOn_spec (program : String) (arguments : List String) (files : Directory) :
    let result := (runOn program arguments files).1
    let after := (runOn program arguments files).2
    (result.code ≠ 0 → after = files) ∧
    (CallsForHelp arguments → after = files) ∧
    (result.code = 0 → ¬ CallsForHelp arguments →
      (∃ grammar sentences output,
        operands arguments = ["parse", grammar, sentences, output] ∧
        Parsed files after grammar sentences output (parseOptions arguments)) ∨
      (∃ treebank output, operands arguments = ["train", treebank, output] ∧
        Trained files after treebank output (trainLabelling arguments))) := by
  cases h : readCommand arguments with
  | error e =>
    rw [runOn_error h]
    have hne : (255 : UInt32) ≠ 0 := by decide
    exact ⟨fun _ => rfl, fun _ => rfl, fun hcode => absurd hcode hne⟩
  | ok command =>
    rcases readCommand_cases h with ⟨hcalled, rfl⟩ |
      ⟨grammar, sentences, output, hoperands, rfl⟩ | ⟨treebank, output, hoperands, rfl⟩
    · rw [runOn_help h]
      exact ⟨fun _ => rfl, fun _ => rfl, fun _ hnot => absurd hcalled hnot⟩
    · rw [runOn_parse h]
      refine ⟨conclude_of_code_ne_zero, ?_, ?_⟩
      · intro hcalled
        have hcommand := eq_help_of_callsForHelp hcalled h
        contradiction
      · intro hcode _
        obtain ⟨written, houtcome, hafter⟩ := conclude_of_code_eq_zero hcode
        left
        use grammar, sentences, output, hoperands
        rw [hafter]
        exact parsed_of_parseOutcome houtcome
    · rw [runOn_train h]
      refine ⟨conclude_of_code_ne_zero, ?_, ?_⟩
      · intro hcalled
        have hcommand := eq_help_of_callsForHelp hcalled h
        contradiction
      · intro hcode _
        obtain ⟨written, houtcome, hafter⟩ := conclude_of_code_eq_zero hcode
        right
        use treebank, output, hoperands
        rw [hafter]
        exact trained_of_trainOutcome houtcome

end

/-- A grammar and a sentence of it. -/
def grammarAndSentence : Directory :=
  .ofList [("g", Text.encodeUtf8 "S -> \"x\""), ("s", Text.encodeUtf8 "x\n")]

/-- The report may take the place of the grammar that it was made with. -/
theorem runOn_spec_ontoGrammar :
    let after := (runOn "parser" ["parse", "g", "s", "g"] grammarAndSentence).2
    after["g"]? = some (Text.encodeUtf8 "(S x)\n") ∧
    ∃ grammar sentences output,
      operands ["parse", "g", "s", "g"] = ["parse", grammar, sentences, output] ∧
      Parsed grammarAndSentence after grammar sentences output ⟨.words, false⟩ := by
  intro after
  have hreport : after["g"]? = some (Text.encodeUtf8 "(S x)\n") := by decide +kernel
  have hcode : (runOn "parser" ["parse", "g", "s", "g"] grammarAndSentence).1.code = 0 := by
    decide +kernel
  have hhelp : ¬ CallsForHelp ["parse", "g", "s", "g"] := by simp [CallsForHelp]
  have hoperands : operands ["parse", "g", "s", "g"] = ["parse", "g", "s", "g"] := by decide
  rcases (runOn_spec _ _ _).2.2 hcode hhelp with hparsed | ⟨treebank, output, htrain, -⟩
  · exact ⟨hreport, hparsed⟩
  · simp [hoperands] at htrain

end ChartParser.CommandLine
