import ChartParser.CommandLine.Arguments

/-! # The command of an argument list

The first argument that calls for help or is an unknown option settles the call, whatever stands
around it. If there is none, the options that are given and the operands in their order make the
command, wherever the options stand. -/

namespace ChartParser.CommandLine

variable {arguments rest : List String} {argument : String}

def helpCalls : List String := ["-h", "--help"]

def blanksOptions : List String := ["-w", "--whitespace"]

def bareLabelsOptions : List String := ["-s", "--strip-annotations"]

def parentOptions : List String := ["-p", "--parent"]

/-- The options that the commands have. -/
def knownOptions : List String := blanksOptions ++ bareLabelsOptions ++ parentOptions

/-- Whether an argument settles the call: it calls for help, or it is an unknown option. -/
def settles (argument : String) : Bool :=
  looksLikeOption argument && !knownOptions.contains argument

/-- The arguments that are not written like options. -/
def operands (arguments : List String) : List String :=
  arguments.filter fun argument => !looksLikeOption argument

/-- The options and operands of arguments none of which settles the call. -/
def arrange (arguments : List String) : Arguments where
  blanks := arguments.any blanksOptions.contains
  bareLabels := arguments.any bareLabelsOptions.contains
  parent := arguments.any parentOptions.contains
  operands := operands arguments

/-! ### Sorting -/

theorem looksLikeOption_of_mem_knownOptions (h : argument ∈ knownOptions) :
    looksLikeOption argument = true := by
  revert argument
  decide

theorem settles_of_mem_helpCalls (h : argument ∈ helpCalls) : settles argument = true := by
  revert argument
  decide

/-- The options and operands with one more argument in front. -/
def Arguments.add (a : Arguments) (argument : String) : Arguments where
  blanks := blanksOptions.contains argument || a.blanks
  bareLabels := bareLabelsOptions.contains argument || a.bareLabels
  parent := parentOptions.contains argument || a.parent
  operands := if looksLikeOption argument then a.operands else argument :: a.operands

theorem arrange_cons (argument : String) (rest : List String) :
    arrange (argument :: rest) = (arrange rest).add argument := by
  cases h : looksLikeOption argument <;> simp [arrange, Arguments.add, operands, h]

theorem sortArguments_helpCall (h : argument ∈ helpCalls) (rest : List String) :
    sortArguments (argument :: rest) = .ok none := by
  have hhelp : argument = "-h" ∨ argument = "--help" := by simpa [helpCalls] using h
  rw [sortArguments, if_pos hhelp]

theorem sortArguments_knownOption (h : argument ∈ knownOptions) (rest : List String) :
    sortArguments (argument :: rest) =
      (sortArguments rest).map (Option.map (Arguments.add · argument)) := by
  have hknown : argument = "-w" ∨ argument = "--whitespace" ∨ argument = "-s" ∨
      argument = "--strip-annotations" ∨ argument = "-p" ∨ argument = "--parent" := by
    simpa [knownOptions, blanksOptions, bareLabelsOptions, parentOptions, or_assoc] using h
  rcases hknown with rfl | rfl | rfl | rfl | rfl | rfl <;>
    simp [sortArguments, Arguments.add, blanksOptions, bareLabelsOptions, parentOptions,
      looksLikeOption]

theorem Arguments.add_operand (h : looksLikeOption argument = false) (a : Arguments) :
    a.add argument = { a with operands := argument :: a.operands } := by
  have hunknown : argument ∉ knownOptions := by
    intro hmem
    rw [looksLikeOption_of_mem_knownOptions hmem] at h
    contradiction
  have hoptions : argument ∉ blanksOptions ∧ argument ∉ bareLabelsOptions ∧
      argument ∉ parentOptions := by simpa [knownOptions] using hunknown
  simp [Arguments.add, h, hoptions]

/-- An argument that is neither a call for help nor a known option is judged by its form. -/
theorem sortArguments_other (hhelp : argument ∉ helpCalls) (hknown : argument ∉ knownOptions)
    (rest : List String) :
    sortArguments (argument :: rest) =
      if looksLikeOption argument then .error (.unknownOption argument)
      else (sortArguments rest).map (Option.map (Arguments.add · argument)) := by
  have hother : ¬ (argument = "-h" ∨ argument = "--help") := by simpa [helpCalls] using hhelp
  obtain ⟨hblanks, hbareLabels, hparent⟩ :
      ¬ (argument = "-w" ∨ argument = "--whitespace") ∧
      ¬ (argument = "-s" ∨ argument = "--strip-annotations") ∧
      ¬ (argument = "-p" ∨ argument = "--parent") := by
    simpa [knownOptions, blanksOptions, bareLabelsOptions, parentOptions, and_assoc] using hknown
  rw [sortArguments, if_neg hother, if_neg hblanks, if_neg hbareLabels, if_neg hparent]
  cases hoption : looksLikeOption argument with
  | true => rfl
  | false => simp [Arguments.add_operand hoption]

theorem sortArguments_cons (h : settles argument = false) (rest : List String) :
    sortArguments (argument :: rest) =
      (sortArguments rest).map (Option.map (Arguments.add · argument)) := by
  by_cases hknown : argument ∈ knownOptions
  · exact sortArguments_knownOption hknown rest
  · have hhelp : argument ∉ helpCalls := fun hmem => by
      rw [settles_of_mem_helpCalls hmem] at h
      contradiction
    have hoperand : looksLikeOption argument = false := by simpa [settles, hknown] using h
    rw [sortArguments_other hhelp hknown, hoperand]
    rfl

theorem sortArguments_eq (arguments : List String) :
    sortArguments arguments =
      match arguments.find? settles with
      | none => .ok (some (arrange arguments))
      | some argument =>
          if argument ∈ helpCalls then .ok none else .error (.unknownOption argument) := by
  induction arguments with
  | nil => rfl
  | cons argument rest ih =>
      cases hsettles : settles argument with
      | true =>
        rw [List.find?_cons_of_pos hsettles]
        by_cases hhelp : argument ∈ helpCalls
        · rw [sortArguments_helpCall hhelp]
          exact (if_pos hhelp).symm
        · have hunknown : looksLikeOption argument = true ∧ argument ∉ knownOptions := by
            simpa [settles] using hsettles
          rw [sortArguments_other hhelp hunknown.2, if_pos hunknown.1]
          exact (if_neg hhelp).symm
      | false =>
        rw [List.find?_cons_of_neg (by simp [hsettles]), sortArguments_cons hsettles, ih,
          arrange_cons]
        cases rest.find? settles with
        | none => rfl
        | some settling => by_cases hhelp : settling ∈ helpCalls <;> simp [hhelp] <;> rfl

/-! ### Commands -/

theorem readCommand_eq (arguments : List String) :
    readCommand arguments =
      match arguments.find? settles with
      | none => (arrange arguments).command
      | some argument =>
          if argument ∈ helpCalls then .ok .help else .error (.unknownOption argument) := by
  unfold readCommand
  rw [sortArguments_eq]
  cases arguments.find? settles with
  | none => rfl
  | some settling => by_cases hhelp : settling ∈ helpCalls <;> simp [hhelp] <;> rfl

/-- Sorted arguments make a parse command or a train command, of their operands and options. -/
theorem Arguments.command_cases {a : Arguments} {command : Command} (h : a.command = .ok command) :
    (∃ grammar sentences output, a.operands = ["parse", grammar, sentences, output] ∧
      command = .parse grammar sentences output
        ⟨if a.blanks then .blanks else .words, a.bareLabels⟩) ∨
    (∃ treebank output, a.operands = ["train", treebank, output] ∧
      command = .train treebank output (if a.parent then .parent else .bare)) := by
  unfold Arguments.command at h
  split at h
  case h_1 => contradiction
  case h_2 hoperands =>
    split at h
    · contradiction
    · split at h
      · cases h
        exact .inl ⟨_, _, _, hoperands, rfl⟩
      · contradiction
  case h_3 hoperands =>
    split at h
    · contradiction
    · split at h
      · cases h
        exact .inr ⟨_, _, hoperands, rfl⟩
      · contradiction
  case h_4 => contradiction

/-- How an argument list has sentences parsed. -/
def parseOptions (arguments : List String) : Batch.Options :=
  ⟨if (arrange arguments).blanks then .blanks else .words, (arrange arguments).bareLabels⟩

/-- How an argument list has trees labelled for training. -/
def trainLabelling (arguments : List String) : Labelling :=
  if (arrange arguments).parent then .parent else .bare

/-- Whether help is called for, be it behind an argument that settles the call otherwise. -/
def CallsForHelp (arguments : List String) : Prop := "-h" ∈ arguments ∨ "--help" ∈ arguments

theorem callsForHelp_iff : CallsForHelp arguments ↔ ∃ call ∈ helpCalls, call ∈ arguments := by
  simp [CallsForHelp, helpCalls]

/-- What an argument list asks for: help that it calls for, or a command of its operands. -/
theorem readCommand_cases {command : Command} (h : readCommand arguments = .ok command) :
    (CallsForHelp arguments ∧ command = .help) ∨
    (∃ grammar sentences output, operands arguments = ["parse", grammar, sentences, output] ∧
      command = .parse grammar sentences output (parseOptions arguments)) ∨
    (∃ treebank output, operands arguments = ["train", treebank, output] ∧
      command = .train treebank output (trainLabelling arguments)) := by
  rw [readCommand_eq] at h
  cases hsettling : arguments.find? settles with
  | none =>
    rw [hsettling] at h
    exact .inr (Arguments.command_cases h)
  | some settling =>
    rw [hsettling] at h
    by_cases hhelp : settling ∈ helpCalls
    · have hcalled := callsForHelp_iff.2 ⟨settling, hhelp, List.mem_of_find?_eq_some hsettling⟩
      have hcommand : command = .help := by simpa [hhelp, eq_comm] using h
      exact .inl ⟨hcalled, hcommand⟩
    · simp [hhelp] at h

/-- Where help is called for, no command is run. -/
theorem eq_help_of_callsForHelp {command : Command} (hcalled : CallsForHelp arguments)
    (h : readCommand arguments = .ok command) : command = .help := by
  obtain ⟨call, hcall, hmem⟩ := callsForHelp_iff.1 hcalled
  rw [readCommand_eq] at h
  cases hsettling : arguments.find? settles with
  | none =>
    have hnone := List.find?_eq_none.1 hsettling call hmem
    exact absurd (settles_of_mem_helpCalls hcall) hnone
  | some settling =>
    rw [hsettling] at h
    by_cases hhelp : settling ∈ helpCalls
    · simpa [hhelp, eq_comm] using h
    · simp [hhelp] at h

end ChartParser.CommandLine
