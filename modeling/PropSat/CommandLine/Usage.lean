import PropSat.CommandLine.Arguments
import PropSat.Text.Numeral

/-!
# The commands and their options

Which options each command takes, what they are set to when they are not
given, and which of them go together.
-/

namespace PropSat.CommandLine

/-! ### Values -/

def readPath (text : String) : Except Refusal String :=
  if text.isEmpty then .error .invalidValue else .ok text

def readNumber (text : String) : Except Refusal Nat :=
  match Text.number? text.toList with
  | some value => .ok value
  | none => .error .valueValidation

def readTruth : String → Except Refusal Bool
  | "true" => .ok true
  | "false" => .ok false
  | _ => .error .invalidValue

def readChoice {α : Type} (choices : List α) (name : α → String)
    (text : String) : Except Refusal α :=
  match choices.find? (name · == text) with
  | some choice => .ok choice
  | none => .error .invalidValue

/-- An option that reads its value and puts it into the settings. -/
def setting {σ α : Type} (read : String → Except Refusal α)
    (put : α → σ → σ) : OptionAction σ :=
  .value fun text settings =>
    match read text with
    | .ok value => .ok (put value settings)
    | .error refusal => .error refusal

/-! ### Options -/

def both {σ : Type} (long : String) (short : Char) (action : OptionAction σ) :
    OptionSpec σ :=
  ⟨long, some long, some short, action⟩

def longOnly {σ : Type} (long : String) (action : OptionAction σ) :
    OptionSpec σ :=
  ⟨long, some long, none, action⟩

def shortOnly {σ : Type} (short : Char) (action : OptionAction σ) :
    OptionSpec σ :=
  ⟨short.toString, none, some short, action⟩

def helpOption {σ : Type} : OptionSpec σ :=
  both "help" 'h' (.request .displayHelp)

def versionOption {σ : Type} : OptionSpec σ :=
  both "version" 'V' (.request .displayVersion)

/-- The options that all solving commands share, for settings that hold
them. -/
def commonOptions {σ : Type}
    (update : (CommonOptions → CommonOptions) → σ → σ) :
    List (OptionSpec σ) :=
  [ both "debug" 'd' (.flag (update fun common =>
      { common with debug := true })),
    longOnly "verify" (setting readTruth fun value => update fun common =>
      { common with verify := value }),
    longOnly "stats" (setting readTruth fun value => update fun common =>
      { common with stats := value }),
    both "print-solution" 'p' (.flag (update fun common =>
      { common with printSolution := true })),
    longOnly "order" (setting (readChoice OrderKind.all OrderKind.name)
      fun value => update fun common => { common with order := value }),
    longOnly "seed" (setting readNumber fun value => update fun common =>
      { common with seed := value.toUInt64 }),
    helpOption ]

def formulaOptions : OptionSet FormulaOptions where
  options :=
    both "input" 'i' (setting .ok fun text options =>
      { options with input := some text }) ::
    longOnly "path" (setting readPath fun path options =>
      { options with path := some path }) ::
    commonOptions fun change options =>
      { options with common := change options.common }
  positional := none

def sudokuOptions : OptionSet SudokuOptions where
  options :=
    longOnly "path" (setting readPath fun path options =>
      { options with path := some path }) ::
    both "example" 'e'
      (setting (readChoice Sudoku.Example.all Sudoku.Example.name)
        fun puzzle options => { options with builtIn := some puzzle }) ::
    commonOptions fun change options =>
      { options with common := change options.common }
  positional := none

def randomOptions : OptionSet RandomOptions where
  options :=
    longOnly "vars" (setting readNumber fun value options =>
      { options with vars := value }) ::
    longOnly "clauses" (setting readNumber fun value options =>
      { options with clauses := value }) ::
    shortOnly 'k' (setting readNumber fun value options =>
      { options with width := value }) ::
    longOnly "trials" (setting readNumber fun value options =>
      { options with trials := value }) ::
    longOnly "cross-check" (.flag fun options =>
      { options with crossCheck := true }) ::
    commonOptions fun change options =>
      { options with common := change options.common }
  positional := none

def completionsOptions : OptionSet (Option Shell) where
  options := [helpOption]
  positional := some
    { id := "shell"
      long := none
      short := none
      action := setting (readChoice Shell.all Shell.name) fun shell _ =>
        some shell }

/-! ### Commands -/

/-- The words of `formula`: a text or a file, and only one of them. -/
def readFormula (words : List String) : Except Refusal Command :=
  match formulaOptions.read ⟨none, none, .default⟩ words with
  | .error refusal => .error refusal
  | .ok options =>
      match options.input, options.path with
      | some _, some _ => .error .argumentConflict
      | none, none => .error .missingRequiredArgument
      | _, _ => .ok (.formula options)

def readSudoku (words : List String) : Except Refusal Command :=
  match sudokuOptions.read ⟨none, none, .default⟩ words with
  | .error refusal => .error refusal
  | .ok options =>
      match options.path, options.builtIn with
      | some _, some _ => .error .argumentConflict
      | _, _ => .ok (.sudoku options)

def readRandom (words : List String) : Except Refusal Command :=
  match randomOptions.read ⟨15, 75, 3, 1, false, .default⟩ words with
  | .error refusal => .error refusal
  | .ok options => .ok (.random options)

def readCompletions (words : List String) : Except Refusal Command :=
  match completionsOptions.read none words with
  | .error refusal => .error refusal
  | .ok none => .error .missingRequiredArgument
  | .ok (some shell) => .ok (.completions shell)

/-- What reads the words after the name of a command. -/
def commandReader? :
    String → Option (List String → Except Refusal Command)
  | "formula" => some readFormula
  | "sudoku" => some readSudoku
  | "random" => some readRandom
  | "completions" => some readCompletions
  | _ => none

def isCommandName (word : String) : Bool :=
  word == "help" || (commandReader? word).isSome

/-- The words after `help`: at most the name of one command. -/
def readHelp : List String → Refusal
  | [] => .displayHelp
  | [name] => if isCommandName name then .displayHelp else .invalidSubcommand
  | _ => .invalidSubcommand

def mainOptions : OptionSet Unit where
  options := [helpOption, versionOption]
  positional := none

/-- Why a word where a command should be is refused. -/
def refusalOf (word : Word) : Refusal :=
  match mainOptions.readWord (.start ()) word with
  | .error refusal => refusal
  | .ok _ => .displayHelpOnMissingArgumentOrSubcommand

def readArguments : List String → Except Refusal Command
  | [] => .error .displayHelpOnMissingArgumentOrSubcommand
  | first :: rest =>
      match commandReader? first with
      | some read => read rest
      | none =>
          if first = "help" then .error (readHelp rest)
          else
            match Word.ofString first, rest with
            | .plain _, _ => .error .invalidSubcommand
            | .escape, [] =>
                .error .displayHelpOnMissingArgumentOrSubcommand
            | .escape, word :: _ =>
                if isCommandName word then .error .unknownArgument
                else .error .invalidSubcommand
            | word, _ => .error (refusalOf word)

end PropSat.CommandLine
