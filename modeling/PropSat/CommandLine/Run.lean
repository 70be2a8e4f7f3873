import PropSat.CommandLine.Solve

/-!
# Running the program

From the arguments to the exit status: zero when the command was carried out,
one when it failed, and two when the arguments were not understood.
-/

namespace PropSat.CommandLine

def versionText : String := "dpll-solver 0.1.0\n"

def helpText : String :=
  "A DPLL satisfiability solver\n\n" ++
  "Usage: dpll-solver <COMMAND>\n\n" ++
  "Commands:\n" ++
  "  formula      Solve a formula: --input TEXT or --path FILE\n" ++
  "  sudoku       Solve puzzles: --path PATH or --example NAME\n" ++
  "  random       Solve random formulas: --vars, --clauses, -k, --trials,\n" ++
  "               --cross-check\n" ++
  "  completions  Name a shell\n" ++
  "  help         Print this text\n\n" ++
  "Options of the solving commands:\n" ++
  "  --debug, --print-solution, --verify BOOL, --stats BOOL,\n" ++
  "  --order given|sorted|shuffled, --seed N\n"

def Refusal.message : Refusal → String
  | .unknownArgument => "unexpected argument"
  | .invalidValue => "invalid or missing value"
  | .valueValidation => "invalid number"
  | .argumentConflict => "an argument cannot be used with another"
  | .tooManyValues => "unexpected value"
  | .missingRequiredArgument => "a required argument was not given"
  | .invalidSubcommand => "unrecognized command"
  | .displayHelp => "help"
  | .displayVersion => "version"
  | .displayHelpOnMissingArgumentOrSubcommand => "a command is required"

/-- The filter text for a command: the one in the environment, if there is
one, and otherwise what the options say. -/
def chooseFilter (environment : Option String) (debug : Bool) : String :=
  environment.getD (if debug then "debug" else "warn")

variable {m : Type → Type} [Monad m] {τ : Type}

def Host.warn (host : Host m τ) (text : String) : m Unit :=
  (LogFilter.warnings text).forM host.complain

def Command.perform (command : Command) (host : Host m τ)
    (environment : Option String) : Action m Unit := do
  let filterText (common : CommonOptions) :=
    chooseFilter environment common.debug
  let session (common : CommonOptions) : Session m τ :=
    ⟨host, .parse (filterText common)⟩
  match command with
  | .formula options =>
      host.warn (filterText options.common)
      (session options.common).solveFormula options
  | .sudoku options =>
      host.warn (filterText options.common)
      (session options.common).solveSudoku options
  | .random options =>
      host.warn (filterText options.common)
      let _ ← (session options.common).solveRandom options
  | .completions _ => pure ()

/-- Runs the program with its arguments and the filter text of its
environment, and gives the exit status. -/
def run (host : Host m τ) (environment : Option String)
    (arguments : List String) : m UInt32 := do
  match readArguments arguments with
  | .error .displayHelp =>
      host.print helpText
      return 0
  | .error .displayVersion =>
      host.print versionText
      return 0
  | .error refusal =>
      host.complain s!"error: {refusal.message}\n\n{helpText}"
      return 2
  | .ok command =>
      match ← (command.perform host environment).run with
      | .ok _ => return 0
      | .error failure =>
          host.complain s!"Error: {failure.message}\n"
          return failure.status

end PropSat.CommandLine
