import PropSat.Sudoku.Examples
import PropSat.VariableOrder

/-!
# What can be asked for

The commands of the program with their options, and the ways in which a list
of arguments is refused.
-/

namespace PropSat.CommandLine

structure CommonOptions where
  debug : Bool
  verify : Bool
  stats : Bool
  printSolution : Bool
  order : OrderKind
  seed : UInt64
  deriving DecidableEq

def CommonOptions.default : CommonOptions where
  debug := false
  verify := true
  stats := true
  printSolution := false
  order := .sorted
  seed := 0

structure FormulaOptions where
  input : Option String
  path : Option String
  common : CommonOptions
  deriving DecidableEq

structure SudokuOptions where
  path : Option String
  builtIn : Option Sudoku.Example
  common : CommonOptions
  deriving DecidableEq

structure RandomOptions where
  vars : Nat
  clauses : Nat
  width : Nat
  trials : Nat
  crossCheck : Bool
  common : CommonOptions
  deriving DecidableEq

inductive Shell where
  | bash
  | elvish
  | fish
  | powerShell
  | zsh
  deriving DecidableEq

namespace Shell

def all : List Shell := [.bash, .elvish, .fish, .powerShell, .zsh]

def name : Shell → String
  | .bash => "bash"
  | .elvish => "elvish"
  | .fish => "fish"
  | .powerShell => "powershell"
  | .zsh => "zsh"

end Shell

inductive Command where
  | formula (options : FormulaOptions)
  | sudoku (options : SudokuOptions)
  | random (options : RandomOptions)
  | completions (shell : Shell)
  deriving DecidableEq

/-- Why arguments are not taken as a command.  Asking for help or for the
version is among the reasons. -/
inductive Refusal where
  /-- An option that is not known, or a word too many. -/
  | unknownArgument
  /-- A word that is not among those possible, or none where one must be. -/
  | invalidValue
  | valueValidation
  /-- Two options that exclude each other, or one given twice. -/
  | argumentConflict
  | tooManyValues
  | missingRequiredArgument
  | invalidSubcommand
  | displayHelp
  | displayVersion
  | displayHelpOnMissingArgumentOrSubcommand
  deriving DecidableEq

end PropSat.CommandLine
