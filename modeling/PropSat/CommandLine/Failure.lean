import PropSat.CommandLine.FileTree
import PropSat.Families
import PropSat.Formula.Parser
import PropSat.Formula.Printer
import PropSat.Sudoku.Board
import PropSat.TruthTable
import PropSat.Verification

/-!
# How a command fails
-/

namespace PropSat.CommandLine

inductive PuzzleFileError where
  | unreadable (cause : FileError)
  | malformed (cause : Sudoku.BoardError)
  deriving DecidableEq

def PuzzleFileError.message : PuzzleFileError → String
  | .unreadable cause => s!"I/O error: {cause.message}"
  | .malformed cause => cause.message

inductive Failure where
  | unreadable (path : String) (cause : FileError)
  | malformed (cause : ParseError)
  | noFormula
  | badPuzzleFile (path : String) (cause : PuzzleFileError)
  /-- A built-in board is no puzzle. -/
  | badPuzzle (cause : Sudoku.BoardError)
  | unverified (cause : VerificationFailure)
  /-- Literals are asked for, but no variables. -/
  | noVariables
  | undrawable (cause : DrawError)
  | noTable (cause : TruthTable.TooLarge)
  | disagreement (trial : Nat) (search table : Bool) (formula : Formula)
  deriving DecidableEq

namespace Failure

def message : Failure → String
  | .unreadable path cause => s!"Unable to read {path}: {cause.message}"
  | .malformed cause => cause.message
  | .noFormula => "No formula given"
  | .badPuzzleFile path cause =>
      s!"Error parsing Sudoku file {path}: {cause.message}"
  | .badPuzzle cause => cause.message
  | .unverified cause => cause.message
  | .noVariables => "--vars must be positive"
  | .undrawable cause => cause.message
  | .noTable cause => cause.message
  | .disagreement trial search table formula =>
      s!"trial {trial}: search says {search}, truth table says {table}\n" ++
        formula.render

def status : Failure → UInt32
  | .undrawable _ => 101
  | _ => 1

end Failure

end PropSat.CommandLine
