import PropSat.Cardinality
import PropSat.CommandLine.Run
import PropSat.Families
import PropSat.Formula.ClauseForm
import PropSat.Formula.Grammar
import PropSat.Formula.Printer
import PropSat.Main
import PropSat.Observation
import PropSat.Proofs.Chains
import PropSat.Proofs.ClauseMeaning
import PropSat.Proofs.ClosedFormulas
import PropSat.Proofs.CommandLine.EmptyPool
import PropSat.Proofs.CommandLine.RandomTrials
import PropSat.Proofs.CountedMembers
import PropSat.Proofs.ExactlyOnePropagation
import PropSat.Proofs.FirstModel
import PropSat.Proofs.FirstRow
import PropSat.Proofs.Formula.ParseErrors
import PropSat.Proofs.Formula.RoundTrip
import PropSat.Proofs.Formula.TokenPlaces
import PropSat.Proofs.FormulaVariables
import PropSat.Proofs.LawfulPropagator
import PropSat.Proofs.LeastClosure
import PropSat.Proofs.PartialEvaluation
import PropSat.Proofs.PolarityTranslation
import PropSat.Proofs.PropagationCost
import PropSat.Proofs.PushedNegations
import PropSat.Proofs.RandomFormulas
import PropSat.Proofs.RepeatedSearch
import PropSat.Proofs.RootDecision
import PropSat.Proofs.SearchCounts
import PropSat.Proofs.StatusEvolution
import PropSat.Proofs.Sudoku.AtomCoverage
import PropSat.Proofs.Sudoku.BoardRoundTrip
import PropSat.Proofs.Sudoku.FilledBoards
import PropSat.Proofs.Sudoku.LeastCompletion
import PropSat.Proofs.WriteHistory
import PropSat.Sudoku.Examples
import PropSat.Sudoku.Layout
import PropSat.Sudoku.Puzzle
import PropSat.TruthTable
import PropSat.VariableOrder
import PropSat.Verification
