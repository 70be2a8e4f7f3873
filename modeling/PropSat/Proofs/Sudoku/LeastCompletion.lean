import Mathlib.Data.List.Permutation
import PropSat.Proofs.CheckedOutcome
import PropSat.Proofs.FirstModel
import PropSat.Proofs.Sudoku.Completions
import PropSat.Proofs.Sudoku.NameOrder

/-!
# The completion that a search finds

With the names of a puzzle by row, column and number, the search compares two
completions at the first cell where they differ, and there a smaller number
has the earlier atom.  So the model that it finds first is decoded to the
least completion, read row by row.
-/

namespace PropSat.Sudoku

namespace Board

def cells (board : Board) : List Nat := board.rows.flatten

/-- At the first cell where the two boards differ, the number of this one is
the smaller. -/
def ComesBefore (board other : Board) : Prop :=
  List.Lex (· < ·) board.cells other.cells

end Board

def Size.cells (size : Size) : List (Nat × Nat) :=
  size.numbers.flatMap size.rowUnit

theorem Size.mem_cells_iff {size : Size} {cell : Nat × Nat} :
    cell ∈ size.cells ↔ cell.1 ∈ size.numbers ∧ cell.2 ∈ size.numbers := by
  simp only [cells, rowUnit, List.mem_flatMap, List.mem_map]
  constructor
  · rintro ⟨row, inRows, column, inColumns, rfl⟩
    exact ⟨inRows, inColumns⟩
  · rintro ⟨inRows, inColumns⟩
    exact ⟨cell.1, inRows, cell.2, inColumns, rfl⟩

theorem Board.cells_ofGrid (size : Size) (grid : Nat × Nat → Nat) :
    (ofGrid size grid).cells = size.cells.map grid := by
  rw [Size.cells, List.map_flatMap, List.flatMap_def]
  simp [cells, ofGrid, Size.rowUnit, Function.comp_def]

theorem Board.ofGrid_congr {size : Size} {grid other : Nat × Nat → Nat}
    (same : size.cells.map grid = size.cells.map other) :
    ofGrid size grid = ofGrid size other := by
  have agree := List.map_inj_left.mp same
  rw [ofGrid, ofGrid]
  congr 1
  refine List.map_congr_left ?_
  intro row inRows
  refine List.map_congr_left ?_
  intro column inColumns
  exact agree (row, column) (Size.mem_cells_iff.mpr ⟨inRows, inColumns⟩)

namespace Puzzle

variable {puzzle : Puzzle} {first second model : Valuation}
  {grid otherGrid : Nat × Nat → Nat} {board : Board} {order : VariableOrder}

def cellNames (puzzle : Puzzle) (cell : Nat × Nat) : List String :=
  puzzle.range.map (variableName cell.1 cell.2)

theorem names_eq_flatMap (puzzle : Puzzle) :
    puzzle.names = puzzle.size.cells.flatMap puzzle.cellNames := by
  simp [names, cellNames, Size.cells, Size.rowUnit, List.flatMap_assoc,
    List.flatMap_map, range_eq_numbers]

/-- Of two choices among atoms by increasing number, the smaller number comes
first. -/
theorem le_of_precedes {name : Nat → String} {chosen other : Nat}
    {numbers : List Nat} (increasing : numbers.Pairwise (· < ·))
    (isNumber : other ∈ numbers)
    (values : ∀ number ∈ numbers,
      first.get? (name number) = some (decide (number = chosen)))
    (otherValues : ∀ number ∈ numbers,
      second.get? (name number) = some (decide (number = other)))
    (precedes : Valuation.Precedes (numbers.map name) first second) :
    chosen ≤ other := by
  induction numbers with
  | nil => cases isNumber
  | cons number rest induction =>
      obtain ⟨below, restIncreasing⟩ := List.pairwise_cons.mp increasing
      obtain ⟨value, restValues⟩ := List.forall_mem_cons.mp values
      obtain ⟨otherValue, restOtherValues⟩ :=
        List.forall_mem_cons.mp otherValues
      rcases precedes with ⟨isTrue, isFalse⟩ | ⟨same, later⟩
      · have isChosen : number = chosen := by simpa [value] using isTrue
        have notOther : number ≠ other := by simpa [otherValue] using isFalse
        have inRest := (List.mem_cons.mp isNumber).resolve_left notOther.symm
        rw [← isChosen]
        exact (below other inRest).le
      · rw [value, otherValue, Option.some.injEq, decide_eq_decide] at same
        rcases List.mem_cons.mp isNumber with isHere | inRest
        · rw [← same.mpr isHere.symm, isHere]
        · exact induction restIncreasing inRest restValues restOtherValues
            later

/-- Valuations of grids compare as the grids do, cell by cell. -/
theorem lex_of_precedes {cells : List (Nat × Nat)}
    (inside : ∀ cell ∈ cells, cell ∈ puzzle.size.cells)
    (describes : puzzle.Describes first grid)
    (otherDescribes : puzzle.Describes second otherGrid)
    (solution : IsSolution puzzle.size otherGrid)
    (precedes : Valuation.Precedes (cells.flatMap puzzle.cellNames) first
      second) :
    cells.map otherGrid = cells.map grid ∨
      List.Lex (· < ·) (cells.map grid) (cells.map otherGrid) := by
  induction cells with
  | nil => exact .inl rfl
  | cons cell rest induction =>
      obtain ⟨here, restInside⟩ := List.forall_mem_cons.mp inside
      obtain ⟨inRows, inColumns⟩ := Size.mem_cells_iff.mp here
      have values := describes cell.1 inRows cell.2 inColumns
      have otherValues := otherDescribes cell.1 inRows cell.2 inColumns
      obtain ⟨atCell, inRest⟩ := precedes.of_append
      have notAbove := le_of_precedes (pairwise_lt_range puzzle)
        (solution.mem_numbers inRows inColumns) values otherValues atCell
      rcases notAbove.lt_or_eq with below | same
      · exact .inr (.rel below)
      · have agree : ∀ name ∈ puzzle.cellNames cell,
            first.get? name = second.get? name := by
          intro name member
          obtain ⟨number, inRange, rfl⟩ := List.mem_map.mp member
          rw [values number inRange, otherValues number inRange, same]
        rw [List.map_cons, List.map_cons, same]
        rcases induction restInside (inRest agree) with equal | less
        · exact .inl (by rw [equal])
        · exact .inr (.cons less)

/-- What a board marks is the grid of a solution. -/
theorem IsCompletion.exists_grid (completion : puzzle.IsCompletion board)
    (marks : puzzle.Marks model board) :
    ∃ grid, Board.ofGrid puzzle.size grid = board ∧
      IsSolution puzzle.size grid ∧ puzzle.Describes model grid := by
  obtain ⟨same, solution⟩ := Board.exists_solution_of_isSolved completion.1
  refine ⟨board.grid, same, solution, ?_⟩
  rw [← marks_ofGrid_iff, same]
  exact marks

/-- A completion that comes before every other one. -/
structure IsLeastCompletion (puzzle : Puzzle) (board : Board) : Prop where
  isCompletion : puzzle.IsCompletion board
  comesBefore : ∀ other, puzzle.IsCompletion other →
    other = board ∨ board.ComesBefore other

theorem isModel_of_dpll
    (found : dpll ∅ puzzle.toFormula.clauses (order.arrange puzzle.names) =
      .satisfiable model) : puzzle.IsModel model := by
  have confirmed := (Formula.isCoveredBy_names puzzle).isConfirmedBy_dpll found
  refine ⟨?_, confirmed.holds⟩
  rw [← VariableOrder.isTotalOver_arrange_iff]
  exact confirmed.total

theorem isLeastCompletion_of_dpll
    (arranged : order.arrange puzzle.names = puzzle.names)
    (found : dpll ∅ puzzle.toFormula.clauses (order.arrange puzzle.names) =
      .satisfiable model) : puzzle.IsLeastCompletion (puzzle.decode model) := by
  obtain ⟨completion, marks⟩ := (isModel_of_dpll found).marks_decode
  refine ⟨completion, ?_⟩
  intro other otherCompletion
  have otherMarks := marks_mark puzzle other
  obtain ⟨⟨total, holds⟩, _⟩ := otherCompletion.isModel otherMarks
  rw [arranged] at found
  have precedes := dpll_precedes found (puzzle.mark other).extends_empty total
    (Formula.isSatisfiedBy_of_evaluate holds)
  rw [names_eq_flatMap] at precedes
  obtain ⟨grid, isGrid, _, describes⟩ := completion.exists_grid marks
  obtain ⟨otherGrid, isOtherGrid, solution, otherDescribes⟩ :=
    otherCompletion.exists_grid otherMarks
  have compared := lex_of_precedes (fun _ member => member) describes
    otherDescribes solution precedes
  rcases compared with same | less
  · left
    rw [← isGrid, ← isOtherGrid]
    exact Board.ofGrid_congr same
  · right
    rw [Board.ComesBefore, ← isGrid, ← isOtherGrid, Board.cells_ofGrid,
      Board.cells_ofGrid]
    exact less

theorem isSat_dpll_of_completion (order : VariableOrder)
    (possible : ∃ board, puzzle.IsCompletion board) :
    (dpll ∅ puzzle.toFormula.clauses
      (order.arrange puzzle.names)).isSat = true := by
  obtain ⟨board, completion⟩ := possible
  obtain ⟨⟨total, holds⟩, _⟩ :=
    completion.isModel (marks_mark puzzle board)
  rw [(Formula.isCoveredBy_names puzzle).isSat_dpll_iff order]
  exact ⟨puzzle.mark board, isTotalOver_vars total, holds⟩

/-- With the names in an order that leaves them by row, column and number, the
search finds no model exactly when the puzzle has no completion, and otherwise
one that is decoded to the least completion. -/
theorem dpll_finds_least_completion (puzzle : Puzzle) (order : VariableOrder)
    (byRow : order = .given ∨
      order = .sorted ∧ (puzzle.size = .four ∨ puzzle.size = .nine)) :
    (dpll ∅ puzzle.toFormula.clauses (order.arrange puzzle.names) =
        .unsatisfiable ↔
      ¬ ∃ board, puzzle.IsCompletion board) ∧
    ((∃ board, puzzle.IsCompletion board) →
      ∃ model,
        dpll ∅ puzzle.toFormula.clauses (order.arrange puzzle.names) =
          .satisfiable model ∧
        puzzle.IsLeastCompletion (puzzle.decode model)) := by
  cases answer :
      dpll ∅ puzzle.toFormula.clauses (order.arrange puzzle.names) with
  | satisfiable model =>
      have least := isLeastCompletion_of_dpll (arrange_names byRow) answer
      constructor
      · constructor
        · intro none
          cases none
        · intro impossible
          exact absurd ⟨_, least.isCompletion⟩ impossible
      · intro _
        exact ⟨model, rfl, least⟩
  | unsatisfiable =>
      have impossible : ¬ ∃ board, puzzle.IsCompletion board := by
        intro possible
        have isSat := isSat_dpll_of_completion order possible
        rw [answer] at isSat
        cases isSat
      refine ⟨iff_of_true rfl impossible, ?_⟩
      intro possible
      exact absurd possible impossible

/-- A built-in puzzle, its names sorted. -/
theorem dpll_finds_least_completion_four :
    ∃ puzzle, ofBoard Example.four.board = .ok puzzle ∧
      ∃ model,
        dpll ∅ puzzle.toFormula.clauses
          (VariableOrder.sorted.arrange puzzle.names) =
            .satisfiable model ∧
        puzzle.IsLeastCompletion (puzzle.decode model) := by
  refine ⟨⟨Example.four.board, .four, rfl, by decide, by decide⟩,
    ofBoard_eq_ok_iff.mpr rfl, ?_⟩
  apply (dpll_finds_least_completion _ .sorted (.inr ⟨rfl, .inl rfl⟩)).2
  refine ⟨⟨[[1, 3, 2, 4], [2, 4, 1, 3], [3, 1, 4, 2], [4, 2, 3, 1]]⟩, ?_,
    by decide⟩
  cbv

end Puzzle

end PropSat.Sudoku
