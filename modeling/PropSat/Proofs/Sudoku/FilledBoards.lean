import PropSat.Proofs.ClosedFormulas
import PropSat.Proofs.ExactlyOnePropagation
import PropSat.Proofs.RootDecision
import PropSat.Proofs.Sudoku.LeastCompletion

/-!
# Filled boards are checked, not searched

If no cell of a puzzle is empty, the clues make one atom of every cell true,
and the constraint on the cell makes all others false.  So a closed valuation
has no choice about any atom: it marks the board, and since it leaves nothing
open it satisfies the clauses.  The rows, columns and blocks are then as they
should be, which is what the board checks for itself.

Propagation therefore finds the marks of the board if the board is solved, and
a conflict if it is not, before any decision.
-/

namespace PropSat.Sudoku.Puzzle

variable {puzzle : Puzzle} {valuation : Valuation} {names : List String}

def IsFilled (puzzle : Puzzle) : Prop :=
  ∀ row ∈ puzzle.board.rows, 0 ∉ row

instance : Decidable puzzle.IsFilled :=
  inferInstanceAs (Decidable (∀ row ∈ puzzle.board.rows, 0 ∉ row))

theorem board_hasShape (puzzle : Puzzle) :
    puzzle.board.HasShape puzzle.size :=
  ⟨puzzle.length_rows, puzzle.length_row⟩

theorem IsFilled.hasClue (filled : puzzle.IsFilled) {row column : Nat}
    (inRows : row ∈ puzzle.range) (inColumns : column ∈ puzzle.range) :
    puzzle.HasClue (row - 1) (column - 1) (puzzle.board.grid (row, column)) := by
  rw [mem_range_iff] at inRows inColumns
  have height := puzzle.length_rows
  have rowBound : row - 1 < puzzle.board.rows.length := by omega
  have isRow := List.getElem_mem rowBound
  have width := puzzle.length_row _ isRow
  have columnBound : column - 1 < puzzle.board.rows[row - 1].length := by
    omega
  have found : puzzle.board.get? (row - 1) (column - 1) =
      some puzzle.board.rows[row - 1][column - 1] :=
    Board.get?_eq_some_iff.mpr ⟨_, List.getElem?_eq_getElem rowBound,
      List.getElem?_eq_getElem columnBound⟩
  have isValue : puzzle.board.grid (row, column) =
      puzzle.board.rows[row - 1][column - 1] := by
    rw [Board.grid, found, Option.getD_some]
  rw [isValue]
  refine ⟨found, ?_⟩
  intro isEmpty
  exact filled _ isRow (isEmpty ▸ List.getElem_mem columnBound)

/-- A filled board can only be completed to itself. -/
theorem IsFilled.eq_of_isCompletion (filled : puzzle.IsFilled) {board : Board}
    (completion : puzzle.IsCompletion board) : board = puzzle.board := by
  obtain ⟨same, _⟩ := Board.exists_solution_of_isSolved completion.1
  have holds : puzzle.Matches board.grid := by
    rw [← respects_ofGrid_iff, same]
    exact completion.2
  have agree : puzzle.size.cells.map board.grid =
      puzzle.size.cells.map puzzle.board.grid := by
    apply List.map_congr_left
    rintro ⟨row, column⟩ member
    obtain ⟨inRows, inColumns⟩ := Size.mem_cells_iff.mp member
    have given := holds _ _ _ (filled.hasClue inRows inColumns)
    rw [Size.mem_numbers_iff] at inRows inColumns
    rw [Nat.sub_add_cancel inRows.1, Nat.sub_add_cancel inColumns.1] at given
    exact given
  calc
    board = Board.ofGrid puzzle.size board.grid := same.symm
    _ = Board.ofGrid puzzle.size puzzle.board.grid := Board.ofGrid_congr agree
    _ = puzzle.board := puzzle.board_hasShape.ofGrid_grid

theorem isCompletion_board (solved : puzzle.board.isSolved puzzle.size = true) :
    puzzle.IsCompletion puzzle.board := by
  refine ⟨solved, ?_⟩
  rw [Board.respects_iff]
  intro row column value clue _
  exact clue

/-- A closed valuation makes the atom of every clue true. -/
theorem get?_clue_of_isClosedFor
    (closed : valuation.IsClosedFor puzzle.toFormula.clauses.clauses)
    {row column value : Nat} (clue : puzzle.HasClue row column value) :
    valuation.get? (variableName (row + 1) (column + 1) value) =
      some true := by
  rw [toFormula, Formula.isClosedFor_conj_iff] at closed
  have clues := closed (.conj puzzle.clueAtoms) (by simp [constraints])
  rw [Formula.isClosedFor_conj_iff] at clues
  have atomClosed := clues _
    (mem_clueAtoms_iff.mpr ⟨row, column, value, clue, rfl⟩)
  rw [← Cardinality.value?_positive]
  exact Literal.isClosedFor_formula_iff.mp atomClosed

theorem isClosedFor_cell
    (closed : valuation.IsClosedFor puzzle.toFormula.clauses.clauses)
    {row column : Nat} (inRows : row ∈ puzzle.range)
    (inColumns : column ∈ puzzle.range) :
    valuation.IsClosedFor
      (Cardinality.oneOf (puzzle.cellNames (row, column))).clauses := by
  rw [toFormula, Formula.isClosedFor_conj_iff] at closed
  have cells := closed (puzzle.exactlyOneEach puzzle.cellGroup)
    (by simp [constraints])
  rw [exactlyOneEach, Formula.isClosedFor_conj_iff] at cells
  simp only [List.forall_mem_flatMap, List.forall_mem_map] at cells
  have cell := cells row inRows column inColumns
  have atoms : puzzle.cellGroup row column =
      (puzzle.cellNames (row, column)).map .atom := by
    rw [cellGroup, cellNames, List.map_map]
    rfl
  rw [atoms] at cell
  exact cell

theorem nodup_cellNames (cell : Nat × Nat) :
    (puzzle.cellNames cell).Nodup := by
  apply puzzle.size.nodup_numbers.map
  intro number other same
  exact (variableName_inj same).2.2

/-- A closed valuation makes the atom of the number in every cell true. -/
theorem IsFilled.get?_of_isClosedFor (filled : puzzle.IsFilled)
    (closed : valuation.IsClosedFor puzzle.toFormula.clauses.clauses)
    {row column : Nat} (inRows : row ∈ puzzle.range)
    (inColumns : column ∈ puzzle.range) :
    valuation.get?
        (variableName row column (puzzle.board.grid (row, column))) =
      some true := by
  have clueTrue :=
    get?_clue_of_isClosedFor closed (filled.hasClue inRows inColumns)
  rw [mem_range_iff] at inRows inColumns
  rw [Nat.sub_add_cancel inRows.1, Nat.sub_add_cancel inColumns.1] at clueTrue
  exact clueTrue

/-- The clue of a cell decides all of its atoms. -/
theorem IsFilled.marks_of_isClosedFor (filled : puzzle.IsFilled)
    (closed : valuation.IsClosedFor puzzle.toFormula.clauses.clauses) :
    puzzle.Marks valuation puzzle.board := by
  have describes : puzzle.Describes valuation puzzle.board.grid := by
    intro row inRows column inColumns number inRange
    have clueInRange := (filled.hasClue inRows inColumns).mem_range.2.2
    have clueTrue := filled.get?_of_isClosedFor closed inRows inColumns
    have inNames {number : Nat} (inRange : number ∈ puzzle.range) :
        variableName row column number ∈
          puzzle.cellNames (row, column) := List.mem_map_of_mem inRange
    rw [Cardinality.get?_of_isClosedFor_oneOf (nodup_cellNames (row, column))
      (isClosedFor_cell closed inRows inColumns) (inNames clueInRange)
      clueTrue _ (inNames inRange), Option.some.injEq, decide_eq_decide]
    constructor
    · intro same
      exact (variableName_inj same).2.2
    · intro same
      rw [same]
  rw [← puzzle.board_hasShape.ofGrid_grid]
  exact marks_ofGrid_iff.mpr describes

/-- What assigns all atoms and is closed makes the formula true. -/
theorem isModel_of_isClosedFor
    (closed : valuation.IsClosedFor puzzle.toFormula.clauses.clauses)
    (total : valuation.isTotalOver puzzle.names = true) :
    puzzle.IsModel valuation := by
  refine ⟨total, ?_⟩
  rw [Formula.evaluate_eq_isSatisfiedBy (isTotalOver_vars total),
    Except.ok.injEq]
  apply closed.isSatisfiedBy
  intro name occurs
  apply Valuation.isTotalOver_iff.mp total
  exact mem_names_of_mem_atoms (Formula.mem_atoms_of_mem_clauses occurs)

/-- The closed valuations of a filled board mark it, and there are none unless
it is solved. -/
theorem IsFilled.isClosedFor_iff (filled : puzzle.IsFilled) :
    valuation.IsClosedFor puzzle.toFormula.clauses.clauses ↔
      puzzle.Marks valuation puzzle.board ∧
        puzzle.board.isSolved puzzle.size = true := by
  constructor
  · intro closed
    have marks := filled.marks_of_isClosedFor closed
    have isModel := isModel_of_isClosedFor closed marks.isTotalOver
    have completion := isModel.marks_decode.1
    refine ⟨marks, ?_⟩
    rw [← filled.eq_of_isCompletion completion]
    exact completion.1
  · rintro ⟨marks, solved⟩
    obtain ⟨isModel, _⟩ := (isCompletion_board solved).isModel marks
    exact Formula.isClosedFor_of_kleene?
      (Formula.kleene?_of_evaluate _ isModel.2)

theorem Marks.extends_mark {board : Board}
    (marks : puzzle.Marks valuation board) :
    valuation.Extends (puzzle.mark board) := by
  apply valuation.extends_empty.extend_right
  intro name value member
  obtain ⟨row, inRows, column, inColumns, number, inRange, rfl, rfl⟩ :=
    mem_markings_iff.mp member
  exact marks row inRows column inColumns number inRange

theorem IsFilled.dpll_of_isSolved (filled : puzzle.IsFilled)
    (solved : puzzle.board.isSolved puzzle.size = true)
    (within : ∀ name ∈ names, name ∈ puzzle.names) :
    dpll ∅ puzzle.toFormula.clauses names =
        .satisfiable (puzzle.mark puzzle.board) ∧
      ∃ forced, Problem.cost ⟨puzzle.toFormula.clauses, names⟩ ∅ =
        ⟨0, forced, 0, 0⟩ := by
  have marks := marks_mark puzzle puzzle.board
  have total : (puzzle.mark puzzle.board).isTotalOver names = true := by
    apply Valuation.isTotalOver_iff.mpr
    intro name member
    exact contains_mark_iff.mpr (within name member)
  obtain ⟨outcome, isCost⟩ := Problem.solved_by_least_closed
    (filled.isClosedFor_iff.mpr ⟨marks, solved⟩)
    (fun _ closed => (filled.marks_of_isClosedFor closed).extends_mark) total
  exact ⟨outcome, _, isCost⟩

theorem IsFilled.dpll_of_not_isSolved (filled : puzzle.IsFilled)
    (unsolved : puzzle.board.isSolved puzzle.size ≠ true)
    (names : List String) :
    dpll ∅ puzzle.toFormula.clauses names = .unsatisfiable ∧
      ∃ forced, Problem.cost ⟨puzzle.toFormula.clauses, names⟩ ∅ =
        ⟨0, forced, 1, 0⟩ := by
  apply Problem.refuted_without_closed
  intro other closed
  exact unsolved (filled.isClosedFor_iff.mp closed).2

/-- On a board without an empty cell, with the names in any order, the search
takes no decision.  It succeeds exactly when the board is solved, with a model
that is decoded to this board, and fails with a single conflict. -/
theorem search_checks_filled_board (puzzle : Puzzle)
    (filled : puzzle.IsFilled) {names : List String}
    (arranged : names.Perm puzzle.names) :
    let cnf := puzzle.toFormula.clauses
    let cost := Problem.cost ⟨cnf, names⟩ ∅
    cost.decisions = 0 ∧
    ((dpll ∅ cnf names).isSat = true ↔
      puzzle.board.isSolved puzzle.size = true) ∧
    (∀ model, dpll ∅ cnf names = .satisfiable model →
      puzzle.decode model = puzzle.board) ∧
    (dpll ∅ cnf names = .unsatisfiable → cost.conflicts = 1) := by
  dsimp only
  by_cases solved : puzzle.board.isSolved puzzle.size = true
  · have within : ∀ name ∈ names, name ∈ puzzle.names := by
      intro name member
      exact arranged.mem_iff.mp member
    obtain ⟨outcome, forced, isCost⟩ := filled.dpll_of_isSolved solved within
    have decoded := ((isCompletion_board solved).isModel
      (marks_mark puzzle puzzle.board)).2
    rw [outcome, isCost]
    refine ⟨rfl, iff_of_true rfl solved, ?_, ?_⟩
    · intro model isFound
      cases isFound
      exact decoded
    · intro failed
      cases failed
  · obtain ⟨outcome, forced, isCost⟩ :=
      filled.dpll_of_not_isSolved solved names
    rw [outcome, isCost]
    refine ⟨rfl, iff_of_false Bool.false_ne_true solved, ?_, fun _ => rfl⟩
    intro model isFound
    cases isFound

/-- Of two boards with all numbers in every row and column, the first has them
in every block too and the second has not. -/
theorem search_checks_filled_board_four :
    (∃ puzzle, ofBoard
        ⟨[[1, 3, 2, 4], [2, 4, 1, 3], [3, 1, 4, 2], [4, 2, 3, 1]]⟩ =
          .ok puzzle ∧
      (dpll ∅ puzzle.toFormula.clauses puzzle.names).isSat = true) ∧
    (∃ puzzle, ofBoard
        ⟨[[1, 2, 3, 4], [2, 3, 4, 1], [3, 4, 1, 2], [4, 1, 2, 3]]⟩ =
          .ok puzzle ∧
      (dpll ∅ puzzle.toFormula.clauses
        (VariableOrder.sorted.arrange puzzle.names)).isSat = false) := by
  constructor
  · refine ⟨⟨_, .four, rfl, by decide, by decide⟩,
      ofBoard_eq_ok_iff.mpr rfl, ?_⟩
    apply (search_checks_filled_board _ (by decide) (.refl _)).2.1.mpr
    cbv
  · refine ⟨⟨_, .four, rfl, by decide, by decide⟩,
      ofBoard_eq_ok_iff.mpr rfl, ?_⟩
    rw [← Bool.not_eq_true, (search_checks_filled_board _ (by decide)
      (VariableOrder.arrange_perm .sorted _)).2.1, Bool.not_eq_true]
    cbv

end PropSat.Sudoku.Puzzle
