import Mathlib.Data.List.Sort
import PropSat.Proofs.Sudoku.Grid

/-!
# Solved boards are solutions

A board of the right shape is the same as a grid.  It is solved exactly when
the grid is a solution: sorting the numbers of a unit is how a board checks
that they are a permutation of all numbers.
-/

namespace PropSat.Sudoku

namespace Board

/-- The board of a size whose cells hold the numbers of the grid. -/
def ofGrid (size : Size) (grid : Nat × Nat → Nat) : Board :=
  ⟨size.numbers.map fun row =>
    size.numbers.map fun column => grid (row, column)⟩

def grid (board : Board) (cell : Nat × Nat) : Nat :=
  (board.get? (cell.1 - 1) (cell.2 - 1)).getD 0

theorem get?_ofGrid {size : Size} {grid : Nat × Nat → Nat}
    {row column : Nat} (inRows : row < size.side)
    (inColumns : column < size.side) :
    (ofGrid size grid).get? row column =
      some (grid (row + 1, column + 1)) := by
  simp [get?, ofGrid, Size.numbers, inRows, inColumns, Nat.add_comm 1]

/-- A board with as many rows and cells in each row as the size says. -/
def HasShape (board : Board) (size : Size) : Prop :=
  board.rows.length = size.side ∧
    ∀ row ∈ board.rows, row.length = size.side

theorem HasShape.ofGrid_grid {board : Board} {size : Size}
    (shape : board.HasShape size) : ofGrid size board.grid = board := by
  obtain ⟨height, width⟩ := shape
  cases board with
  | mk rows =>
      simp only [ofGrid, mk.injEq]
      refine List.ext_getElem ?_ ?_
      · rw [List.length_map, Size.length_numbers, height]
      · intro row inNumbers inRows
        have rowWidth := width _ (List.getElem_mem inRows)
        refine List.ext_getElem ?_ ?_
        · simp [Size.length_numbers, rowWidth]
        · intro column inRange inRow
          simp [Size.numbers, grid, get?, inRows, inRow]

theorem mapM_id_map_some (values : List Nat) :
    (values.map some).mapM id = some values := by
  induction values with
  | nil => rfl
  | cons value rest induction => simp [List.mapM_cons, induction]

/-- Sorting decides whether the numbers are all those up to the side. -/
theorem isComplete_map_some_iff {side : Nat} {values : List Nat} :
    isComplete side (values.map some) = true ↔
      values.Perm (List.range' 1 side) := by
  rw [isComplete, mapM_id_map_some, beq_iff_eq]
  constructor
  · intro sorted
    rw [← sorted]
    exact (List.mergeSort_perm values _).symm
  · intro perm
    have sorted : (values.mergeSort).Pairwise (· ≤ ·) :=
      List.pairwise_mergeSort' (· ≤ ·) values
    have increasing : (List.range' 1 side).Pairwise (· ≤ ·) :=
      List.pairwise_le_range'
    exact ((List.mergeSort_perm values _).trans perm).eq_of_pairwise' sorted
      increasing

section Units

variable {size : Size} {grid : Nat × Nat → Nat} {row column : Nat}

theorem rowCells_ofGrid (inRows : row < size.side) :
    (ofGrid size grid).rowCells size.side row =
      ((size.rowUnit (row + 1)).map grid).map some := by
  rw [rowCells, Size.rowUnit, List.map_map, List.map_map]
  refine Size.map_range_eq_map_numbers ?_
  intro column inColumns
  exact get?_ofGrid inRows inColumns

theorem columnCells_ofGrid (inColumns : column < size.side) :
    (ofGrid size grid).columnCells size.side column =
      ((size.columnUnit (column + 1)).map grid).map some := by
  rw [columnCells, Size.columnUnit, List.map_map, List.map_map]
  refine Size.map_range_eq_map_numbers ?_
  intro row inRows
  exact get?_ofGrid inRows inColumns

theorem blockCells_ofGrid (rowStart : row ∈ blockStarts size)
    (columnStart : column ∈ blockStarts size) :
    (ofGrid size grid).blockCells size.block row column =
      ((size.blockUnit (row + 1) (column + 1)).map grid).map some := by
  have rowFits := Size.add_block_le_side rowStart
  have columnFits := Size.add_block_le_side columnStart
  have shifted (start : Nat) : List.range' (start + 1) size.block =
      (List.range' start size.block).map (1 + ·) := by
    rw [List.map_add_range', Nat.add_comm 1]
  rw [blockCells, Size.blockUnit, shifted row, shifted column,
    List.flatMap_map, List.map_flatMap, List.map_flatMap]
  refine List.flatMap_congr ?_
  intro cellRow inBlockRows
  rw [List.map_map, List.map_map, List.map_map]
  refine List.map_congr_left ?_
  intro cellColumn inBlockColumns
  rw [List.mem_range'_1] at inBlockRows inBlockColumns
  rw [get?_ofGrid (by omega) (by omega)]
  simp [Nat.add_comm 1]

theorem hasShape_ofGrid (size : Size) (grid : Nat × Nat → Nat) :
    (ofGrid size grid).HasShape size := by
  constructor
  · rw [ofGrid, List.length_map, Size.length_numbers]
  · intro cells member
    obtain ⟨row, _, rfl⟩ := List.mem_map.mp member
    rw [List.length_map, Size.length_numbers]

theorem isComplete_unit_iff {cells : List (Nat × Nat)} :
    isComplete size.side ((cells.map grid).map some) = true ↔
      (cells.map grid).Perm size.numbers :=
  isComplete_map_some_iff

/-- What a board checks are the units of its grid. -/
theorem isSolved_ofGrid_iff :
    (ofGrid size grid).isSolved size = true ↔ IsSolution size grid := by
  have shape := hasShape_ofGrid size grid
  rw [IsSolution.iff_perm]
  simp only [isSolved, Bool.and_eq_true, List.all_eq_true, beq_iff_eq,
    List.mem_range]
  constructor
  · rintro ⟨⟨⟨_, rows⟩, columns⟩, blocks⟩ cells isUnit
    cases isUnit with
    | @row row inGrid =>
        rw [Size.mem_numbers_iff] at inGrid
        have complete := rows (row - 1) (by omega)
        rw [rowCells_ofGrid (by omega), isComplete_unit_iff,
          Nat.sub_add_cancel inGrid.1] at complete
        exact complete
    | @column column inGrid =>
        rw [Size.mem_numbers_iff] at inGrid
        have complete := columns (column - 1) (by omega)
        rw [columnCells_ofGrid (by omega), isComplete_unit_iff,
          Nat.sub_add_cancel inGrid.1] at complete
        exact complete
    | @block row column rowStart columnStart =>
        have complete := blocks row rowStart column columnStart
        rw [blockCells_ofGrid rowStart columnStart, isComplete_unit_iff]
          at complete
        exact complete
  · intro perms
    refine ⟨⟨⟨shape, ?_⟩, ?_⟩, ?_⟩
    · intro row inRows
      rw [rowCells_ofGrid inRows, isComplete_unit_iff]
      exact perms _ (.row (Size.mem_numbers_iff.mpr (by omega)))
    · intro column inColumns
      rw [columnCells_ofGrid inColumns, isComplete_unit_iff]
      exact perms _ (.column (Size.mem_numbers_iff.mpr (by omega)))
    · intro row rowStart column columnStart
      rw [blockCells_ofGrid rowStart columnStart, isComplete_unit_iff]
      exact perms _ (.block rowStart columnStart)

end Units

theorem HasShape.of_isSolved {board : Board} {size : Size}
    (solved : board.isSolved size = true) : board.HasShape size := by
  simp only [isSolved, Bool.and_eq_true, List.all_eq_true, beq_iff_eq]
    at solved
  exact solved.1.1.1

theorem exists_solution_of_isSolved {board : Board} {size : Size}
    (solved : board.isSolved size = true) :
    ofGrid size board.grid = board ∧ IsSolution size board.grid := by
  have same := (HasShape.of_isSolved solved).ofGrid_grid
  refine ⟨same, isSolved_ofGrid_iff.mp ?_⟩
  rw [same]
  exact solved

end Board

end PropSat.Sudoku
