import PropSat.Cardinality
import PropSat.Sudoku.Board
import PropSat.Valuation

/-!
# Sudoku puzzles as formulas

A puzzle is a square board of one of the sizes whose numbers fit.  Its formula
has an atom for each cell and number, and says that exactly one of certain
atoms is true: of those of a cell, and of those of a number within a row, a
column or a block.  Filled cells are added as they stand.  The models of the
formula are the completions of the puzzle, and `decode` reads them off.
-/

namespace PropSat.Sudoku

/-- A square board whose numbers fit its size. -/
structure Puzzle where
  board : Board
  size : Size
  length_rows : board.rows.length = size.side
  length_row : ∀ row ∈ board.rows, row.length = size.side
  value_le : ∀ row ∈ board.rows, ∀ value ∈ row, value ≤ size.side

/-- The name of the atom that says which number a cell holds, with row and
column counted from one. -/
def variableName (row column number : Nat) : String :=
  s!"{row},{column},{number}"

def variableAtom (row column number : Nat) : Formula :=
  .atom (variableName row column number)

namespace Puzzle

def ofBoard (board : Board) : Except BoardError Puzzle :=
  match size? : Size.ofSide? board.rows.length with
  | none => .error (.unsupportedSize board.rows.length)
  | some size =>
      let side := size.side
      match ragged : board.rows.findIdx? (·.length != side) with
      | some row =>
          let cells := (board.rows[row]?.map List.length).getD 0
          .error (.raggedRow (row + 1) cells side)
      | none =>
          match large : board.rows.flatten.find? (side < ·) with
          | some value => .error (.valueTooLarge value side)
          | none =>
              .ok {
                board := board
                size := size
                length_rows := (Size.side_of_ofSide? size?).symm
                length_row := by
                  intro row member
                  simpa [side] using List.findIdx?_eq_none_iff.mp ragged row
                    member
                value_le := by
                  intro row member value inRow
                  have fits := List.find?_eq_none.mp large value
                    (List.mem_flatten.mpr ⟨row, member, inRow⟩)
                  simpa [side] using fits }

def range (puzzle : Puzzle) : List Nat := List.range' 1 puzzle.size.side

def blockStarts (puzzle : Puzzle) : List Nat :=
  (Board.blockStarts puzzle.size).map (· + 1)

/-- The names of all atoms, by row, then column, then number. -/
def names (puzzle : Puzzle) : List String :=
  puzzle.range.flatMap fun row =>
    puzzle.range.flatMap fun column =>
      puzzle.range.map fun number => variableName row column number

def cellGroup (puzzle : Puzzle) (row column : Nat) : List Formula :=
  puzzle.range.map fun number => variableAtom row column number

def rowGroup (puzzle : Puzzle) (row number : Nat) : List Formula :=
  puzzle.range.map fun column => variableAtom row column number

def columnGroup (puzzle : Puzzle) (column number : Nat) : List Formula :=
  puzzle.range.map fun row => variableAtom row column number

def blockGroup (puzzle : Puzzle) (row column number : Nat) : List Formula :=
  (List.range' row puzzle.size.block).flatMap fun row =>
    (List.range' column puzzle.size.block).map fun column =>
      variableAtom row column number

/-- Exactly one atom of each group is true, for the groups of two counts. -/
def exactlyOneEach (puzzle : Puzzle) (group : Nat → Nat → List Formula) :
    Formula :=
  .conj (puzzle.range.flatMap fun first =>
    puzzle.range.map fun second =>
      Cardinality.exactlyOne (group first second))

def blockConstraints (puzzle : Puzzle) : Formula :=
  .conj (puzzle.blockStarts.flatMap fun row =>
    puzzle.blockStarts.flatMap fun column =>
      puzzle.range.map fun number =>
        Cardinality.exactlyOne (puzzle.blockGroup row column number))

def clueAtoms (puzzle : Puzzle) : List Formula :=
  puzzle.board.rows.zipIdx.flatMap fun (cells, row) =>
    cells.zipIdx.filterMap fun (value, column) =>
      if value = 0 then none
      else some (variableAtom (row + 1) (column + 1) value)

/-- The constraints on cells, rows, columns and blocks, and the clues. -/
def constraints (puzzle : Puzzle) : List Formula :=
  [puzzle.exactlyOneEach puzzle.cellGroup,
    puzzle.exactlyOneEach puzzle.rowGroup,
    puzzle.exactlyOneEach puzzle.columnGroup,
    puzzle.blockConstraints,
    .conj puzzle.clueAtoms]

def toFormula (puzzle : Puzzle) : Formula := .conj puzzle.constraints

/-- The number that a valuation puts into a cell: the largest whose atom is
true, and zero if none is. -/
def decodeCell (puzzle : Puzzle) (valuation : Valuation) (row column : Nat) :
    Nat :=
  puzzle.range.foldl (fun value number =>
    if valuation.get? (variableName row column number) = some true then number
    else value) 0

def decode (puzzle : Puzzle) (valuation : Valuation) : Board :=
  ⟨puzzle.range.map fun row =>
    puzzle.range.map fun column => puzzle.decodeCell valuation row column⟩

end Puzzle

end PropSat.Sudoku
