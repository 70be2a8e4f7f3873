/-!
# Sudoku boards

A board is any grid of numbers, in which zero marks an empty cell.  The sizes
of a puzzle are those whose grid divides into square blocks, from four to
twenty-five cells on a side.
-/

namespace PropSat.Sudoku

inductive Size where
  | four
  | nine
  | sixteen
  | twentyFive
  deriving DecidableEq

namespace Size

def all : List Size := [.four, .nine, .sixteen, .twentyFive]

def block : Size → Nat
  | .four => 2
  | .nine => 3
  | .sixteen => 4
  | .twentyFive => 5

/-- Cells on a side of the grid, which is also the largest number in it. -/
def side (size : Size) : Nat := size.block * size.block

def ofSide? (count : Nat) : Option Size :=
  all.find? (·.side == count)

theorem side_of_ofSide? {count : Nat} {size : Size}
    (found : ofSide? count = some size) : size.side = count := by
  simpa using List.find?_some found

end Size

inductive BoardError where
  | badCell (line : Nat) (text : String)
  | unsupportedSize (count : Nat)
  | raggedRow (row cells side : Nat)
  | valueTooLarge (value side : Nat)
  deriving DecidableEq

def BoardError.message : BoardError → String
  | .badCell line text => s!"invalid sudoku: line {line}: bad cell `{text}`"
  | .unsupportedSize count => s!"invalid sudoku: unsupported size {count}"
  | .raggedRow row cells side =>
      s!"invalid sudoku: row {row} has {cells} cells, expected {side}"
  | .valueTooLarge value side =>
      s!"invalid sudoku: value {value} exceeds {side}"

def Size.ofSide (count : Nat) : Except BoardError Size :=
  match ofSide? count with
  | some size => .ok size
  | none => .error (.unsupportedSize count)

/-- A grid of numbers, not checked in any way. -/
structure Board where
  /-- The rows from top to bottom; zero is an empty cell. -/
  rows : List (List Nat)
  deriving DecidableEq, Inhabited

namespace Board

/-- The cell at a row and a column counted from zero, if there is one. -/
def get? (board : Board) (row column : Nat) : Option Nat :=
  match board.rows[row]? with
  | some cells => cells[column]?
  | none => none

def rowCells (board : Board) (side row : Nat) : List (Option Nat) :=
  (List.range side).map fun column => board.get? row column

def columnCells (board : Board) (side column : Nat) : List (Option Nat) :=
  (List.range side).map fun row => board.get? row column

/-- The cells of the square block whose first cell is given. -/
def blockCells (board : Board) (block row column : Nat) : List (Option Nat) :=
  (List.range' row block).flatMap fun row =>
    (List.range' column block).map fun column => board.get? row column

/-- Whether cells exist and hold every number up to `side` exactly once. -/
def isComplete (side : Nat) (cells : List (Option Nat)) : Bool :=
  match cells.mapM id with
  | some values => values.mergeSort == List.range' 1 side
  | none => false

def blockStarts (size : Size) : List Nat :=
  (List.range size.block).map (· * size.block)

/-- Whether the board is a filled grid of the size in which every row, column
and block holds each number exactly once. -/
def isSolved (board : Board) (size : Size) : Bool :=
  let side := size.side
  board.rows.length == side &&
    board.rows.all (·.length == side) &&
    (List.range side).all (fun row =>
      isComplete side (board.rowCells side row)) &&
    (List.range side).all (fun column =>
      isComplete side (board.columnCells side column)) &&
    (blockStarts size).all (fun row =>
      (blockStarts size).all fun column =>
        isComplete side (board.blockCells size.block row column))

/-- Whether every filled cell of `clues` has the same value here. -/
def respects (board clues : Board) : Bool :=
  clues.rows.zipIdx.all fun (cells, row) =>
    cells.zipIdx.all fun (value, column) =>
      value == 0 || board.get? row column == some value

end Board

end PropSat.Sudoku
