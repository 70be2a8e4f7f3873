import PropSat.Sudoku.Board

/-!
# Built-in puzzles
-/

namespace PropSat.Sudoku

/-- The puzzles that come with the program.  The small one has two solutions,
the next one is solved by propagation alone, and the last one needs case
analysis. -/
inductive Example where
  | four
  | nine
  | hardest
  deriving DecidableEq, Inhabited

namespace Example

def all : List Example := [.four, .nine, .hardest]

def name : Example → String
  | .four => "four"
  | .nine => "nine"
  | .hardest => "hardest"

def title : Example → String
  | .four => "Four"
  | .nine => "Nine"
  | .hardest => "Hardest"

def board : Example → Board
  | .four => ⟨[
      [1, 0, 0, 4],
      [0, 4, 1, 0],
      [0, 1, 4, 0],
      [4, 0, 0, 1]]⟩
  | .nine => ⟨[
      [5, 3, 0, 0, 7, 0, 0, 0, 0],
      [6, 0, 0, 1, 9, 5, 0, 0, 0],
      [0, 9, 8, 0, 0, 0, 0, 6, 0],
      [8, 0, 0, 0, 6, 0, 0, 0, 3],
      [4, 0, 0, 8, 0, 3, 0, 0, 1],
      [7, 0, 0, 0, 2, 0, 0, 0, 6],
      [0, 6, 0, 0, 0, 0, 2, 8, 0],
      [0, 0, 0, 4, 1, 9, 0, 0, 5],
      [0, 0, 0, 0, 8, 0, 0, 7, 9]]⟩
  | .hardest => ⟨[
      [8, 0, 0, 0, 0, 0, 0, 0, 0],
      [0, 0, 3, 6, 0, 0, 0, 0, 0],
      [0, 7, 0, 0, 9, 0, 2, 0, 0],
      [0, 5, 0, 0, 0, 7, 0, 0, 0],
      [0, 0, 0, 0, 4, 5, 7, 0, 0],
      [0, 0, 0, 1, 0, 0, 0, 3, 0],
      [0, 0, 1, 0, 0, 0, 0, 6, 8],
      [0, 0, 8, 5, 0, 0, 0, 1, 0],
      [0, 9, 0, 0, 0, 0, 4, 0, 0]]⟩

end Example

end PropSat.Sudoku
