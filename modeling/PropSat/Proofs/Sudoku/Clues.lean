import PropSat.Proofs.Sudoku.AtomNames
import PropSat.Proofs.Sudoku.SolvedBoard

/-!
# The clues of a puzzle

The boards of puzzles are those that pass the checks of `Puzzle.ofBoard`.  A
clue is a filled cell of such a board.  What was checked puts the row, the
column and the number of every clue within range, so that each clue has an
atom.
-/

namespace PropSat.Sudoku

theorem Size.ofSide?_side (size : Size) : ofSide? size.side = some size := by
  cases size <;> rfl

namespace Board

theorem get?_eq_some_iff {board : Board} {row column value : Nat} :
    board.get? row column = some value ↔
      ∃ cells, board.rows[row]? = some cells ∧
        cells[column]? = some value := by
  cases found : board.rows[row]? with
  | none => simp [get?, found]
  | some cells => simp [get?, found]

theorem respects_iff {board clues : Board} :
    board.respects clues = true ↔
      ∀ row column value, clues.get? row column = some value →
        value ≠ 0 → board.get? row column = some value := by
  simp only [respects, List.all_eq_true, Prod.forall,
    List.mk_mem_zipIdx_iff_getElem?, Bool.or_eq_true, beq_iff_eq]
  constructor
  · intro every row column value clue filled
    obtain ⟨cells, inRows, inCells⟩ := get?_eq_some_iff.mp clue
    rcases every cells row inRows value column inCells with isEmpty | same
    · exact absurd isEmpty filled
    · exact same
  · intro respected cells row inRows value column inCells
    have clue := get?_eq_some_iff.mpr ⟨cells, inRows, inCells⟩
    by_cases filled : value = 0
    · exact .inl filled
    · exact .inr (respected row column value clue filled)

end Board

namespace Puzzle

variable {puzzle : Puzzle} {row column value : Nat}

theorem board_of_ofBoard {board : Board}
    (accepted : ofBoard board = .ok puzzle) : puzzle.board = board := by
  unfold ofBoard at accepted
  split at accepted
  · cases accepted
  · dsimp only at accepted
    split at accepted
    · cases accepted
    · split at accepted
      · cases accepted
      · cases accepted
        rfl

/-- Puzzles are the boards that pass the checks. -/
theorem ofBoard_eq_ok_iff {board : Board} :
    ofBoard board = .ok puzzle ↔ puzzle.board = board := by
  constructor
  · exact board_of_ofBoard
  · rintro rfl
    have sized : Size.ofSide? puzzle.board.rows.length = some puzzle.size := by
      rw [puzzle.length_rows, Size.ofSide?_side]
    unfold ofBoard
    split
    · next unsized =>
        rw [sized] at unsized
        cases unsized
    · next size found =>
        rw [sized] at found
        cases found
        dsimp only
        split
        · next ragged =>
            obtain ⟨inRows, differs, _⟩ :=
              List.findIdx?_eq_some_iff_getElem.mp ragged
            have width := puzzle.length_row _ (List.getElem_mem inRows)
            simp [width] at differs
        · split
          · next value large =>
              obtain ⟨row, isRow, inRow⟩ :=
                List.mem_flatten.mp (List.mem_of_find?_eq_some large)
              have fits := puzzle.value_le row isRow value inRow
              have exceeds := List.find?_some large
              simp at exceeds
              omega
          · rfl

def HasClue (puzzle : Puzzle) (row column value : Nat) : Prop :=
  puzzle.board.get? row column = some value ∧ value ≠ 0

theorem HasClue.mem_range (clue : puzzle.HasClue row column value) :
    row + 1 ∈ puzzle.range ∧ column + 1 ∈ puzzle.range ∧
      value ∈ puzzle.range := by
  obtain ⟨found, filled⟩ := clue
  obtain ⟨cells, inRows, inCells⟩ := Board.get?_eq_some_iff.mp found
  obtain ⟨rowBound, _⟩ := List.getElem?_eq_some_iff.mp inRows
  obtain ⟨columnBound, _⟩ := List.getElem?_eq_some_iff.mp inCells
  have isRow : cells ∈ puzzle.board.rows := List.mem_of_getElem? inRows
  have isValue : value ∈ cells := List.mem_of_getElem? inCells
  have height := puzzle.length_rows
  have width := puzzle.length_row cells isRow
  have fits := puzzle.value_le cells isRow value isValue
  simp only [mem_range_iff]
  omega

def Matches (puzzle : Puzzle) (grid : Nat × Nat → Nat) : Prop :=
  ∀ row column value, puzzle.HasClue row column value →
    grid (row + 1, column + 1) = value

/-- The board of a grid respects the clues that the grid matches. -/
theorem respects_ofGrid_iff {grid : Nat × Nat → Nat} :
    (Board.ofGrid puzzle.size grid).respects puzzle.board = true ↔
      puzzle.Matches grid := by
  have sameCell {row column value : Nat}
      (clue : puzzle.HasClue row column value) :
      (Board.ofGrid puzzle.size grid).get? row column =
        some (grid (row + 1, column + 1)) := by
    obtain ⟨inRows, inColumns, _⟩ := clue.mem_range
    rw [mem_range_iff] at inRows inColumns
    exact Board.get?_ofGrid (by omega) (by omega)
  rw [Board.respects_iff]
  constructor
  · intro respected row column value clue
    have found := respected row column value clue.1 clue.2
    rw [sameCell clue] at found
    exact Option.some.inj found
  · intro holds row column value found filled
    rw [sameCell ⟨found, filled⟩, holds row column value ⟨found, filled⟩]

theorem mem_clueAtoms_iff {formula : Formula} :
    formula ∈ puzzle.clueAtoms ↔
      ∃ row column value, puzzle.HasClue row column value ∧
        variableAtom (row + 1) (column + 1) value = formula := by
  simp only [clueAtoms, List.mem_flatMap, List.mem_filterMap, Prod.exists,
    List.mk_mem_zipIdx_iff_getElem?]
  constructor
  · rintro ⟨cells, row, inRows, value, column, inCells, atom⟩
    by_cases filled : value = 0
    · rw [if_pos filled] at atom
      cases atom
    · rw [if_neg filled] at atom
      exact ⟨row, column, value,
        ⟨Board.get?_eq_some_iff.mpr ⟨cells, inRows, inCells⟩, filled⟩,
        Option.some.inj atom⟩
  · rintro ⟨row, column, value, ⟨found, filled⟩, same⟩
    obtain ⟨cells, inRows, inCells⟩ := Board.get?_eq_some_iff.mp found
    refine ⟨cells, row, inRows, value, column, inCells, ?_⟩
    rw [if_neg filled, same]

end Puzzle

end PropSat.Sudoku
