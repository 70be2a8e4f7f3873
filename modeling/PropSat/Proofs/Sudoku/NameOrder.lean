import Mathlib.Data.List.Lex
import PropSat.Proofs.Sudoku.AtomNames
import PropSat.VariableOrder

/-!
# The order of puzzle names

The names of a puzzle are listed by row, then by column, then by number.  As
long as all of these have one digit, texts compare in the same way, so that
sorting the names changes nothing.
-/

namespace PropSat.Sudoku

section OneDigit

variable {row column number otherRow otherColumn otherNumber : Nat}

theorem digitChar_lt {first second : Nat} (less : first < second)
    (oneDigit : second < 10) : first.digitChar < second.digitChar := by
  have compared : ∀ second : Fin 10, ∀ first : Fin second,
      first.val.digitChar < second.val.digitChar := by decide
  exact compared ⟨second, oneDigit⟩ ⟨first, less⟩

theorem repr_append_lt {first second : Nat} (less : first < second)
    (oneDigit : second < 10) (back otherBack : List Char) :
    first.repr.toList ++ back < second.repr.toList ++ otherBack := by
  rw [Nat.toList_repr, Nat.toList_repr,
    Nat.toDigits_of_lt_base (less.trans oneDigit),
    Nat.toDigits_of_lt_base oneDigit]
  exact List.Lex.rel (digitChar_lt less oneDigit)

theorem variableName_lt_of_row (less : row < otherRow)
    (oneDigit : otherRow < 10) :
    variableName row column number <
      variableName otherRow otherColumn otherNumber := by
  rw [String.lt_iff, toList_variableName, toList_variableName]
  exact repr_append_lt less oneDigit _ _

theorem variableName_lt_of_column (less : column < otherColumn)
    (oneDigit : otherColumn < 10) :
    variableName row column number <
      variableName row otherColumn otherNumber := by
  rw [String.lt_iff, toList_variableName, toList_variableName]
  exact .append_left _ (.cons (repr_append_lt less oneDigit _ _)) _

theorem variableName_lt_of_number (less : number < otherNumber)
    (oneDigit : otherNumber < 10) :
    variableName row column number < variableName row column otherNumber := by
  rw [String.lt_iff, toList_variableName, toList_variableName]
  have later := repr_append_lt less oneDigit [] []
  rw [List.append_nil, List.append_nil] at later
  exact .append_left _ (.cons (.append_left _ (.cons later) _)) _

end OneDigit

namespace Puzzle

variable {puzzle : Puzzle}

theorem pairwise_lt_range (puzzle : Puzzle) :
    puzzle.range.Pairwise (· < ·) :=
  List.pairwise_lt_range' 1

theorem pairwise_lt_names (oneDigit : puzzle.size.side < 10) :
    puzzle.names.Pairwise (· < ·) := by
  have isDigit : ∀ number ∈ puzzle.range, number < 10 := by
    intro number member
    have inRange := mem_range_iff.mp member
    omega
  have increasing := pairwise_lt_range puzzle
  rw [names, List.pairwise_flatMap]
  constructor
  · intro row _
    rw [List.pairwise_flatMap]
    constructor
    · intro column _
      rw [List.pairwise_map]
      refine increasing.imp_of_mem ?_
      intro number otherNumber _ member less
      exact variableName_lt_of_number less (isDigit otherNumber member)
    · refine increasing.imp_of_mem ?_
      intro column otherColumn _ member less name inCell otherName inOtherCell
      obtain ⟨number, _, rfl⟩ := List.mem_map.mp inCell
      obtain ⟨otherNumber, _, rfl⟩ := List.mem_map.mp inOtherCell
      exact variableName_lt_of_column less (isDigit otherColumn member)
  · refine increasing.imp_of_mem ?_
    intro row otherRow _ member less name inRow otherName inOtherRow
    obtain ⟨column, _, inCell⟩ := List.mem_flatMap.mp inRow
    obtain ⟨number, _, rfl⟩ := List.mem_map.mp inCell
    obtain ⟨otherColumn, _, inOtherCell⟩ := List.mem_flatMap.mp inOtherRow
    obtain ⟨otherNumber, _, rfl⟩ := List.mem_map.mp inOtherCell
    exact variableName_lt_of_row less (isDigit otherRow member)

/-- Sorting leaves the names of a puzzle with one-digit numbers as they
are. -/
theorem sorted_names (oneDigit : puzzle.size.side < 10) :
    Names.sorted puzzle.names = puzzle.names := by
  refine List.mergeSort_of_pairwise ?_
  refine (pairwise_lt_names oneDigit).imp ?_
  intro name otherName less
  exact decide_eq_true (String.not_lt.mp (String.lt_asymm less))

/-- Names in the order given, and sorted names with one-digit numbers, stay by
row, column and number. -/
theorem arrange_names {order : VariableOrder}
    (byRow : order = .given ∨
      order = .sorted ∧ (puzzle.size = .four ∨ puzzle.size = .nine)) :
    order.arrange puzzle.names = puzzle.names := by
  rcases byRow with rfl | ⟨rfl, size⟩
  · rfl
  · apply sorted_names
    rcases size with isSize | isSize <;> rw [isSize] <;> decide

end Puzzle

end PropSat.Sudoku
