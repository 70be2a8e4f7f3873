import Mathlib.Data.Set.Function
import PropSat.Proofs.Sudoku.Encoding
import PropSat.Sudoku.Examples

/-!
# The models of a puzzle are its completions

The models of the formula of a puzzle are the valuations that describe a
solution with all clues, and the completions are the boards of these
solutions.  Decoding a model and marking the numbers of a completion go back
and forth between the two.
-/

namespace PropSat.Sudoku

namespace Puzzle

variable {puzzle : Puzzle} {model : Valuation} {board : Board}

/-- The valuation assigns every atom of the puzzle, and the formula is true. -/
def IsModel (puzzle : Puzzle) (model : Valuation) : Prop :=
  model.isTotalOver puzzle.names = true ∧
    puzzle.toFormula.evaluate model = .ok true

def IsCompletion (puzzle : Puzzle) (board : Board) : Prop :=
  board.isSolved puzzle.size = true ∧ board.respects puzzle.board = true

/-- The atom of a place and a number is true exactly when the board, whose
rows and columns count from zero, holds the number there. -/
def Marks (puzzle : Puzzle) (model : Valuation) (board : Board) : Prop :=
  ∀ row ∈ puzzle.range, ∀ column ∈ puzzle.range, ∀ number ∈ puzzle.range,
    model.get? (variableName row column number) =
      some (decide (board.get? (row - 1) (column - 1) = some number))

/-- The truth values of the atoms of a puzzle for the numbers of a board. -/
def markings (puzzle : Puzzle) (board : Board) : List (String × Bool) :=
  puzzle.range.flatMap fun row =>
    puzzle.range.flatMap fun column =>
      puzzle.range.map fun number =>
        (variableName row column number,
          decide (board.get? (row - 1) (column - 1) = some number))

/-- The valuation that marks a board and assigns nothing else. -/
def mark (puzzle : Puzzle) (board : Board) : Valuation :=
  .ofList (puzzle.markings board)

theorem mem_markings_iff {name : String} {value : Bool} :
    (name, value) ∈ puzzle.markings board ↔
      ∃ row ∈ puzzle.range, ∃ column ∈ puzzle.range,
        ∃ number ∈ puzzle.range, variableName row column number = name ∧
          decide (board.get? (row - 1) (column - 1) = some number) =
            value := by
  simp only [markings, List.mem_flatMap, List.mem_map, Prod.mk.injEq]

theorem marks_mark (puzzle : Puzzle) (board : Board) :
    puzzle.Marks (puzzle.mark board) board := by
  intro row inRows column inColumns number inRange
  refine Valuation.get?_extend_of_agree ?_ (.inl ?_)
  · intro value member
    obtain ⟨otherRow, _, otherColumn, _, otherNumber, _, same, rfl⟩ :=
      mem_markings_iff.mp member
    obtain ⟨rfl, rfl, rfl⟩ := variableName_inj same
    rfl
  · exact mem_markings_iff.mpr
      ⟨row, inRows, column, inColumns, number, inRange, rfl, rfl⟩

theorem contains_mark_iff {name : String} :
    (puzzle.mark board).contains name = true ↔ name ∈ puzzle.names := by
  have nothing : Valuation.empty.contains name = false := by
    rw [Valuation.contains_eq_false_iff, Valuation.get?_empty]
  rw [mark, Valuation.ofList, Valuation.contains_extend_iff, nothing,
    mem_names_iff]
  constructor
  · rintro (⟨value, member⟩ | assigned)
    · obtain ⟨row, inRows, column, inColumns, number, inRange, same, _⟩ :=
        mem_markings_iff.mp member
      exact ⟨row, inRows, column, inColumns, number, inRange, same⟩
    · cases assigned
  · rintro ⟨row, inRows, column, inColumns, number, inRange, same⟩
    exact .inl ⟨_, mem_markings_iff.mpr
      ⟨row, inRows, column, inColumns, number, inRange, same, rfl⟩⟩

/-- On the board of a grid, marking the board is describing the grid. -/
theorem marks_ofGrid_iff {grid : Nat × Nat → Nat} :
    puzzle.Marks model (Board.ofGrid puzzle.size grid) ↔
      puzzle.Describes model grid := by
  refine forall_congr' fun row => forall_congr' fun inRows => ?_
  refine forall_congr' fun column => forall_congr' fun inColumns => ?_
  refine forall_congr' fun number => forall_congr' fun _ => ?_
  rw [mem_range_iff] at inRows inColumns
  rw [Board.get?_ofGrid (by omega) (by omega), Nat.sub_add_cancel inRows.1,
    Nat.sub_add_cancel inColumns.1]
  have comparison : decide (some (grid (row, column)) = some number) =
      decide (number = grid (row, column)) := by
    rw [decide_eq_decide, Option.some.injEq, eq_comm]
  rw [comparison]

theorem Marks.isTotalOver (marks : puzzle.Marks model board) :
    model.isTotalOver puzzle.names = true := by
  rw [Valuation.isTotalOver_iff]
  intro name member
  obtain ⟨row, inRows, column, inColumns, number, inRange, rfl⟩ :=
    mem_names_iff.mp member
  exact Valuation.contains_iff_exists.mpr
    ⟨_, marks row inRows column inColumns number inRange⟩

theorem Marks.agree {other : Valuation} (marks : puzzle.Marks model board)
    (otherMarks : puzzle.Marks other board) :
    ∀ name ∈ puzzle.names, model.get? name = other.get? name := by
  intro name member
  obtain ⟨row, inRows, column, inColumns, number, inRange, rfl⟩ :=
    mem_names_iff.mp member
  rw [marks row inRows column inColumns number inRange,
    otherMarks row inRows column inColumns number inRange]

theorem isTotalOver_vars (total : model.isTotalOver puzzle.names = true) :
    model.isTotalOver puzzle.toFormula.vars.toList = true := by
  rw [Valuation.isTotalOver_iff] at total ⊢
  intro name member
  exact total name (mem_names_of_mem_atoms (Formula.mem_vars_iff.mp member))

/-- A model marks the board that it is decoded to, which is a completion. -/
theorem IsModel.marks_decode (isModel : puzzle.IsModel model) :
    puzzle.IsCompletion (puzzle.decode model) ∧
      puzzle.Marks model (puzzle.decode model) := by
  have isTrue := Formula.kleene?_of_evaluate puzzle.toFormula isModel.2
  obtain ⟨grid, describes, solution, holds⟩ := kleene?_toFormula_iff.mp isTrue
  rw [describes.decode_eq solution]
  exact ⟨⟨Board.isSolved_ofGrid_iff.mpr solution,
    respects_ofGrid_iff.mpr holds⟩, marks_ofGrid_iff.mpr describes⟩

/-- Whatever marks a completion is a model that is decoded to it. -/
theorem IsCompletion.isModel (completion : puzzle.IsCompletion board)
    (marks : puzzle.Marks model board) :
    puzzle.IsModel model ∧ puzzle.decode model = board := by
  obtain ⟨solved, respected⟩ := completion
  obtain ⟨same, solution⟩ := Board.exists_solution_of_isSolved solved
  have holds : puzzle.Matches board.grid := by
    rw [← respects_ofGrid_iff, same]
    exact respected
  have describes : puzzle.Describes model board.grid := by
    rw [← marks_ofGrid_iff, same]
    exact marks
  have total := marks.isTotalOver
  have isTrue := kleene?_toFormula_iff.mpr
    ⟨board.grid, describes, solution, holds⟩
  refine ⟨⟨total, ?_⟩, ?_⟩
  · exact (Formula.evaluate_eq_ok_iff_of_total
      (isTotalOver_vars total)).mpr isTrue
  · rw [describes.decode_eq solution, same]

/-- The models that assign no other names. -/
def models (puzzle : Puzzle) : Set Valuation :=
  {model | (∀ name, model.contains name = true ↔ name ∈ puzzle.names) ∧
    puzzle.toFormula.evaluate model = .ok true}

def completions (puzzle : Puzzle) : Set Board :=
  {board | puzzle.IsCompletion board}

theorem IsModel.agree {other : Valuation} (isModel : puzzle.IsModel model)
    (otherIsModel : puzzle.IsModel other)
    (same : puzzle.decode model = puzzle.decode other) :
    ∀ name ∈ puzzle.names, model.get? name = other.get? name := by
  have marks := isModel.marks_decode.2
  rw [same] at marks
  exact marks.agree otherIsModel.marks_decode.2

theorem isModel_of_mem_models (member : model ∈ puzzle.models) :
    puzzle.IsModel model := by
  obtain ⟨assigned, isTrue⟩ := member
  refine ⟨?_, isTrue⟩
  rw [Valuation.isTotalOver_iff]
  intro name inNames
  exact (assigned name).mpr inNames

theorem mapsTo_decode :
    Set.MapsTo puzzle.decode puzzle.models puzzle.completions := by
  intro model member
  exact (isModel_of_mem_models member).marks_decode.1

theorem injOn_decode : Set.InjOn puzzle.decode puzzle.models := by
  intro model member other otherMember same
  have agree := (isModel_of_mem_models member).agree
    (isModel_of_mem_models otherMember) same
  ext1 name
  by_cases inNames : name ∈ puzzle.names
  · exact agree name inNames
  · have unassigned {valuation : Valuation}
        (isModel : valuation ∈ puzzle.models) :
        valuation.get? name = none := by
      rw [← Valuation.contains_eq_false_iff, ← Bool.not_eq_true,
        isModel.1 name]
      exact inNames
    rw [unassigned member, unassigned otherMember]

theorem surjOn_decode :
    Set.SurjOn puzzle.decode puzzle.models puzzle.completions := by
  intro board completion
  obtain ⟨isModel, same⟩ :=
    IsCompletion.isModel completion (marks_mark puzzle board)
  refine ⟨puzzle.mark board, ⟨?_, isModel.2⟩, same⟩
  intro name
  exact contains_mark_iff

/-- Every model is decoded to a completion, no two models that differ on an
atom to the same one, and whatever marks a completion is a model that is
decoded to it.  So decoding is a bijection from the models that assign no other
names to the completions. -/
theorem formula_exact (puzzle : Puzzle) :
    (∀ model, puzzle.IsModel model →
      puzzle.IsCompletion (puzzle.decode model)) ∧
    (∀ model other, puzzle.IsModel model → puzzle.IsModel other →
      puzzle.decode model = puzzle.decode other →
      ∀ name ∈ puzzle.names, model.get? name = other.get? name) ∧
    (∀ board, puzzle.IsCompletion board →
      puzzle.Marks (puzzle.mark board) board ∧
        ∀ model, puzzle.Marks model board →
          puzzle.IsModel model ∧ puzzle.decode model = board) ∧
    Set.BijOn puzzle.decode puzzle.models puzzle.completions := by
  refine ⟨?_, ?_, ?_, mapsTo_decode, injOn_decode, surjOn_decode⟩
  · intro model isModel
    exact isModel.marks_decode.1
  · intro model other isModel otherIsModel same
    exact isModel.agree otherIsModel same
  · intro board completion
    refine ⟨marks_mark puzzle board, ?_⟩
    intro model marks
    exact completion.isModel marks

example : ∃ puzzle, ofBoard Example.four.board = .ok puzzle ∧
    puzzle.IsCompletion
      ⟨[[1, 2, 3, 4], [3, 4, 1, 2], [2, 1, 4, 3], [4, 3, 2, 1]]⟩ ∧
    puzzle.IsCompletion
      ⟨[[1, 3, 2, 4], [2, 4, 1, 3], [3, 1, 4, 2], [4, 2, 3, 1]]⟩ := by
  refine ⟨⟨Example.four.board, .four, rfl, by decide, by decide⟩,
    ofBoard_eq_ok_iff.mpr rfl, ⟨?_, by decide⟩, ?_, by decide⟩
  · cbv
  · cbv

end Puzzle

end PropSat.Sudoku
