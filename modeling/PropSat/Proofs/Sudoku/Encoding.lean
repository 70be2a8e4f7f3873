import PropSat.Proofs.ExactlyOne
import PropSat.Proofs.Sudoku.Clues

/-!
# The formula of a puzzle describes a grid

A valuation describes a grid when the atoms of every cell say which number the
cell holds.  The constraints on the cells make a valuation describe some grid;
under that reading the constraints on rows, columns and blocks say that the
grid is a solution, and the clues that it has their numbers.  Decoding gives
back the grid that is described.
-/

namespace PropSat.Sudoku

namespace Puzzle

variable {puzzle : Puzzle} {valuation : Valuation}
  {grid : Nat × Nat → Nat}

/-- Of the atoms of a cell, the one for its number is true and all others are
false. -/
def Describes (puzzle : Puzzle) (valuation : Valuation)
    (grid : Nat × Nat → Nat) : Prop :=
  ∀ row ∈ puzzle.range, ∀ column ∈ puzzle.range, ∀ number ∈ puzzle.range,
    valuation.get? (variableName row column number) =
      some (decide (number = grid (row, column)))

theorem range_eq_numbers : puzzle.range = puzzle.size.numbers := rfl

theorem kleene?_variableAtom (row column number : Nat) :
    (variableAtom row column number).kleene? valuation =
      valuation.get? (variableName row column number) := by
  rw [variableAtom, Formula.kleene?]

theorem foldl_eq_of_unique {numbers : List Nat} {chosen start : Nat}
    {holds : Nat → Prop} [DecidablePred holds]
    (only : ∀ number ∈ numbers, holds number ↔ number = chosen)
    (found : start = chosen ∨ chosen ∈ numbers) :
    numbers.foldl (fun value number =>
      if holds number then number else value) start = chosen := by
  induction numbers generalizing start with
  | nil =>
      rcases found with atStart | later
      · exact atStart
      · cases later
  | cons first rest induction =>
      obtain ⟨here, inRest⟩ := List.forall_mem_cons.mp only
      rw [List.foldl_cons]
      refine induction inRest ?_
      by_cases isChosen : first = chosen
      · left
        rw [if_pos (here.mpr isChosen), isChosen]
      · rw [if_neg fun holdsFirst => isChosen (here.mp holdsFirst)]
        rcases found with atStart | later
        · exact .inl atStart
        · rcases List.mem_cons.mp later with same | inTail
          · exact absurd same.symm isChosen
          · exact .inr inTail

theorem decodeCell_eq {row column chosen : Nat} (inRange : chosen ∈ puzzle.range)
    (values : ∀ number ∈ puzzle.range,
      valuation.get? (variableName row column number) =
        some (decide (number = chosen))) :
    puzzle.decodeCell valuation row column = chosen := by
  refine foldl_eq_of_unique ?_ (.inr inRange)
  intro number member
  rw [values number member, Option.some.injEq, decide_eq_true_eq]

/-- The board that is decoded is that of the grid described. -/
theorem Describes.decode_eq (describes : puzzle.Describes valuation grid)
    (solution : IsSolution puzzle.size grid) :
    puzzle.decode valuation = Board.ofGrid puzzle.size grid := by
  rw [decode, Board.ofGrid, range_eq_numbers]
  congr 1
  refine List.map_congr_left ?_
  intro row inRows
  refine List.map_congr_left ?_
  intro column inColumns
  exact decodeCell_eq (solution.mem_numbers inRows inColumns)
    (describes row inRows column inColumns)

theorem kleene?_exactlyOneEach_iff {group : Nat → Nat → List Formula} :
    (puzzle.exactlyOneEach group).kleene? valuation = some true ↔
      ∀ first ∈ puzzle.range, ∀ second ∈ puzzle.range,
        (Cardinality.exactlyOne (group first second)).kleene? valuation =
          some true := by
  rw [exactlyOneEach, Formula.kleene?_conj_eq_some_true_iff]
  simp only [List.forall_mem_flatMap, List.forall_mem_map]

/-- The constraints on the cells say that some grid is described. -/
theorem kleene?_cells_iff :
    (puzzle.exactlyOneEach puzzle.cellGroup).kleene? valuation = some true ↔
      ∃ grid, puzzle.Describes valuation grid ∧
        ∀ row ∈ puzzle.range, ∀ column ∈ puzzle.range,
          grid (row, column) ∈ puzzle.range := by
  rw [kleene?_exactlyOneEach_iff]
  have chooses (row column : Nat) :
      (Cardinality.exactlyOne (puzzle.cellGroup row column)).kleene?
          valuation = some true ↔
        ∃ chosen ∈ puzzle.range, ∀ number ∈ puzzle.range,
          valuation.get? (variableName row column number) =
            some (decide (number = chosen)) :=
    Cardinality.kleene?_exactlyOne_map_iff puzzle.size.nodup_numbers _
  constructor
  · intro cells
    have decoded : ∀ row ∈ puzzle.range, ∀ column ∈ puzzle.range,
        puzzle.decodeCell valuation row column ∈ puzzle.range ∧
          ∀ number ∈ puzzle.range,
            valuation.get? (variableName row column number) =
              some (decide
                (number = puzzle.decodeCell valuation row column)) := by
      intro row inRows column inColumns
      obtain ⟨chosen, inRange, values⟩ :=
        (chooses row column).mp (cells row inRows column inColumns)
      rw [decodeCell_eq inRange values]
      exact ⟨inRange, values⟩
    refine ⟨fun cell => puzzle.decodeCell valuation cell.1 cell.2, ?_, ?_⟩
    · intro row inRows column inColumns
      exact (decoded row inRows column inColumns).2
    · intro row inRows column inColumns
      exact (decoded row inRows column inColumns).1
  · rintro ⟨grid, describes, inRange⟩ row inRows column inColumns
    exact (chooses row column).mpr ⟨grid (row, column),
      inRange row inRows column inColumns,
      describes row inRows column inColumns⟩

/-- The atoms of a number at the cells of a unit. -/
def unitGroup (cells : List (Nat × Nat)) (number : Nat) : List Formula :=
  cells.map fun cell => variableAtom cell.1 cell.2 number

/-- The constraint on a number in a unit, for a grid that is described. -/
theorem Describes.kleene?_unit_iff (describes : puzzle.Describes valuation grid)
    {cells : List (Nat × Nat)} (isUnit : puzzle.size.HasUnit cells)
    {number : Nat} (inRange : number ∈ puzzle.range) :
    (Cardinality.exactlyOne (unitGroup cells number)).kleene? valuation =
        some true ↔
      ∃ chosen ∈ cells, ∀ cell ∈ cells,
        grid cell = number ↔ cell = chosen := by
  rw [unitGroup, Cardinality.kleene?_exactlyOne_map_iff isUnit.nodup]
  refine exists_congr fun chosen => and_congr_right fun _ => ?_
  refine forall_congr' fun cell => forall_congr' fun inCells => ?_
  obtain ⟨inRows, inColumns⟩ := isUnit.mem_numbers inCells
  rw [kleene?_variableAtom, describes cell.1 inRows cell.2 inColumns number
    inRange, Option.some.injEq, decide_eq_decide, eq_comm (a := number)]

theorem rowGroup_eq (row number : Nat) :
    puzzle.rowGroup row number =
      unitGroup (puzzle.size.rowUnit row) number := by
  rw [unitGroup, Size.rowUnit, List.map_map]
  rfl

theorem columnGroup_eq (column number : Nat) :
    puzzle.columnGroup column number =
      unitGroup (puzzle.size.columnUnit column) number := by
  rw [unitGroup, Size.columnUnit, List.map_map]
  rfl

theorem blockGroup_eq (row column number : Nat) :
    puzzle.blockGroup row column number =
      unitGroup (puzzle.size.blockUnit row column) number := by
  rw [unitGroup, Size.blockUnit, List.map_flatMap, blockGroup]
  simp only [List.map_map]
  rfl

theorem kleene?_blockConstraints_iff :
    puzzle.blockConstraints.kleene? valuation = some true ↔
      ∀ row ∈ Board.blockStarts puzzle.size,
        ∀ column ∈ Board.blockStarts puzzle.size, ∀ number ∈ puzzle.range,
          (Cardinality.exactlyOne
            (puzzle.blockGroup (row + 1) (column + 1) number)).kleene?
              valuation = some true := by
  rw [blockConstraints, Formula.kleene?_conj_eq_some_true_iff]
  simp only [blockStarts, List.forall_mem_flatMap, List.forall_mem_map]

/-- The constraints on rows, columns and blocks are those of all units. -/
theorem kleene?_units_iff :
    ((puzzle.exactlyOneEach puzzle.rowGroup).kleene? valuation = some true ∧
      (puzzle.exactlyOneEach puzzle.columnGroup).kleene? valuation =
        some true ∧
      puzzle.blockConstraints.kleene? valuation = some true) ↔
    ∀ cells, puzzle.size.HasUnit cells → ∀ number ∈ puzzle.range,
      (Cardinality.exactlyOne (unitGroup cells number)).kleene? valuation =
        some true := by
  rw [kleene?_exactlyOneEach_iff, kleene?_exactlyOneEach_iff,
    kleene?_blockConstraints_iff]
  simp only [rowGroup_eq, columnGroup_eq, blockGroup_eq]
  constructor
  · rintro ⟨rows, columns, blocks⟩ cells isUnit number inRange
    cases isUnit with
    | row inGrid => exact rows _ inGrid number inRange
    | column inGrid => exact columns _ inGrid number inRange
    | block rowStart columnStart =>
        exact blocks _ rowStart _ columnStart number inRange
  · intro units
    refine ⟨?_, ?_, ?_⟩
    · intro row inGrid number inRange
      exact units _ (.row inGrid) number inRange
    · intro column inGrid number inRange
      exact units _ (.column inGrid) number inRange
    · intro row rowStart column columnStart number inRange
      exact units _ (.block rowStart columnStart) number inRange

/-- A described grid satisfies the constraints on rows, columns and blocks
exactly when it is a solution. -/
theorem Describes.isSolution_iff
    (describes : puzzle.Describes valuation grid) :
    ((puzzle.exactlyOneEach puzzle.rowGroup).kleene? valuation = some true ∧
      (puzzle.exactlyOneEach puzzle.columnGroup).kleene? valuation =
        some true ∧
      puzzle.blockConstraints.kleene? valuation = some true) ↔
    IsSolution puzzle.size grid := by
  rw [kleene?_units_iff]
  refine forall_congr' fun cells => forall_congr' fun isUnit => ?_
  refine forall_congr' fun number => forall_congr' fun inRange => ?_
  exact describes.kleene?_unit_iff isUnit inRange

theorem Describes.matches_iff
    (describes : puzzle.Describes valuation grid) :
    (Formula.conj puzzle.clueAtoms).kleene? valuation = some true ↔
      puzzle.Matches grid := by
  have atomTrue {row column value : Nat}
      (clue : puzzle.HasClue row column value) :
      (variableAtom (row + 1) (column + 1) value).kleene? valuation =
          some true ↔ grid (row + 1, column + 1) = value := by
    obtain ⟨inRows, inColumns, inRange⟩ := clue.mem_range
    rw [kleene?_variableAtom, describes _ inRows _ inColumns _ inRange,
      Option.some.injEq, decide_eq_true_eq, eq_comm]
  rw [Formula.kleene?_conj_eq_some_true_iff]
  constructor
  · intro clueTrue row column value clue
    exact (atomTrue clue).mp
      (clueTrue _ (mem_clueAtoms_iff.mpr ⟨row, column, value, clue, rfl⟩))
  · intro holds formula member
    obtain ⟨row, column, value, clue, rfl⟩ := mem_clueAtoms_iff.mp member
    exact (atomTrue clue).mpr (holds row column value clue)

/-- The formula is true exactly of the valuations that describe a solution
which matches the clues. -/
theorem kleene?_toFormula_iff :
    puzzle.toFormula.kleene? valuation = some true ↔
      ∃ grid, puzzle.Describes valuation grid ∧
        IsSolution puzzle.size grid ∧ puzzle.Matches grid := by
  rw [toFormula, Formula.kleene?_conj_eq_some_true_iff, constraints,
    List.forall_mem_cons, List.forall_mem_cons, List.forall_mem_cons,
    List.forall_mem_cons, List.forall_mem_singleton]
  constructor
  · rintro ⟨cells, rows, columns, blocks, clues⟩
    obtain ⟨grid, describes, _⟩ := kleene?_cells_iff.mp cells
    exact ⟨grid, describes,
      describes.isSolution_iff.mp ⟨rows, columns, blocks⟩,
      describes.matches_iff.mp clues⟩
  · rintro ⟨grid, describes, solution, holds⟩
    have cells := kleene?_cells_iff.mpr ⟨grid, describes, by
      intro row inRows column inColumns
      exact solution.mem_numbers inRows inColumns⟩
    obtain ⟨rows, columns, blocks⟩ := describes.isSolution_iff.mpr solution
    exact ⟨cells, rows, columns, blocks, describes.matches_iff.mpr holds⟩

section Atoms

variable {name : String}

theorem mem_names_of_atom {row column number : Nat}
    (inRows : row ∈ puzzle.range) (inColumns : column ∈ puzzle.range)
    (inRange : number ∈ puzzle.range)
    (occurs : name ∈ (variableAtom row column number).atoms) :
    name ∈ puzzle.names := by
  rw [variableAtom, Formula.atoms, List.mem_singleton] at occurs
  exact mem_names_iff.mpr
    ⟨row, inRows, column, inColumns, number, inRange, occurs.symm⟩

theorem mem_names_of_unit {cells : List (Nat × Nat)} {number : Nat}
    (isUnit : puzzle.size.HasUnit cells) (inRange : number ∈ puzzle.range)
    (occurs : name ∈
      (Cardinality.exactlyOne (unitGroup cells number)).atoms) :
    name ∈ puzzle.names := by
  obtain ⟨_, inGroup, occurs⟩ := Cardinality.mem_atoms_exactlyOne_iff.mp occurs
  obtain ⟨cell, inCells, rfl⟩ := List.mem_map.mp inGroup
  obtain ⟨inRows, inColumns⟩ := isUnit.mem_numbers inCells
  exact mem_names_of_atom inRows inColumns inRange occurs

theorem mem_atoms_exactlyOneEach_iff {group : Nat → Nat → List Formula} :
    name ∈ (puzzle.exactlyOneEach group).atoms ↔
      ∃ first ∈ puzzle.range, ∃ second ∈ puzzle.range,
        name ∈ (Cardinality.exactlyOne (group first second)).atoms := by
  rw [exactlyOneEach, Formula.mem_atoms_conj_iff]
  simp only [List.mem_flatMap, List.mem_map]
  constructor
  · rintro ⟨_, ⟨first, inFirst, second, inSecond, rfl⟩, occurs⟩
    exact ⟨first, inFirst, second, inSecond, occurs⟩
  · rintro ⟨first, inFirst, second, inSecond, occurs⟩
    exact ⟨_, ⟨first, inFirst, second, inSecond, rfl⟩, occurs⟩

theorem mem_names_of_mem_atoms (occurs : name ∈ puzzle.toFormula.atoms) :
    name ∈ puzzle.names := by
  obtain ⟨constraint, member, occurs⟩ := Formula.mem_atoms_conj_iff.mp occurs
  simp only [constraints, List.mem_cons, List.not_mem_nil, or_false] at member
  rcases member with rfl | rfl | rfl | rfl | rfl
  · obtain ⟨row, inRows, column, inColumns, occurs⟩ :=
      mem_atoms_exactlyOneEach_iff.mp occurs
    obtain ⟨_, inGroup, occurs⟩ :=
      Cardinality.mem_atoms_exactlyOne_iff.mp occurs
    obtain ⟨number, inRange, rfl⟩ := List.mem_map.mp inGroup
    exact mem_names_of_atom inRows inColumns inRange occurs
  · obtain ⟨row, inRows, number, inRange, occurs⟩ :=
      mem_atoms_exactlyOneEach_iff.mp occurs
    rw [rowGroup_eq] at occurs
    exact mem_names_of_unit (.row inRows) inRange occurs
  · obtain ⟨column, inColumns, number, inRange, occurs⟩ :=
      mem_atoms_exactlyOneEach_iff.mp occurs
    rw [columnGroup_eq] at occurs
    exact mem_names_of_unit (.column inColumns) inRange occurs
  · obtain ⟨_, isBlock, occurs⟩ := Formula.mem_atoms_conj_iff.mp occurs
    simp only [blockStarts, List.mem_flatMap, List.mem_map] at isBlock
    obtain ⟨_, ⟨row, rowStart, rfl⟩, _, ⟨column, columnStart, rfl⟩, number,
      inRange, rfl⟩ := isBlock
    rw [blockGroup_eq] at occurs
    exact mem_names_of_unit (.block rowStart columnStart) inRange occurs
  · obtain ⟨_, isClue, occurs⟩ := Formula.mem_atoms_conj_iff.mp occurs
    obtain ⟨row, column, value, clue, rfl⟩ := mem_clueAtoms_iff.mp isClue
    obtain ⟨inRows, inColumns, inRange⟩ := clue.mem_range
    exact mem_names_of_atom inRows inColumns inRange occurs

end Atoms

end Puzzle

end PropSat.Sudoku
