import PropSat.Proofs.PolarityTranslation
import PropSat.Proofs.Sudoku.Encoding

/-!
# The atoms of a puzzle

The names of a puzzle go through all places and numbers, by row, then by
column, then by number, and no two of them agree.  Each of them is an atom of
the constraint on its cell, and no constraint and no clue has another atom, so
that the names are the variables of the formula.
-/

namespace PropSat.Sudoku

theorem variableName_injective :
    Function.Injective fun entry : Nat × Nat × Nat =>
      variableName entry.1 entry.2.1 entry.2.2 := by
  rintro ⟨row, column, number⟩ ⟨otherRow, otherColumn, otherNumber⟩ same
  obtain ⟨rfl, rfl, rfl⟩ := variableName_inj same
  rfl

namespace Puzzle

variable {puzzle : Puzzle}

/-- The entries of a grid: every row with every column and every number. -/
def entries (puzzle : Puzzle) : List (Nat × Nat × Nat) :=
  puzzle.range ×ˢ puzzle.range ×ˢ puzzle.range

theorem names_eq_map_entries (puzzle : Puzzle) :
    puzzle.names = puzzle.entries.map fun entry =>
      variableName entry.1 entry.2.1 entry.2.2 := by
  change _ = ((puzzle.range.flatMap fun row =>
    (puzzle.range.flatMap fun column =>
      puzzle.range.map fun number => (column, number)).map fun rest =>
        (row, rest)).map _)
  simp only [names, List.map_flatMap, List.map_map, Function.comp_def]

theorem length_names (puzzle : Puzzle) :
    puzzle.names.length = puzzle.size.side ^ 3 := by
  rw [names_eq_map_entries, List.length_map, entries, List.length_product,
    List.length_product, range_eq_numbers, Size.length_numbers, pow_succ',
    pow_two]

theorem nodup_names (puzzle : Puzzle) : puzzle.names.Nodup := by
  have distinct : puzzle.range.Nodup := puzzle.size.nodup_numbers
  rw [names_eq_map_entries]
  exact (distinct.product (distinct.product distinct)).map
    variableName_injective

theorem getElem?_range {index : Nat} (inside : index < puzzle.size.side) :
    puzzle.range[index]? = some (index + 1) := by
  rw [range, List.getElem?_range' inside, Nat.one_mul, Nat.add_comm]

/-- Where two counts go through the range, the place gives both, as digits to
the base of the side of the grid. -/
theorem getElem?_table {α : Type} (entry : Nat → Nat → α) {index : Nat}
    (inside : index < puzzle.size.side * puzzle.size.side) :
    (puzzle.range.flatMap fun first =>
      puzzle.range.map fun second => entry first second)[index]? =
        some (entry (index / puzzle.size.side + 1)
          (index % puzzle.size.side + 1)) := by
  have width : ∀ first ∈ puzzle.range,
      (puzzle.range.map fun second => entry first second).length =
        puzzle.size.side := by
    intro first _
    rw [List.length_map]
    exact puzzle.size.length_numbers
  have isFirst := getElem?_range (Nat.div_lt_of_lt_mul inside)
  have isSecond := getElem?_range (Nat.mod_lt index puzzle.size.side_pos)
  rw [Cnf.getElem?_flatMap puzzle.size.side_pos width, isFirst, Option.bind_some,
    List.getElem?_map, isSecond, Option.map_some]

/-- The place of a name says its row, its column and its number. -/
theorem getElem?_names {index : Nat} (inside : index < puzzle.size.side ^ 3) :
    puzzle.names[index]? =
      some (variableName (index / puzzle.size.side ^ 2 + 1)
        (index / puzzle.size.side % puzzle.size.side + 1)
        (index % puzzle.size.side + 1)) := by
  rw [pow_succ, pow_two] at inside
  rw [pow_two]
  set side := puzzle.size.side
  have positive : 0 < side * side :=
    Nat.mul_pos puzzle.size.side_pos puzzle.size.side_pos
  have width : ∀ row ∈ puzzle.range,
      (puzzle.range.flatMap fun column =>
        puzzle.range.map fun number =>
          variableName row column number).length = side * side := by
    intro row _
    have length : puzzle.range.length = side := puzzle.size.length_numbers
    simp [List.length_flatMap, length]
  have isRow := getElem?_range (Nat.div_lt_of_lt_mul inside)
  have inRow : index % (side * side) < side * side := Nat.mod_lt _ positive
  rw [names, Cnf.getElem?_flatMap positive width, isRow, Option.bind_some,
    getElem?_table _ inRow, Nat.mod_mul_right_div_self, Nat.mod_mul_right_mod]

theorem mem_atoms_of_mem_names {name : String} (member : name ∈ puzzle.names) :
    name ∈ puzzle.toFormula.atoms := by
  obtain ⟨row, inRows, column, inColumns, number, inRange, rfl⟩ :=
    mem_names_iff.mp member
  refine Formula.mem_atoms_conj_iff.mpr
    ⟨puzzle.exactlyOneEach puzzle.cellGroup, List.mem_cons_self, ?_⟩
  refine mem_atoms_exactlyOneEach_iff.mpr
    ⟨row, inRows, column, inColumns, ?_⟩
  refine Cardinality.mem_atoms_exactlyOne_iff.mpr
    ⟨variableAtom row column number, List.mem_map.mpr
      ⟨number, inRange, rfl⟩, ?_⟩
  rw [variableAtom, Formula.atoms, List.mem_singleton]

/-- Different places or numbers have different names.  A puzzle lists its names
without repetition by row, then by column, then by number, all of them for the
side of its grid, and they are just the variables of its formula, whichever
clues it has. -/
theorem names_are_formula_variables :
    (Function.Injective fun entry : Nat × Nat × Nat =>
      variableName entry.1 entry.2.1 entry.2.2) ∧
    ∀ puzzle : Puzzle,
      puzzle.names.length = puzzle.size.side ^ 3 ∧
      puzzle.names.Nodup ∧
      (∀ index < puzzle.size.side ^ 3, puzzle.names[index]? =
        some (variableName (index / puzzle.size.side ^ 2 + 1)
          (index / puzzle.size.side % puzzle.size.side + 1)
          (index % puzzle.size.side + 1))) ∧
      ∀ name, name ∈ puzzle.names ↔ name ∈ puzzle.toFormula.vars := by
  refine ⟨variableName_injective, fun puzzle => ⟨puzzle.length_names,
    puzzle.nodup_names, fun index inside => getElem?_names inside, ?_⟩⟩
  intro name
  rw [Formula.mem_vars_iff_mem_atoms]
  exact ⟨mem_atoms_of_mem_names, mem_names_of_mem_atoms⟩

end Puzzle

end PropSat.Sudoku
