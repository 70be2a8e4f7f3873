import Mathlib.Data.List.Nodup
import Mathlib.Data.List.Perm.Subperm
import Mathlib.Data.List.ProdSigma
import PropSat.Sudoku.Board

/-!
# Grids and their units

A grid gives every cell a number, with rows and columns counted from one.  The
units of a size are its rows, columns and blocks, as lists of cells, and a
solution has each number at exactly one cell of every unit.

That the numbers of a unit are a permutation of all numbers says the same.
-/

namespace PropSat.Sudoku

namespace Size

/-- The numbers of a cell, which also count rows and columns. -/
def numbers (size : Size) : List Nat := List.range' 1 size.side

def rowUnit (size : Size) (row : Nat) : List (Nat × Nat) :=
  size.numbers.map fun column => (row, column)

def columnUnit (size : Size) (column : Nat) : List (Nat × Nat) :=
  size.numbers.map fun row => (row, column)

def blockUnit (size : Size) (row column : Nat) : List (Nat × Nat) :=
  (List.range' row size.block).flatMap fun row =>
    (List.range' column size.block).map fun column => (row, column)

/-- The rows, columns and blocks of a grid. -/
inductive HasUnit (size : Size) : List (Nat × Nat) → Prop where
  | row {row : Nat} : row ∈ size.numbers → HasUnit size (size.rowUnit row)
  | column {column : Nat} :
      column ∈ size.numbers → HasUnit size (size.columnUnit column)
  | block {row column : Nat} :
      row ∈ Board.blockStarts size → column ∈ Board.blockStarts size →
      HasUnit size (size.blockUnit (row + 1) (column + 1))

theorem mem_numbers_iff {size : Size} {number : Nat} :
    number ∈ size.numbers ↔ 1 ≤ number ∧ number ≤ size.side := by
  rw [numbers, List.mem_range'_1]
  omega

theorem side_pos (size : Size) : 0 < size.side := by
  cases size <;> decide

theorem length_numbers (size : Size) : size.numbers.length = size.side :=
  List.length_range'

theorem nodup_numbers (size : Size) : size.numbers.Nodup :=
  List.nodup_range'

/-- Counting from zero and counting from one. -/
theorem map_range_eq_map_numbers {α : Type} {size : Size}
    {fromZero fromOne : Nat → α}
    (same : ∀ index, index < size.side →
      fromZero index = fromOne (index + 1)) :
    (List.range size.side).map fromZero = size.numbers.map fromOne := by
  rw [numbers, List.range'_eq_map_range, List.map_map]
  refine List.map_congr_left ?_
  intro index member
  rw [same index (List.mem_range.mp member), Function.comp_apply,
    Nat.add_comm 1]

/-- A block starts early enough to fit into the grid. -/
theorem add_block_le_side {size : Size} {start : Nat}
    (member : start ∈ Board.blockStarts size) :
    start + size.block ≤ size.side := by
  obtain ⟨index, inRange, rfl⟩ := List.mem_map.mp member
  have below : index + 1 ≤ size.block := List.mem_range.mp inRange
  calc
    index * size.block + size.block = (index + 1) * size.block := by
      rw [Nat.succ_mul]
    _ ≤ size.side := Nat.mul_le_mul_right size.block below

namespace HasUnit

variable {size : Size} {cells : List (Nat × Nat)}

theorem nodup (isUnit : size.HasUnit cells) : cells.Nodup := by
  cases isUnit with
  | row _ =>
      refine size.nodup_numbers.map ?_
      intro first second same
      exact (Prod.mk.inj same).2
  | column _ =>
      refine size.nodup_numbers.map ?_
      intro first second same
      exact (Prod.mk.inj same).1
  | block _ _ =>
      exact List.Nodup.product List.nodup_range' List.nodup_range'

theorem length_eq (isUnit : size.HasUnit cells) :
    cells.length = size.side := by
  cases isUnit with
  | row _ => rw [rowUnit, List.length_map, length_numbers]
  | column _ => rw [columnUnit, List.length_map, length_numbers]
  | @block row column _ _ =>
      have product := List.length_product
        (List.range' (row + 1) size.block)
        (List.range' (column + 1) size.block)
      rw [List.length_range', List.length_range'] at product
      exact product

theorem mem_numbers (isUnit : size.HasUnit cells) {cell : Nat × Nat}
    (member : cell ∈ cells) :
    cell.1 ∈ size.numbers ∧ cell.2 ∈ size.numbers := by
  cases isUnit with
  | row inGrid =>
      obtain ⟨column, inRow, rfl⟩ := List.mem_map.mp member
      exact ⟨inGrid, inRow⟩
  | column inGrid =>
      obtain ⟨row, inColumn, rfl⟩ := List.mem_map.mp member
      exact ⟨inColumn, inGrid⟩
  | block rowStart columnStart =>
      have rowFits := add_block_le_side rowStart
      have columnFits := add_block_le_side columnStart
      obtain ⟨row, inRows, inBlock⟩ := List.mem_flatMap.mp member
      obtain ⟨column, inColumns, rfl⟩ := List.mem_map.mp inBlock
      rw [List.mem_range'_1] at inRows inColumns
      rw [mem_numbers_iff, mem_numbers_iff]
      omega

end HasUnit

end Size

/-- Each number is at exactly one cell of every unit. -/
def IsSolution (size : Size) (grid : Nat × Nat → Nat) : Prop :=
  ∀ cells, size.HasUnit cells → ∀ number ∈ size.numbers,
    ∃ chosen ∈ cells, ∀ cell ∈ cells, grid cell = number ↔ cell = chosen

namespace IsSolution

variable {size : Size} {grid : Nat × Nat → Nat}

/-- As many cells as there are numbers hold each number once exactly when their
numbers, in any order, are all of them. -/
theorem perm_numbers_iff {cells : List (Nat × Nat)}
    (count : cells.length = size.side) :
    (cells.map grid).Perm size.numbers ↔
      ∀ number ∈ size.numbers, ∃ chosen ∈ cells, ∀ cell ∈ cells,
        grid cell = number ↔ cell = chosen := by
  constructor
  · intro perm number member
    have distinctNumbers : (cells.map grid).Nodup :=
      perm.nodup_iff.mpr size.nodup_numbers
    obtain ⟨chosen, inCells, rfl⟩ :=
      List.mem_map.mp (perm.mem_iff.mpr member)
    refine ⟨chosen, inCells, ?_⟩
    intro cell inList
    constructor
    · intro same
      exact List.inj_on_of_nodup_map distinctNumbers inList inCells same
    · intro same
      rw [same]
  · intro once
    have included : size.numbers ⊆ cells.map grid := by
      intro number member
      obtain ⟨chosen, inCells, holds⟩ := once number member
      exact List.mem_map.mpr
        ⟨chosen, inCells, (holds chosen inCells).mpr rfl⟩
    have lengths : (cells.map grid).length = size.numbers.length := by
      rw [List.length_map, count, Size.length_numbers]
    exact ((size.nodup_numbers.subperm included).perm_of_length_le
      (Nat.le_of_eq lengths)).symm

theorem iff_perm :
    IsSolution size grid ↔ ∀ cells, size.HasUnit cells →
      (cells.map grid).Perm size.numbers := by
  refine forall_congr' fun cells => forall_congr' fun isUnit => ?_
  exact (perm_numbers_iff isUnit.length_eq).symm

theorem mem_numbers (solution : IsSolution size grid) {row column : Nat}
    (inRows : row ∈ size.numbers) (inColumns : column ∈ size.numbers) :
    grid (row, column) ∈ size.numbers := by
  have perm := iff_perm.mp solution _ (.row inRows)
  refine perm.mem_iff.mp (List.mem_map_of_mem ?_)
  exact List.mem_map.mpr ⟨column, inColumns, rfl⟩

end IsSolution

end PropSat.Sudoku
